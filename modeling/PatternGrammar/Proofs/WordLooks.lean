import PatternGrammar.Proofs.Alternatives

/-!
# Looks ahead for words

A negative look ahead with alternatives between two boundaries holds where none of them stands as a word of its own.
An attempt to match it enters the alternatives one after the other, and its end depends on which of them there are
and not on their order.
-/

namespace PatternGrammar.Regex

/-! ## Expressions and code -/

/-- A word of its own that one of the chains takes. -/
def wordOf (chains : List (List Single)) : Regex :=
  .item (.anchor .wordBoundary) {} (.group .plain (anyOf chains) {} (.item (.anchor .wordBoundary) {} .stop))

/-- A look ahead for no word of its own that one of the chains takes. -/
def noWordOf (chains : List (List Single)) : Regex :=
  .group (.look { behind := false, negated := true } 0) (wordOf chains) {} .stop

/-- A bare group. -/
def Shape.bare (upTo : Nat) : Shape := { role := .plain, upTo }

/-- A look ahead for nothing of the kind. -/
def Shape.noAhead (upTo : Nat) : Shape := { role := .look { behind := false, negated := true }, upTo }

namespace Code

/-- The boundary of a word at the end. -/
def wordEnd : Code := .step (.anchor .wordBoundary) .stop

/-- The words between their boundaries. -/
def wordOf (upTo : Nat) (chains : List (List Single)) : Code :=
  .step (.anchor .wordBoundary) (.group (.bare upTo) (.anyOf upTo chains) wordEnd)

/-- The look ahead for none of the words. -/
def noWordOf (upTo : Nat) (chains : List (List Single)) : Code :=
  .group (.noAhead upTo) (.wordOf upTo chains) .stop

end Code

section
variable {chains : List (List Single)}

theorem hasItem_noWordOf {p : Item → Bool} (hs : ∀ s, p (.single s) = false) (ha : ∀ a, p (.anchor a) = false) :
    hasItem p (noWordOf chains) = false := by
  simp [noWordOf, wordOf, hasItem, ha, hasItem_anyOf hs]

theorem lookBehindWidths_noWordOf (g : Groups) : lookBehindWidths g (noWordOf chains) = .ok [] := by
  simp only [lookBehindWidths, noWordOf, wordOf, Measures.measureWithin, measureWithin_anyOf]
  rfl

theorem checkConditions_noWordOf (last : Nat) : checkConditions last (noWordOf chains) = .ok () := by
  simp only [noWordOf, wordOf, checkConditions, checkConditions_anyOf]
  rfl

theorem survey_wordOf {v : Surveyor} {place : Standing} {total n : Nat} :
    v.survey place [] total (wordOf chains) = .ok n ↔
      total + 8 + anyOfExtent chains ≤ maxExtent ∧ n = total + 8 + anyOfExtent chains := by
  simp only [wordOf, survey_item, survey_plain_group, item_anchor_eq_ok, survey_stop, survey_anyOf, frameExtent,
    exists_eq_left]
  constructor
  · rintro ⟨-, -, _, ⟨-, rfl⟩, -, hle, rfl⟩
    omega
  · rintro ⟨hle, rfl⟩
    exact ⟨by omega, by omega, _, ⟨by omega, rfl⟩, by omega, by omega, by omega⟩

theorem checkExtent_noWordOf {v : Surveyor} :
    checkExtent v (noWordOf chains) = .ok () ↔ 21 + anyOfExtent chains ≤ maxExtent := by
  have hlook : v.survey {} [] frameExtent (noWordOf chains) = (do
      v.check frameExtent
      let one ← v.survey { looks := 1 } [] frameExtent (wordOf chains)
      v.survey {} [] (frameExtent + one) .stop) := rfl
  rw [checkExtent, hlook]
  simp only [Except.bind_eq_ok, check_eq_ok, survey_wordOf, survey_stop, frameExtent]
  constructor
  · rintro ⟨_, ⟨_, -, _, ⟨-, rfl⟩, -, rfl⟩, hle⟩
    omega
  · intro hle
    exact ⟨_, ⟨(), by omega, _, ⟨by omega, rfl⟩, by omega, rfl⟩, by omega⟩

/-- Nothing can be wrong with a look ahead for words but its extent. -/
theorem Reading.Result.fits_noWordOf {result : Reading.Result} (h : result.regex = noWordOf chains) {size : Nat}
    {widths : List (Nat × List Nat)} :
    result.Fits size widths ↔ widths = [] ∧ 21 + anyOfExtent chains ≤ maxExtent := by
  constructor
  · rintro ⟨hm, he, -⟩
    rw [h, lookBehindWidths_noWordOf] at hm
    rw [h] at he
    exact ⟨(Except.ok.inj hm).symm, checkExtent_noWordOf.mp he⟩
  · rintro ⟨rfl, hle⟩
    exact ⟨h ▸ lookBehindWidths_noWordOf _, h ▸ checkExtent_noWordOf.mpr hle, h ▸ checkConditions_noWordOf 0⟩

/-! The assembly of the alternatives, of the words between their boundaries, and of the look around them. -/

theorem Assembler.groupPieces_anyOf (a : Assembler) (place : Position) (s : Assembled) :
    a.groupPieces place .plain (anyOf chains) {} s = ([.group (.bare s.leaves) (.anyOf s.leaves chains)], s) := by
  have hfailure : isFailure .plain (anyOf chains) {} = false := by cases anyOf chains <;> rfl
  have hcopy : copyOf (a.alternatives place [] [] [] (anyOf chains)) { role := .plain } s =
      let x := a.alternatives place [] [] [] (anyOf chains) s
      (.group (.bare x.2.leaves) x.1, x.2) := rfl
  rw [groupPieces, hfailure]
  change (copyOf (a.alternatives place [] [] [] (anyOf chains)) { role := .plain } >>= fun p => pure [p]) s = _
  rw [Assembling.bind_apply, hcopy, a.alternatives_anyOf]
  rfl

theorem Assembler.alternatives_wordOf (a : Assembler) (place : Position) (s : Assembled) :
    a.alternatives place [] [] [] (wordOf chains) s = (.wordOf s.leaves chains, s) := by
  change (a.alternatives place [] [] [.step (.anchor .wordBoundary)]
    (.group .plain (anyOf chains) {} (.item (.anchor .wordBoundary) {} .stop))) s = _
  rw [alternatives_group, Assembling.bind_apply, groupPieces_anyOf]
  rfl

theorem Assembler.assemble_noWordOf (a : Assembler) : a.assemble (noWordOf chains) = (.noWordOf 0 chains, 0) := by
  have hpieces : a.groupPieces {} (.look { behind := false, negated := true } 0) (wordOf chains) {} a.start =
      let x := a.alternatives { looks := 1 } [] [] [] (wordOf chains) a.start
      ([.group (.noAhead x.2.leaves) x.1], x.2) := rfl
  have hcode : a.alternatives {} [] [] [] (noWordOf chains) a.start = (.noWordOf 0 chains, a.start) := by
    rw [noWordOf, alternatives_group, Assembling.bind_apply, hpieces, alternatives_wordOf]
    rfl
  change ((a.alternatives {} [] [] [] (noWordOf chains) a.start).1, _) = _
  rw [hcode]
  exact congrArg (_, ·) (congrArg (·.2.leaves) hcode)

theorem programOf_noWordOf (groups : Groups) (widths : List (Nat × List Nat)) :
    (programOf groups widths {} (noWordOf chains)).code = .noWordOf 0 chains := by
  have hcalls : hasItem Item.isCall (noWordOf chains) = false := hasItem_noWordOf (fun _ => rfl) fun _ => rfl
  simp only [programOf, Assembler.assemble_noWordOf, hcalls, if_true, Code.possessified, Code.noWordOf, Code.wordOf,
    Code.wordEnd, Code.possessifiedFrom, Instruction.possessified, Code.possessifiedFrom_anyOf]
  rfl

end

/-! ## Reading -/

/-- The characters of a look ahead for none of these words. -/
def noWordSigns (words : List (List Nat)) : List Nat :=
  [Sign.openParen, Sign.question, Sign.exclamation, Sign.backslash, 98, Sign.openParen, Sign.question, Sign.colon] ++
    (anySigns words ++ [Sign.closeParen, Sign.backslash, 98, Sign.closeParen])

/-- A look ahead for none of these words is read in a group within a group. -/
theorem readItems_noWordSigns (size fuel : Nat) (words : List (List Nat)) :
    ∃ s, readItems ((noWordSigns words).length + fuel) { size, rest := noWordSigns words } = .ok ((), s) ∧
      s.enclosing = [] ∧ ofPieces s.pieces = noWordOf (words.map (·.map escapedSingle)) ∧ s.settings = {} ∧
      s.opened = 0 := by
  let tail : List Nat := [Sign.closeParen, Sign.backslash, 98, Sign.closeParen]
  let inner : List Nat := Sign.openParen :: Sign.question :: Sign.colon :: (anySigns words ++ tail)
  let look : GroupKind := .look { behind := false, negated := true } 0
  let start : ReadState := { size, rest := noWordSigns words }
  let ahead := start.within (Sign.backslash :: 98 :: inner) look
  let word := ahead.pushed inner (.item (.anchor .wordBoundary) {}) .other false
  have hone : 1 ≤ maxDepth := by decide
  have htwo : 2 ≤ maxDepth := by decide
  have hstart : start.Steady := ⟨rfl, rfl, rfl, rfl, rfl, rfl⟩
  have hahead : ahead.Steady := ⟨rfl, rfl, rfl, rfl, rfl, rfl⟩
  have hword : word.Steady := ⟨rfl, rfl, rfl, rfl, rfl, rfl⟩
  have hwithin : (word.within (anySigns words ++ tail) .plain).Ready :=
    ⟨⟨rfl, rfl, rfl, rfl, rfl, rfl⟩, rfl, htwo⟩
  have hlength : (noWordSigns words).length + fuel = (anySigns words).length + (fuel + 9) + 1 + 1 + 1 := by
    simp only [noWordSigns, List.length_append, List.length_cons, List.length_nil]
    omega
  obtain ⟨u, spare, x, hu, ha, hcarried, hpieces, hx, hi⟩ := readItems_anySigns hwithin words rfl (fuel + 9)
  let behind := u.closed word [Sign.backslash, 98, Sign.closeParen] .plain
  have hbehind : behind.Steady := ⟨hu.steady.quoted, hu.steady.expects, rfl, rfl, rfl, hu.steady.highest⟩
  let last := behind.pushed [Sign.closeParen] (.item (.anchor .wordBoundary) {}) .other false
  have hlast : last.Steady := ⟨hu.steady.quoted, hu.steady.expects, rfl, rfl, rfl, hu.steady.highest⟩
  have hdepth : behind.depth ≤ maxDepth := hone
  have hadvanced : Advanced (start.within (Sign.backslash :: 98 :: inner) look) [Sign.closeParen] last :=
    ⟨rfl, ha.size, rfl, rfl⟩
  have hopen : readNext Sign.openParen (Sign.question :: ([Sign.exclamation] ++ Sign.backslash :: 98 :: inner)) start =
      .ok ((), ahead) := readNext_opening hstart (Nat.zero_le _) rfl
  have hend : fuel + 9 + spare = fuel + 6 + spare + 1 + 1 + 1 := by omega
  rw [hlength, readItems_cons rfl hopen, readItems_cons rfl (readNext_wordBoundary hahead hone),
    readItems_cons rfl (readNext_group hword hone), hi, hend,
    readItems_cons ha.rest (readNext_closed hu.steady hu.depth ha),
    readItems_cons rfl (readNext_wordBoundary hbehind hdepth),
    readItems_cons rfl (readNext_closed hlast hdepth hadvanced)]
  refine ⟨_, (readItems_of_rest_eq_nil _ rfl).1, rfl, ?_, congrArg ReadState.settings hcarried,
    congrArg ReadState.opened hcarried⟩
  have hbody : ofPieces u.pieces = anyOf (words.map (·.map escapedSingle)) := by
    rw [hpieces, ← hx]
    exact congrArg ofPieces (List.append_nil _)
  rw [noWordOf, wordOf, ← hbody]
  rfl

/-! ## Runs -/

/-- So many steps are enough to come to this end. -/
def Engine.EndsWithin (e : Engine) (n : Nat) (s : Step) (r : Attempt × Nat) : Prop :=
  ∀ fuel, n ≤ fuel → e.run fuel s = r

namespace Engine.EndsWithin

variable {e : Engine} {n k : Nat} {m : Machine} {t : Thread} {r : Attempt × Nat}

theorem mono {s : Step} (h : e.EndsWithin n s r) (hle : n ≤ k) : e.EndsWithin k s r :=
  fun fuel hf => h fuel (hle.trans hf)

theorem finished {a : Attempt} : e.EndsWithin 1 (.finished m a) (a, m.skips) := by
  intro fuel hf
  obtain ⟨k, rfl⟩ := Nat.exists_eq_add_of_le' hf
  rfl

theorem forward (h : e.EndsWithin n (e.walk m t t.place t.code) r) : e.EndsWithin (n + 1) (.forward m t) r := by
  intro fuel hf
  obtain ⟨k, rfl⟩ := Nat.exists_eq_add_of_le' hf
  exact h (k + n) (Nat.le_add_left n k)

theorem backward {v : Verdict} (h : e.EndsWithin n (e.stepBackward m v) r) :
    e.EndsWithin (n + 1) (.backward m v) r := by
  intro fuel hf
  obtain ⟨k, rfl⟩ := Nat.exists_eq_add_of_le' hf
  exact h (k + n) (Nat.le_add_left n k)

end Engine.EndsWithin

/-- The chain takes the subject from this place on, up to the boundary of a word. -/
def Subject.hasWordAt (s : Subject) (chain : List Single) (place : Nat) : Bool :=
  (s.takeEach? chain place).any (s.holdsAt .wordBoundary)

/-! ## Attempts -/

/-- A machine that looks ahead for words: the alternatives there are, where and above how many choices it looks,
and the choice that waits for the outcome. -/
structure WordLook where
  upTo : Nat
  chains : List (List Single)
  place : Nat
  height : Nat
  waiting : Thread
  resumption : Resumption
  below : Choices

namespace WordLook

variable (l : WordLook)

/-- The groups around a chain. -/
def closings : List Closing :=
  [⟨.plain, .bare l.upTo, .anyOf l.upTo l.chains, .wordEnd, l.place, l.height + 1⟩,
    ⟨.framed, .noAhead l.upTo, .wordOf l.upTo l.chains, .stop, l.place, l.height⟩]

/-- The machine that looks ahead. -/
def inside (entries : Nat) : Machine :=
  { choices := .more l.waiting l.resumption l.below, height := l.height + 1, entries }

/-- The machine behind the look ahead. -/
def outside (entries : Nat) : Machine := { choices := l.below, height := l.height, entries }

/-- The machine that has more chains to try. -/
def withOthers (t : Thread) (others : List (List Single)) (entries : Nat) : Machine :=
  { choices := .more t (.branches ⟨l.closings, .bare l.upTo, l.upTo, true, some (.anyOf l.upTo others)⟩ false)
      (l.inside entries).choices
    height := l.height + 2, entries }

/-- The first of these chains is tried. The last one needs no entry of its own. -/
def attempt (t : Thread) (entries : Nat) : List (List Single) → Step
  | [] => .backward (l.inside entries) .failed
  | [chain] => .forward (l.inside entries) { t with code := .ones chain, closings := l.closings }
  | chain :: other :: others =>
      .forward (l.withOthers t (other :: others) (entries + 1))
        { t with code := .ones chain, closings := l.closings, depth := t.depth + 1 }

end WordLook

section
variable {e : Engine} {l : WordLook} {entries n : Nat} {m : Machine} {t : Thread} {found missed : Attempt × Nat}

/-- The end of the chain is also the end of the look ahead if a word ends there. -/
theorem Engine.endsWithin_chain {chain : List Single} {r : Attempt × Nat}
    (hm : m.cutTo (l.height + 1) = l.inside entries)
    (hword : e.subject.hasWordAt chain t.place → e.EndsWithin n (.backward (l.outside entries) .failed) r)
    (hnone : ¬ e.subject.hasWordAt chain t.place → e.EndsWithin n (.backward m .failed) r) :
    e.EndsWithin (n + 2) (.forward m { t with code := .ones chain, closings := l.closings }) r := by
  refine .forward ?_
  rw [Engine.walk_ones]
  cases hp : e.subject.takeEach? chain t.place with
  | none =>
      have hno : ¬ e.subject.hasWordAt chain t.place := by simp [Subject.hasWordAt, hp]
      exact (hnone hno).mono (Nat.le_succ n)
  | some behind =>
      let t' : Thread := { t with place := behind, code := .wordEnd, closings := l.closings.tail }
      refine .forward ?_
      by_cases hb : e.subject.holdsAt .wordBoundary behind
      · have hyes : e.subject.hasWordAt chain t.place := by simp [Subject.hasWordAt, hp, hb]
        have hover : e.walk m t' behind .wordEnd = .backward (l.outside entries) .failed := by
          simp only [t', Code.wordEnd, walk, hb, if_true, close, WordLook.closings, List.tail_cons, closeGroup,
            Machine.unwind, hm]
          rfl
        exact hover ▸ hword hyes
      · have hno : ¬ e.subject.hasWordAt chain t.place := by simp [Subject.hasWordAt, hp, hb]
        have hfailed : e.walk m t' behind .wordEnd = .backward m .failed := if_neg hb
        exact hfailed ▸ hnone hno

theorem Engine.Ordinary.refusal?_eq_none (he : e.Ordinary) (hcrowd : 4 < e.crowd) {depth : Nat} (hd : depth ≤ 2)
    (hentries : entries < 10000000) : e.refusal? entries depth = none := by
  have hlimits : e.settings.limits = {} := by rw [he.settings]
  unfold refusal?
  rw [hlimits, if_neg (by omega), if_neg (by simpa using hentries), if_neg (by simp; omega)]

variable (he : e.Ordinary) (hcrowd : 4 < e.crowd) (hd : t.depth ≤ 2)
include he hcrowd hd

/-- When a chain has failed, the next one is tried. -/
theorem Engine.stepBackward_withOthers {others : List (List Single)} (hne : others ≠ [])
    (hentries : entries < 10000000) :
    e.stepBackward (l.withOthers t others entries) .failed = l.attempt t entries others := by
  match others with
  | [chain] =>
      simp only [WordLook.withOthers, stepBackward, resume, resumeGroup, Branching.judge, Code.anyOf,
        Code.hasAlternatives_ones]
      rfl
  | chain :: other :: others =>
      simp only [WordLook.withOthers, stepBackward, resume, resumeGroup, Branching.judge, Code.anyOf,
        Code.hasAlternatives, tryOthers, tryBranch, call, he.refusal?_eq_none hcrowd hd hentries, Bool.not_true,
        Bool.and_false, Bool.false_eq_true, if_false]
      rfl

/-- Behind the boundary in front of the words the first of them is tried. -/
theorem Engine.walk_words (hentries : entries < 10000000) (hne : l.chains ≠ []) (ht : t.closings = l.closings.tail)
    (hp : t.place = l.place) :
    e.walk (l.inside entries) t l.place (.group (.bare l.upTo) (.anyOf l.upTo l.chains) .wordEnd) =
      l.attempt t entries l.chains := by
  obtain ⟨upTo, chains, place, height, waiting, resumption, below⟩ := l
  obtain ⟨code, place', start, depth, captures, closings, calling⟩ := t
  obtain rfl : closings = _ := ht
  obtain rfl : place' = place := hp
  match chains with
  | [chain] =>
      exact e.enter_plain _ _ (.bare upTo) .wordEnd rfl rfl rfl he.hasLeave (Code.hasAlternatives_ones chain)
  | chain :: other :: others =>
      have hrefusal : e.refusal? entries depth = none := he.refusal?_eq_none hcrowd hd hentries
      simp only [walk, reachGroup, enter, Shape.bare, he.hasLeave, Code.anyOf, tryFirst, tryBranch, call,
        WordLook.inside, hrefusal, reduceCtorEq, if_false, Bool.false_eq_true]
      rfl

/-- The look ahead finds a word if one of the chains takes one. -/
theorem Engine.endsWithin_attempt
    (hfound : ∀ entries, e.EndsWithin n (.backward (l.outside entries) .failed) found)
    (hmissed : ∀ entries, e.EndsWithin n (.backward (l.inside entries) .failed) missed)
    (chains : List (List Single)) (hentries : entries + chains.length ≤ 10000000) :
    e.EndsWithin (n + 3 * chains.length) (l.attempt t entries chains)
      (if chains.any (e.subject.hasWordAt · t.place) then found else missed) := by
  induction chains using Code.anyOf.induct generalizing entries with
  | case1 => exact hmissed entries
  | case2 chain =>
      have hcut : (l.inside entries).cutTo (l.height + 1) = l.inside entries := by
        simp [Machine.cutTo, WordLook.inside, Choices.drop]
      refine (endsWithin_chain hcut (fun hword => ?_) fun hnone => ?_).mono (Nat.le_succ _)
      · rw [List.any_cons, hword]
        exact hfound entries
      · rw [List.any_cons, Bool.eq_false_iff.mpr hnone]
        exact hmissed entries
  | case3 chain other others ih =>
      have hlength : (chain :: other :: others).length = (other :: others).length + 1 := rfl
      have hrest : 0 < (other :: others).length := Nat.succ_pos _
      have hcut : (l.withOthers t (other :: others) (entries + 1)).cutTo (l.height + 1) = l.inside (entries + 1) := by
        simp [Machine.cutTo, WordLook.withOthers, WordLook.inside, Choices.drop]
      let t' : Thread := { t with depth := t.depth + 1 }
      rw [hlength] at hentries ⊢
      refine endsWithin_chain (n := n + 3 * (other :: others).length + 1) (t := t') hcut (fun hword => ?_)
        fun hnone => ?_
      · have hfirst : e.subject.hasWordAt chain t.place = true := hword
        rw [List.any_cons, hfirst]
        exact (hfound _).mono (by omega)
      · have hfirst : e.subject.hasWordAt chain t.place = false := Bool.eq_false_iff.mpr hnone
        rw [List.any_cons, hfirst, Bool.false_or]
        refine .backward ?_
        rw [stepBackward_withOthers he hcrowd hd (List.cons_ne_nil _ _) (by omega)]
        exact ih (by omega)

end

section
variable (e : Engine) (upTo : Nat) (chains : List (List Single)) (place : Nat)

/-- The look ahead in front of everything else. -/
def Engine.wordLook : WordLook where
  upTo := upTo
  chains := chains
  place := place
  height := 1
  waiting := e.beginning place
  resumption :=
    .avoid ⟨[⟨.framed, .noAhead upTo, .wordOf upTo chains, .stop, place, 1⟩], .noAhead upTo, upTo, false, none⟩
      .stop
  below := (e.begun place).choices

/-- The thread that looks ahead. -/
def Engine.lookingAhead : Thread :=
  { e.beginning place with
    code := .wordOf upTo chains, closings := (e.wordLook upTo chains place).closings.tail, depth := 2 }

theorem Engine.endsWithin_outside (entries : Nat) :
    e.EndsWithin 3 (.backward ((e.wordLook upTo chains place).outside entries) .failed) (.refused .failed, 0) :=
  .backward (.backward .finished)

variable {e} (he : e.Ordinary)
include he

theorem Engine.Ordinary.endsWithin_inside (entries : Nat) :
    e.EndsWithin 3 (.backward ((e.wordLook upTo chains place).inside entries) .failed) (.matched, 0) := by
  refine .backward (.forward ?_)
  change e.EndsWithin 1 (e.conclude _ _) _
  rw [he.conclude_eq]
  exact .finished

variable (hcrowd : 4 < e.crowd)
include hcrowd

theorem Engine.Ordinary.walk_noWordOf :
    e.walk (e.begun place) (e.beginning place) place (.noWordOf upTo chains) =
      .forward ((e.wordLook upTo chains place).inside 3) (e.lookingAhead upTo chains place) := by
  have hrefusal : e.refusal? 2 1 = none := he.refusal?_eq_none hcrowd (by omega) (by omega)
  have hbranch : e.tryBranch (e.begun place) (e.beginning place) (e.wordLook upTo chains place).resumption
      (e.wordLook upTo chains place).closings.tail (.wordOf upTo chains) none =
        .forward ((e.wordLook upTo chains place).inside 3) (e.lookingAhead upTo chains place) := by
    simp only [tryBranch, call, begun, beginning, hrefusal]
    rfl
  exact hbranch

/-- An attempt to look ahead for none of the words ends with a match unless one of them stands there by itself. -/
theorem Engine.Ordinary.attempt_noWordOf {upTo : Nat} {chains : List (List Single)}
    (hc : e.program.code = .noWordOf upTo chains) (hne : chains ≠ []) (hlength : chains.length ≤ 1000000) :
    e.attempt place =
      (if e.subject.holdsAt .wordBoundary place && chains.any (e.subject.hasWordAt · place) then .refused .failed
        else .matched, 0) := by
  let l := e.wordLook upTo chains place
  let t := e.lookingAhead upTo chains place
  have hdepth : t.depth ≤ 2 := Nat.le_refl 2
  have hwords : e.walk (l.inside 3) t place (.group (.bare upTo) (.anyOf upTo chains) .wordEnd) =
      l.attempt t 3 chains := walk_words he hcrowd hdepth (by omega) hne rfl rfl
  have hboundary : e.walk (l.inside 3) t place (.wordOf upTo chains) =
      if e.subject.holdsAt .wordBoundary place then l.attempt t 3 chains else .backward (l.inside 3) .failed := by
    rw [← hwords]
    rfl
  have hends : e.EndsWithin (3 + 3 * chains.length + 2) (.forward (e.begun place) (e.beginning place))
      (if e.subject.holdsAt .wordBoundary place && chains.any (e.subject.hasWordAt · place) then .refused .failed
        else .matched, 0) := by
    refine .forward ?_
    change e.EndsWithin _ (e.walk _ _ place e.program.code) _
    rw [hc, he.walk_noWordOf upTo chains place hcrowd]
    refine .forward ?_
    change e.EndsWithin _ (e.walk (l.inside 3) t place (.wordOf upTo chains)) _
    rw [hboundary]
    by_cases hb : e.subject.holdsAt .wordBoundary place
    · have hattempt := endsWithin_attempt he hcrowd hdepth (e.endsWithin_outside upTo chains place)
        (he.endsWithin_inside upTo chains place) chains (show 3 + chains.length ≤ 10000000 by omega)
      rw [if_pos hb, hb, Bool.true_and, apply_ite (fun a => (a, 0))]
      exact hattempt
    · rw [if_neg hb, Bool.eq_false_iff.mpr hb, Bool.false_and]
      exact (he.endsWithin_inside upTo chains place 3).mono (by omega)
  rw [he.attempt_eq]
  refine hends _ ?_
  unfold fuel
  rw [he.settings]
  have hpos := e.program.code.size_pos
  dsimp only
  omega

end

end PatternGrammar.Regex
