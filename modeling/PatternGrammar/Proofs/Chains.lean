import PatternGrammar.Proofs.Characters
import PatternGrammar.Proofs.Plans

/-!
# Chains of single items

An expression in which single items follow one another has a code of the same shape. A group that takes the whole
subject matches it if they take it item by item, and nothing else is tried.
-/

namespace PatternGrammar.Regex

/-! ## Attempts -/

/-- An engine for an expression without numbered groups and settings of its own. -/
structure Engine.Ordinary (e : Engine) : Prop where
  settings : e.settings = {}
  groupCount : e.program.groupCount = 0
  crowd : 2 < e.crowd
  hasLeave : e.hasLeave = false
  alternatives : e.program.code.hasAlternatives = false

/-- The thread that waits for the verdict on the whole expression. -/
def Thread.outermost (place : Nat) : Thread :=
  { code := .stop, place, start := place, captures := Array.replicate 1 none }

/-- The machine in front of the whole expression. -/
def Engine.begun (e : Engine) (place : Nat) : Machine where
  choices := .more (.outermost place)
    (.branches ⟨[], { role := .plain, upTo := e.program.leaves }, e.program.leaves, false, none⟩ true) .none
  height := 1
  entries := 2

/-- The thread in front of the whole expression. -/
def Engine.beginning (e : Engine) (place : Nat) : Thread :=
  { Thread.outermost place with code := e.program.code, depth := 1 }

section
variable {e : Engine}

theorem Engine.Ordinary.attempt_eq (h : e.Ordinary) (place : Nat) :
    e.attempt place = e.run e.fuel (.forward (e.begun place) (e.beginning place)) := by
  have hcrowd : ¬ e.crowd ≤ 2 := Nat.not_le.mpr h.crowd
  unfold attempt
  simp only [h.settings, h.groupCount, frameSize, Engine.tryFirst_eq h.alternatives, tryBranch, call, refusal?]
  rw [if_neg (by decide), if_neg (by decide), if_neg (by decide), if_neg hcrowd]
  rfl

theorem Engine.Ordinary.conclude_eq (h : e.Ordinary) (m : Machine) (t : Thread) :
    e.conclude m t = .finished m .matched := by
  unfold conclude
  simp only [h.settings, Bool.false_and, Bool.or_self, Bool.and_false, Bool.false_eq_true, if_false]

theorem Engine.enter_plain (m : Machine) (t : Thread) (shape : Shape) {body : Code} (next : Code)
    (hr : shape.role = .plain) (he : shape.ending = .once) (hg : shape.guarded = false) (hl : e.hasLeave = false)
    (ha : body.hasAlternatives = false) :
    e.enter m t shape body next =
      .forward m { t with code := body, closings := t.within m .plain shape body next } := by
  unfold enter
  simp only [hr, he, hg, hl, reduceCtorEq, if_false, Bool.false_eq_true]
  cases body with
  | either => cases ha
  | _ => rfl

end

namespace Subject

/-- Takes single items, one behind the other. -/
def takeEach? (s : Subject) : List Single → Nat → Option Nat
  | [], i => some i
  | single :: rest, i =>
      let behind := s.take single i
      if behind = i then none else s.takeEach? rest behind

end Subject

/-- Single items, one behind the other. -/
def Code.ones (singles : List Single) : Code := singles.foldr (fun s code => .step (.one s) code) .stop

theorem Code.hasAlternatives_ones (singles : List Single) : (Code.ones singles).hasAlternatives = false := by
  cases singles <;> rfl

section
variable {e : Engine}

theorem Engine.walk_ones (m : Machine) (t : Thread) (singles : List Single) (place : Nat) :
    e.walk m t place (.ones singles) =
      match e.subject.takeEach? singles place with
      | some place => e.close m { t with place }
      | none => .backward m .failed := by
  induction singles generalizing place with
  | nil => rfl
  | cons s rest ih =>
      have hcons : Code.ones (s :: rest) = .step (.one s) (.ones rest) := rfl
      rw [hcons, walk, Subject.takeEach?]
      split
      · rfl
      · exact ih _

/-- An attempt to match single items from the start of the subject up to its end. -/
theorem Engine.Ordinary.attempt_framed_ones (h : e.Ordinary) {leaves : Nat} {singles : List Single}
    (hc : e.program.code = .framed true leaves (.ones singles)) :
    e.attempt 0 =
      if (e.subject.takeEach? singles 0).any (e.subject.size ≤ ·) then (.matched, 0) else (.refused .failed, 0) := by
  obtain ⟨n, hn⟩ : ∃ n, e.fuel = n + 3 + 1 + 1 + 1 := by
    refine ⟨e.fuel - 6, ?_⟩
    unfold fuel
    rw [h.settings]
    have hpos := e.program.code.size_pos
    dsimp only
    omega
  let shape : Shape := { role := .plain, upTo := leaves }
  let next : Code := .step (.anchor .subjectEnd) .stop
  let m := e.begun 0
  let t : Thread := { e.beginning 0 with code := .ones singles, closings := [⟨.plain, shape, .ones singles, next, 0, 1⟩] }
  have hopen : e.walk m (e.beginning 0) 0 e.program.code = .forward m t := by
    rw [hc]
    exact e.enter_plain m (e.beginning 0) shape next rfl rfl rfl h.hasLeave
      (Code.hasAlternatives_ones singles)
  have hclose (place : Nat) : e.close m { t with place } =
      .forward m { e.beginning 0 with place, code := next } := rfl
  have hend (place : Nat) : e.walk m { e.beginning 0 with place, code := next } place next =
      if e.subject.size ≤ place then .finished m .matched else .backward m .failed := by
    simp only [next, walk, Subject.holdsAt, decide_eq_true_eq]
    split
    · exact h.conclude_eq m _
    · rfl
  rw [h.attempt_eq, hn]
  change e.run (n + 3 + 1 + 1) (e.walk m (e.beginning 0) 0 e.program.code) = _
  rw [hopen]
  change e.run (n + 3 + 1) (e.walk m t 0 (.ones singles)) = _
  rw [Engine.walk_ones]
  cases hp : e.subject.takeEach? singles 0 with
  | none => rfl
  | some place =>
      dsimp only
      rw [hclose]
      change e.run (n + 3) (e.walk m { e.beginning 0 with place, code := next } place next) = _
      rw [hend, Option.any_some]
      by_cases hle : e.subject.size ≤ place
      · rw [if_pos hle, if_pos (decide_eq_true hle)]
        rfl
      · rw [if_neg hle, if_neg (by simpa using hle)]
        rfl

end

/-! ## Expressions -/

/-- Single items, one behind the other. -/
def ones (singles : List Single) : Regex := singles.foldr (fun s r => .item (.single s) {} r) .stop

variable {singles : List Single}

theorem isSimple_ones (singles : List Single) : IsSimple (ones singles) := by
  induction singles with
  | nil => exact .stop
  | cons s singles ih => exact .single s {} ih

theorem Code.isSimple_ones (singles : List Single) : (Code.ones singles).IsSimple := by
  induction singles with
  | nil => exact .stop
  | cons s singles ih => exact .one s ih

theorem Code.weight_ones (singles : List Single) : (Code.ones singles).weight = singles.length := by
  induction singles with
  | nil => rfl
  | cons s singles ih => exact congrArg (· + 1) ih

/-- The extent of single items, one behind the other. -/
def onesExtent (singles : List Single) : Nat := (singles.map (·.extent {})).sum

theorem survey_ones {v : Surveyor} {place : Standing} {widths : List Nat} {total n : Nat} :
    v.survey place widths total (ones singles) = .ok n ↔ total + onesExtent singles ≤ maxExtent ∧ n = total + onesExtent singles := by
  induction singles generalizing total with
  | nil =>
      simp only [ones, List.foldr_nil, Surveyor.survey, Except.bind_eq_ok, check_eq_ok, onesExtent, List.map_nil,
        List.sum_nil, Nat.add_zero]
      constructor
      · rintro ⟨_, hle, h⟩
        cases h
        exact ⟨hle, rfl⟩
      · rintro ⟨hle, rfl⟩
        exact ⟨(), hle, rfl⟩
  | cons s singles ih =>
      have hcons : ones (s :: singles) = .item (.single s) {} (ones singles) := rfl
      have hextent : onesExtent (s :: singles) = s.extent {} + onesExtent singles := by
        simp only [onesExtent, List.map_cons, List.sum_cons]
      rw [hcons, survey_item, hextent]
      constructor
      · rintro ⟨-, _, h, hn⟩
        cases h
        obtain ⟨hle, rfl⟩ := ih.mp hn
        exact ⟨by omega, by omega⟩
      · rintro ⟨hle, rfl⟩
        exact ⟨by omega, _, rfl, ih.mpr ⟨by omega, by omega⟩⟩

theorem survey_stop {v : Surveyor} {place : Standing} {widths : List Nat} {total n : Nat} :
    v.survey place widths total .stop = .ok n ↔ total ≤ maxExtent ∧ n = total :=
  @survey_ones [] v place widths total n

theorem item_anchor_eq_ok {v : Surveyor} {place : Standing} {times : Times} {a : Anchor} {one : Nat} :
    v.item place times (.anchor a) = .ok one ↔ one = 1 := by
  constructor
  · intro h
    cases h
    rfl
  · rintro rfl
    rfl

/-- Nothing can be wrong with single items in a group that takes the whole subject but their extent. -/
theorem fits_framed_ones {result : Reading.Result} (h : result.regex = framed true (ones singles)) {size : Nat}
    {widths : List (Nat × List Nat)} :
    result.Fits size widths ↔ widths = [] ∧ 15 + onesExtent singles ≤ maxExtent := by
  have hsimple : IsSimple result.regex := h ▸ (isSimple_ones singles).framed true
  have hextent (v : Surveyor) : checkExtent v result.regex = .ok () ↔ 15 + onesExtent singles ≤ maxExtent := by
    have hmax : 6 ≤ maxExtent := by decide
    simp only [checkExtent, Except.bind_eq_ok, check_eq_ok, h, framed, if_true, survey_item, survey_plain_group,
      survey_ones, item_anchor_eq_ok, survey_stop, frameExtent]
    constructor
    · rintro ⟨_, ⟨-, _, rfl, -, _, ⟨-, rfl⟩, -, _, rfl, -, rfl⟩, hle⟩
      omega
    · intro hle
      refine ⟨_, ⟨hmax, 1, rfl, ?_, _, ⟨?_, rfl⟩, ?_, 1, rfl, ?_, rfl⟩, ?_⟩ <;> omega
  constructor
  · rintro ⟨hm, he, -⟩
    rw [hsimple.lookBehindWidths] at hm
    exact ⟨(Except.ok.inj hm).symm, (hextent _).mp he⟩
  · rintro ⟨rfl, hle⟩
    exact ⟨hsimple.lookBehindWidths _, (hextent _).mpr hle, hsimple.checkConditions 0⟩

theorem Assembler.pieces_ones (a : Assembler) (place : Position) (singles : List Single) (s : Assembled) :
    a.pieces place (Regex.ones singles) s = ((singles.map fun single => .step (.one single)).reverse, s) := by
  induction singles with
  | nil => rfl
  | cons single singles ih =>
      have hcons : a.pieces place (Regex.ones (single :: singles)) = (do
          let next ← a.pieces place (Regex.ones singles)
          return next ++ [.step (.one single)]) := rfl
      rw [hcons, Assembling.bind_apply, ih, List.map_cons, List.reverse_cons]
      rfl

theorem Code.ofPieces_ones (singles : List Single) :
    Code.ofPieces (singles.map fun single => .step (.one single)).reverse = .ones singles := by
  rw [Code.ofPieces, List.foldl_reverse, List.foldr_map]
  rfl

theorem Code.possessifiedFrom_ones (hasCalls : Bool) (fuel : Nat) (around : List Enclosure) (pieces : List Code.Piece) (left : Nat) :
    (Code.ones singles).possessifiedFrom hasCalls fuel around pieces left =
      (Code.ofPieces ((singles.map fun single => .step (.one single)).reverse ++ pieces), left) := by
  induction singles generalizing pieces with
  | nil => rfl
  | cons single singles ih =>
      have hcons : (Code.ones (single :: singles)).possessifiedFrom hasCalls fuel around pieces left =
          (Code.ones singles).possessifiedFrom hasCalls fuel around (.step (.one single) :: pieces) left := rfl
      rw [hcons, ih, List.map_cons, List.reverse_cons, List.append_assoc]
      rfl

theorem programOf_framed_ones (groups : Groups) (widths : List (Nat × List Nat)) (singles : List Single) :
    (programOf groups widths {} (framed true (ones singles))).code = .framed true 0 (.ones singles) := by
  have hassemble := Assembler.assemble_framed_eq { groups, widths } (isSimple_ones singles).branchCount true
  rw [Assembler.pieces_ones, Code.ofPieces_ones] at hassemble
  have hleft : Code.possessifiedFrom false (2 * (Code.framed true 0 (.ones singles)).size + 2)
      [⟨.plain, .once, .step (.anchor .subjectEnd) .stop⟩] [] maxComparisons (.ones singles) =
        (.ones singles, maxComparisons) := by
    rw [Code.possessifiedFrom_ones, List.append_nil, Code.ofPieces_ones]
  have hcalls : hasItem Item.isCall (framed true (ones singles)) = false :=
    ((isSimple_ones singles).framed true).hasItem (fun _ => rfl) fun _ => rfl
  simp only [programOf, hassemble, hcalls, if_true]
  exact Code.possessified_framed_true hleft

/-! ## Needs -/

theorem Gleaned.varies_single (g : Gleaned) (s : Single) : (g.single s).varies = g.varies := by
  have hboth : g.settleBoth.varies = g.varies := by
    unfold settleBoth
    split <;> rfl
  cases s with
  | oneOf _ negated =>
      cases negated
      · exact hboth
      · rfl
  | literal c ignoreCase =>
      rw [single, literal]
      split <;> rfl
  | _ => rfl

/-- The byte that comes first in a single item. -/
def Single.firstByte : Single → FirstByte
  | .literal c ignoreCase =>
      let bytes := (Text.encode c).map UInt8.toNat
      if bytes.length = 1 || !ignoreCase then .known { byte := bytes.headD 0, ignoreCase } else .unknown
  | _ => .unknown

theorem Gleaned.first_single (g : Gleaned) (s : Single) :
    (g.single s).needs.first = if g.needs.first = .undecided then s.firstByte else g.needs.first := by
  have hsettled : g.needs.first.settled = if g.needs.first = .undecided then .unknown else g.needs.first := by
    cases g.needs.first <;> rfl
  have hboth : g.settleBoth.needs.first = if g.needs.first = .undecided then .unknown else g.needs.first := by
    unfold settleBoth
    split <;> rfl
  cases s with
  | oneOf _ negated =>
      cases negated
      · exact hboth
      · exact hsettled
  | literal c ignoreCase =>
      rw [single, literal, Single.firstByte]
      split
      · dsimp only
        split <;> simp_all
      · rfl
  | _ => exact hsettled

theorem Gleaned.later_single {g : Gleaned} {s : Single} (hv : g.varies = false)
    (h : ∀ b, g.needs.later = some b → b.varies = false) (b : NeededByte) (hb : (g.single s).needs.later = some b) :
    b.varies = false := by
  have hboth : g.settleBoth.needs.later = g.needs.later := by
    unfold settleBoth
    split <;> rfl
  cases s with
  | oneOf _ negated =>
      cases negated
      · exact h b (hboth ▸ hb)
      · exact h b hb
  | literal c ignoreCase =>
      rw [single, literal] at hb
      grind
  | _ => exact h b hb

/-- The needs behind one more single item. -/
theorem Gleaned.repeated_single (isShared : List Nat → Bool) (g : Gleaned) (s : Single) :
    ((g.item isShared (.single s)).repeated (.single s) {}).needs = (g.single s).needs ∧
      ((g.item isShared (.single s)).repeated (.single s) {}).varies = g.varies := by
  refine ⟨?_, ?_⟩
  · cases s with
    | literal c =>
        have htimes : (decide (c < 128) && decide (1 < ({} : Times).least)) = false := by
          rw [Bool.and_eq_false_iff]
          exact .inr rfl
        simp only [repeated, htimes]
        rfl
    | _ => rfl
  · exact (Bool.or_false _).trans (g.varies_single s)

/-- Behind its first item, a chain knows of no other byte that comes first. -/
theorem gleanFrom_ones {isShared : List Nat → Bool} {g : Gleaned} (hf : g.needs.first ≠ .undecided)
    (hv : g.varies = false) (hl : ∀ b, g.needs.later = some b → b.varies = false) :
    let needs := (gleanFrom isShared none g (ones singles)).1
    needs.first = g.needs.first ∧ ∀ b, needs.later = some b → b.varies = false := by
  induction singles generalizing g with
  | nil => exact ⟨rfl, hl⟩
  | cons s singles ih =>
      obtain ⟨hneeds, hvaries⟩ := g.repeated_single isShared s
      have hfirst := g.first_single s
      rw [if_neg hf] at hfirst
      rw [← hfirst, ← hneeds]
      refine ih ?_ (hvaries.trans hv) ?_
      · rwa [hneeds, hfirst]
      · rw [hneeds]
        exact Gleaned.later_single hv hl

/-- The bytes of a character are one of ASCII, or several that are not. -/
theorem bytes_of_encode {c : Nat} (hc : c < 0x110000) :
    ((Text.encode c).map UInt8.toNat).length = 1 ∨
      ((Text.encode c).map UInt8.toNat).length ≠ 1 ∧ 128 ≤ ((Text.encode c).map UInt8.toNat).headD 0 ∧
        128 ≤ ((Text.encode c).map UInt8.toNat).getLastD 0 := by
  by_cases ha : c < 128
  · left
    rw [show Text.encode c = [UInt8.ofNat c] from if_pos ha]
    rfl
  · have hlength : 1 < ((Text.encode c).map UInt8.toNat).length := by
      rw [List.length_map, Text.length_encode, Text.encodedSize]
      grind
    have hbytes : ∀ b ∈ (Text.encode c).map UInt8.toNat, 128 ≤ b := by
      intro b hb
      obtain ⟨d, hd, rfl⟩ := List.mem_map.mp hb
      exact Text.le_toNat_of_mem_encode (by omega) hc hd
    generalize (Text.encode c).map UInt8.toNat = bytes at hlength hbytes
    have hne : bytes ≠ [] := List.ne_nil_of_length_pos (by omega)
    refine .inr ⟨by omega, ?_, ?_⟩
    · rw [List.headD_eq_head?_getD, List.head?_eq_some_head hne]
      exact hbytes _ (List.head_mem hne)
    · rw [List.getLastD_eq_getLast?, List.getLast?_eq_some_getLast hne]
      exact hbytes _ (List.getLast_mem hne)

/-- The bytes that a single item needs stand for one character. -/
theorem Gleaned.length_single {s : Single} (hs : ∀ c ignoreCase, s = .literal c ignoreCase → c < 0x110000) :
    (({} : Gleaned).single s).needs.length ≤ 1 := by
  cases s with
  | oneOf _ negated => cases negated <;> exact Nat.zero_le 1
  | literal c ignoreCase =>
      have hbytes := bytes_of_encode (hs c ignoreCase rfl)
      unfold Needs.length single literal
      dsimp only
      generalize (Text.encode c).map UInt8.toNat = bytes at hbytes ⊢
      rcases hbytes with h | ⟨h, hhead, hlast⟩
      · simp [h, neededLength]
      · cases ignoreCase <;> simp [h, neededLength, Nat.not_lt.mpr hhead, Nat.not_lt.mpr hlast, -List.headD_eq_head?_getD, -List.getLastD_eq_getLast?]
  | _ => exact Nat.zero_le 1

/-- What a chain needs, its first item needs first. -/
theorem needsOf_ones (groups : Groups) (hs : ∀ c ignoreCase, .literal c ignoreCase ∈ singles → c < 0x110000) :
    let needs := needsOf groups (framed true (ones singles))
    needs.first = singles.head?.elim .undecided Single.firstByte ∧ (∀ b, needs.later = some b → b.varies = false) ∧
      needs.length ≤ singles.length := by
  rw [needsOf_framed (isSimple_ones singles)]
  cases singles with
  | nil => exact ⟨rfl, (fun _ h => by cases h), Nat.le_refl 0⟩
  | cons s singles =>
      obtain ⟨hneeds, hvaries⟩ := Gleaned.repeated_single groups.isShared {} s
      have hfirst := Gleaned.first_single {} s
      rw [if_pos rfl] at hfirst
      have hlater := Gleaned.later_single (g := {}) (s := s) rfl fun _ h => by cases h
      have hdecided : s.firstByte ≠ .undecided := by
        unfold Single.firstByte
        grind
      rw [← hneeds] at hfirst hlater
      obtain ⟨hf, hl⟩ := @gleanFrom_ones singles groups.isShared _ (hfirst ▸ hdecided) hvaries hlater
      refine ⟨hf.trans hfirst, hl, ?_⟩
      cases singles with
      | nil =>
          change Needs.length (Gleaned.repeated _ _ _).needs ≤ 1
          rw [hneeds]
          exact Gleaned.length_single fun c ignoreCase h => hs c ignoreCase (h ▸ List.mem_cons_self)
      | cons s' singles =>
          have htwo (needs : Needs) : needs.length ≤ 2 := by
            unfold Needs.length neededLength
            grind
          exact (htwo _).trans (by simp)

/-! ## Searches -/

/-- The subject may begin a match, as far as its first byte tells. -/
def FirstByte.admits (first : FirstByte) (s : Subject) : Bool :=
  match first with
  | .known b => 0 < s.size && b.accepts (s.byteAt 0)
  | .undecided | .unknown => true

theorem Search.startFrom?_of_admits {x : Search} {needs : Needs} (ha : x.plan.anchored) (hs : x.plan.start = needs.start)
    (h : needs.first.admits x.engine.subject) : x.startFrom? 0 = some 0 := by
  unfold startFrom?
  rw [hs, ha, Needs.start]
  cases hf : needs.first with
  | known b =>
      rw [hf] at h
      exact if_pos h
  | undecided | unknown => rfl

/-- The engine of a search without settings and numbered groups, if nothing gives up an alternative. -/
theorem Reading.Result.ordinary_engine (result : Reading.Result) (source subject : Text) (hsettings : result.settings = {})
    (hcount : result.groupCount = 0) (hleave : hasItem Item.leaves result.regex = false)
    (ha : (result.compiled source []).program.code.hasAlternatives = false) :
    ({ ((result.compiled source []).searchIn subject).engine with ignoredSkips := 0 } : Engine).Ordinary := by
  refine ⟨hsettings, hcount, ?_, hleave, ha⟩
  change 2 < (result.settings.limits.memory * 1024 + frameSize result.groupCount - 1) / frameSize result.groupCount
  rw [hsettings, hcount]
  decide

/-- A group that takes the whole subject is found if its items take the subject one after the other. Neither the
first byte nor the length of the subject may speak against a match. -/
theorem search_framed_ones {result : Reading.Result} (h : result.regex = framed true (ones singles))
    (hsettings : result.settings = {}) (hcount : result.groupCount = 0)
    (hs : ∀ c ignoreCase, .literal c ignoreCase ∈ singles → c < 0x110000) (source subject : Text) {b : Bool}
    (hb : (((Subject.ofText subject {}).takeEach? singles 0).any (subject.length ≤ ·)) = b)
    (hm : b → (singles.head?.elim .undecided Single.firstByte).admits (Subject.ofText subject {}) ∧
      singles.length ≤ subject.length) :
    (result.compiled source []).search subject = .ok b := by
  let c := result.compiled source []
  have hcode : c.program.code = .framed true 0 (.ones singles) := by
    change (programOf (Groups.ofResult result) [] result.settings result.regex).code = _
    rw [h, hsettings, programOf_framed_ones]
  obtain ⟨hfirst, hlater, hlength⟩ := needsOf_ones (Groups.ofResult result) hs
  have hplan : c.plan =
      { anchored := true
        start := (needsOf (Groups.ofResult result) result.regex).start
        least := max (c.program.leastOf (Groups.ofResult result) result.regex
            (referencesOnto (Groups.ofResult result) {} result.regex))
          (needsOf (Groups.ofResult result) result.regex).length } := by
    change c.program.plan (Groups.ofResult result) result.settings result.regex = _
    rw [hsettings]
    exact Program.plan_framed hcode _ _ (h ▸ hlater)
  have hleast : c.plan.least ≤ singles.length := by
    rw [hplan]
    refine max_le ?_ (h ▸ hlength)
    rw [Program.leastOf]
    split
    · exact Nat.zero_le _
    · refine (Program.leastLength_le _ _ (hcode ▸ .anchor _ (.group _ (.inl rfl) (Code.isSimple_ones _) (.anchor _ .stop)))).trans ?_
      rw [hcode]
      exact (Code.weight_ones singles).le
  have hleave : hasItem Item.leaves result.regex = false := by
    rw [h]
    exact ((isSimple_ones singles).framed true).hasItem (fun _ => rfl) fun _ => rfl
  have hordinary := result.ordinary_engine source subject hsettings hcount hleave (by rw [hcode]; rfl)
  have hsubject : (c.searchIn subject).engine.subject = Subject.ofText subject {} := by
    change Subject.ofText subject result.settings = _
    rw [hsettings]
  have hattempt : ({ (c.searchIn subject).engine with ignoredSkips := 0 } : Engine).attempt 0 =
      (if b then .matched else .refused .failed, 0) := by
    rw [hordinary.attempt_framed_ones hcode, ← hb]
    change (if ((c.searchIn subject).engine.subject.takeEach? singles 0).any
      ((c.searchIn subject).engine.subject.size ≤ ·) then _ else _) = _
    rw [hsubject, Subject.size_ofText]
    split <;> rfl
  have hstart : b → (c.searchIn subject).startFrom? 0 = some 0 ∧ (c.searchIn subject).allows 0 := by
    intro hb
    obtain ⟨hadmits, hle⟩ := hm hb
    have hsize : (c.searchIn subject).engine.subject.size = subject.length := by rw [hsubject, Subject.size_ofText]
    refine ⟨?_, ?_⟩
    · rw [← hfirst, ← h, ← hsubject] at hadmits
      exact Search.startFrom?_of_admits (congrArg Plan.anchored hplan) (congrArg Plan.start hplan) hadmits
    · have hlater : (c.searchIn subject).plan.later = none := congrArg Plan.later hplan
      have hneeded : c.plan.least ≤ subject.length := hleast.trans hle
      simp only [Search.allows, hlater, hsize, Nat.sub_zero, Bool.or_true, Bool.and_true, decide_eq_true_eq]
      exact hneeded
  obtain ⟨n, hn⟩ : ∃ n, (c.searchIn subject).fuel = n + 1 :=
    ⟨(c.searchIn subject).fuel - 1, (Nat.sub_add_cancel (Nat.mul_pos (Nat.succ_pos _) (Nat.succ_pos _))).symm⟩
  have hanchored : (c.searchIn subject).plan.anchored := congrArg Plan.anchored hplan
  change ((c.searchIn subject).run (c.searchIn subject).fuel 0 0).mapError _ = _
  rw [hn, Search.run_anchored hanchored hattempt hstart]
  rfl

end PatternGrammar.Regex
