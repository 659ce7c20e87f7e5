import PatternGrammar.Proofs.Appending
import PatternGrammar.Proofs.Possessing
import PatternGrammar.Proofs.SplicedRuns
import PatternGrammar.Proofs.Unwrapping

/-!
# Appending as a unit

A pattern behind another is matched as if each of them had a group of its own, if neither of them has an
alternative outside of groups. Otherwise the alternatives of one of them take in the other. What is compared are
attempts at one place. A search makes some of them only, and may leave out others when the groups are there.
-/

namespace PatternGrammar.Regex

/-! ## Sequences -/

/-- Outside of groups there is no alternative; nowhere is a group called or an alternative given up. -/
def isSequence (r : Regex) : Bool :=
  r.branchCount = 1 && !hasItem Item.isCall r && !hasItem Item.leaves r

/-- Of two groups both are sequences, and the first repeats nothing reluctantly outside of groups. -/
def joins : Regex → Bool
  | .group _ a _ (.group _ b _ .stop) => a.isSequence && b.isSequence && a.isEager
  | _ => false

theorem isEager_placed (f : Nat → Nat) (r : Regex) : (r.placed f).isEager = r.isEager := by
  induction r with
  | stop => rfl
  | bar next ih => exact ih
  | item i times next ih => rw [placed, isEager, isEager, ih]
  | group kind body times next _ ih => exact ih

theorem leaves_placed (f : Nat → Nat) (r : Regex) :
    hasItem Item.leaves (r.placed f) = hasItem Item.leaves r :=
  hasItem_placed fun i => by cases i <;> rfl

theorem isSequence_placed (f : Nat → Nat) (r : Regex) : (r.placed f).isSequence = r.isSequence := by
  have hcalls : hasItem Item.isCall (r.placed f) = hasItem Item.isCall r :=
    hasItem_placed fun i => by cases i <;> rfl
  rw [isSequence, isSequence, branchCount_placed, hcalls, leaves_placed]

theorem joins_pair (a b : Regex) : (pair a b).joins = (a.isSequence && b.isSequence && a.isEager) := rfl

theorem joins_placed (f : Nat → Nat) (r : Regex) : (r.placed f).joins = r.joins := by
  cases r with
  | group kind a times next =>
      cases next with
      | group kind' b times' next =>
          cases next with
          | stop =>
              rw [placed, placed, placed, joins, joins, isSequence_placed, isSequence_placed, isEager_placed]
          | _ => rfl
      | _ => rfl
  | _ => rfl

theorem framed_injective {anchored : Bool} {r s : Regex} (h : framed anchored r = framed anchored s) :
    r = s := by
  cases anchored with
  | false => exact h
  | true =>
      simp only [framed, if_true, item.injEq, group.injEq] at h
      exact h.2.2.2.1

/-! ## Reading without the group around the whole -/

/-- What is read in a group that takes the whole subject is also read without it. -/
theorem readItems_enclosed {cs : List Nat} {n n' fuel fuel' : Nat} {f : Nat → Nat} {t : ReadState}
    (hc : ReadAlike cs) (ha : Aligned f n n' cs [Sign.closeParen, Sign.backslash, 122] [])
    (hle : cs.length + 4 ≤ fuel) (hle' : cs.length ≤ fuel')
    (hi : readItems fuel { size := n, rest := framedSigns true cs } = .ok ((), t)) :
    ∃ r t', ofPieces t.pieces = framed true r ∧
      readItems fuel' { size := n', rest := cs } = .ok ((), t') ∧ t'.enclosing = [] ∧
      (ofPieces t'.pieces).placed f = r.placed id := by
  obtain ⟨k, rfl⟩ : ∃ k, fuel = cs.length + (k + 1 + 1) + 1 + 1 := ⟨fuel - cs.length - 4, by omega⟩
  obtain ⟨k', rfl⟩ : ∃ k', fuel' = cs.length + k' := ⟨fuel' - cs.length, by omega⟩
  have hs : ReadState.Steady { size := n, rest := framedSigns true cs } := ⟨rfl, rfl, rfl, rfl, rfl, rfl⟩
  have hp : Paired (atGroup n cs) { size := n', rest := cs } :=
    ⟨⟨rfl, rfl, rfl, rfl, rfl, rfl⟩, rfl, rfl, rfl, Nat.le_refl _⟩
  rw [readItems_cons rfl (readNext_anchor hs (Nat.zero_le _) (.inl ⟨rfl, rfl⟩))] at hi
  obtain ⟨u, u', x, x', spare, hu, hau, hau', hx, hx', hmap, h, he⟩ :=
    hp.unwrap hc ha rfl (List.append_nil cs).symm hi
  have hanchor : readNext Sign.backslash [122] u =
      .ok ((), u.pushed [] (.item (.anchor .subjectEnd) {}) .other false) :=
    readNext_anchor hu.steady (hau.depth.le.trans (Nat.zero_le _)) (.inr ⟨rfl, rfl⟩)
  have hk : k + 1 + spare = k + spare + 1 := by omega
  rw [hk, readItems_cons hau.rest hanchor, (readItems_of_rest_eq_nil _ rfl).1] at h
  obtain rfl := (Prod.mk.inj (Except.ok.inj h)).2
  refine ⟨ofPieces x, u', ?_, (he k').trans (readItems_of_rest_eq_nil _ hau'.rest).1, hau'.enclosing, ?_⟩
  · rw [ReadState.pushed, hx]
    rfl
  · rw [hx', List.append_nil, ← ofPieces_map_placed, ← ofPieces_map_placed, hmap]

/-! ## Compiled expressions -/

/-- What a text is compiled to when it has been read and its lookbehinds have these widths. -/
def Reading.Result.compiled (source : Text) (result : Reading.Result) (widths : List (Nat × List Nat)) :
    Compiled :=
  let groups := Groups.ofResult result
  let program := programOf groups widths result.settings result.regex
  { source
    program
    plan := program.plan groups result.settings result.regex
    settings := result.settings
    hasLeave := hasItem Item.leaves result.regex
    namesBreak := result.namesBreak }

theorem compile_eq_ok {t : Text} {c : Compiled} :
    compile t = .ok c ↔
      ∃ result widths, readWhole t = .ok result ∧ result.Fits t.length widths ∧
        c = result.compiled t widths := by
  have hchecked (r : Reading.Result × Groups × List (Nat × List Nat)) : checked t = .ok r ↔
      readWhole t = .ok r.1 ∧ r.1.Fits t.length r.2.2 ∧ r.2.1 = Groups.ofResult r.1 := by
    obtain ⟨result, groups, widths⟩ := r
    simp only [checked, Except.bind_eq_ok]
    constructor
    · rintro ⟨_, hr, _, hw, _, hx, _, hc, he⟩
      cases he
      exact ⟨hr, ⟨hw, hx, hc⟩, rfl⟩
    · rintro ⟨hr, ⟨hw, hx, hc⟩, rfl⟩
      exact ⟨_, hr, _, hw, _, hx, _, hc, rfl⟩
  constructor
  · intro h
    cases hk : checked t with
    | error e => simp [compile, hk] at h
    | ok r =>
        obtain ⟨hr, hfits, hgroups⟩ := (hchecked r).mp hk
        refine ⟨r.1, r.2.2, hr, hfits, ?_⟩
        simp only [compile, hk] at h
        rw [← Except.ok.inj h, hgroups]
        rfl
  · rintro ⟨result, widths, hr, hfits, rfl⟩
    have hk := (hchecked (result, Groups.ofResult result, widths)).mpr ⟨hr, hfits, rfl⟩
    simp only [compile, hk]
    rfl

/-- How an attempt at this place of a subject ends, when so many skips to a mark are passed over. -/
def Compiled.attemptAt (c : Compiled) (subject : Text) (ignored place : Nat) : Attempt × Nat :=
  { (c.searchIn subject).engine with ignoredSkips := ignored }.attempt place

/-- In every subject attempts at the same place end in the same way, unless one of them meets the limit of
entries. -/
structure Compiled.Alike (c c' : Compiled) : Prop where
  captureCount : c'.captureCount = c.captureCount
  settings : c'.settings = c.settings
  namesBreak : c'.namesBreak = c.namesBreak
  attempts : ∀ subject ignored place,
    (c.attemptAt subject ignored place).1 = .stopped .entryLimit ∨
      (c'.attemptAt subject ignored place).1 = .stopped .entryLimit ∨
        c'.attemptAt subject ignored place = c.attemptAt subject ignored place

/-- Expressions are alike if one is the other with some bare groups opened up. -/
theorem Compiled.Alike.of_spliced {c c' : Compiled} (hc : Spliced c.program.code c'.program.code)
    (ha : c.program.code.hasAlternatives = false) (hl : c'.program.leaves = c.program.leaves)
    (hg : c'.program.groupCount = c.program.groupCount) (hs : c'.settings = c.settings)
    (hb : c'.namesBreak = c.namesBreak) (hleave : c.hasLeave = false) (hleave' : c'.hasLeave = false) :
    c.Alike c' where
  captureCount := hg
  settings := hs
  namesBreak := hb
  attempts subject ignored place := by
    have he : Engines { (c.searchIn subject).engine with ignoredSkips := ignored }
        { (c'.searchIn subject).engine with ignoredSkips := ignored } := by
      refine ⟨?_, hs, rfl, ?_, hleave, hleave'⟩
      · simp only [searchIn, hs]
      · simp only [searchIn, hs, hg]
    exact he.attempt_eq hc ha hl hg place

/-- What is compiled without the groups is alike if the parts are a sequence. -/
theorem Reading.Result.Fits.compiled_opened {result result' : Reading.Result} {widths : List (Nat × List Nat)}
    {size : Nat} {f : Nat → Nat} {anchored : Bool} {a b : Regex} (hfits : result.Fits size widths)
    (hs : (pair a b).joins) (hab : result.regex = framed anchored (pair a b)) (hf : Function.Injective f)
    (h : Alike id f { result with regex := framed anchored (a.append b) } result')
    (hsettings : result'.settings = result.settings) (hbreak : result'.namesBreak = result.namesBreak)
    (source source' : Text) (size' : Nat) :
    ∃ widths', result'.Fits size' widths' ∧
      (result.compiled source widths).Alike (result'.compiled source' widths') := by
  simp only [joins_pair, isSequence, Bool.and_eq_true, decide_eq_true_eq, Bool.not_eq_true'] at hs
  obtain ⟨⟨⟨⟨ha, hac⟩, hal⟩, ⟨hb, hbc⟩, hbl⟩, hae⟩ := hs
  have hleaves : hasItem Item.leaves (a.append b) = false := by
    rw [hasItem_append, hal, hbl]
    rfl
  have hresult : { result with regex := framed anchored (pair a b) } = result := by
    rw [← hab]
  have hstands := (standsFor_append (b := b) ha).framed anchored
  have hgroups : Groups.ofResult { result with regex := framed anchored (a.append b) } =
      Groups.ofResult result := by
    rw [hstands.groups_eq, hresult]
  rw [← hresult] at hfits
  obtain ⟨widths', hfits', hprogram⟩ := h.fits Function.injective_id hf (hstands.fits hfits)
  refine ⟨widths', hfits', ?_⟩
  have hpair : (result.compiled source widths).program =
      programOf (Groups.ofResult result) widths result.settings (framed anchored (pair a b)) := by
    rw [← hab]
    rfl
  have happend : (result'.compiled source' widths').program =
      programOf (Groups.ofResult result) widths result.settings (framed anchored (a.append b)) := by
    rw [← hgroups, ← hsettings]
    exact hprogram _
  obtain ⟨hcode, halternatives, hcount⟩ := programOf_framed ha hb hac hbc hae anchored
    (Groups.ofResult result) widths result.settings
  rw [← hpair, ← happend] at hcode hcount
  rw [← hpair] at halternatives
  refine .of_spliced hcode halternatives hcount ?_ hsettings hbreak ?_ ?_
  · rw [hpair, happend]
    rfl
  · have hsame : hasItem Item.leaves (framed anchored (pair a b)) = hasItem Item.leaves (a.append b) := by
      rw [hasItem_framed fun _ => rfl, hasItem_append]
      simp only [pair, hasItem, Bool.or_false]
    rw [Reading.Result.compiled, hab]
    exact hsame.trans hleaves
  · have hsame := congrArg (hasItem Item.leaves) h.regex
    rw [leaves_placed, leaves_placed, hasItem_framed fun _ => rfl] at hsame
    exact hsame.symm.trans hleaves

section
variable {x x' : Search}

/-- Searches with one plan come to the same end if their attempts do, by induction on the number of
attempts. -/
theorem Search.run_alike (hsubject : x'.engine.subject = x.engine.subject) (hplan : x'.plan = x.plan)
    (hbreak : x'.namesBreak = x.namesBreak) (hlast : x'.lastNeeded = x.lastNeeded)
    (ha : ∀ ignored place,
      ({ x.engine with ignoredSkips := ignored }.attempt place).1 = .stopped .entryLimit ∨
        ({ x'.engine with ignoredSkips := ignored }.attempt place).1 = .stopped .entryLimit ∨
          { x'.engine with ignoredSkips := ignored }.attempt place =
            { x.engine with ignoredSkips := ignored }.attempt place)
    (fuel i ignored : Nat) :
    x.run fuel i ignored = .error .entryLimit ∨ x'.run fuel i ignored = .error .entryLimit ∨
      x'.run fuel i ignored = x.run fuel i ignored := by
  have hstopped {a : Attempt × Nat} (h : a.1 = .stopped .entryLimit) : a = (.stopped .entryLimit, a.2) :=
    Prod.ext h rfl
  induction fuel generalizing i ignored with
  | zero => exact .inl rfl
  | succ fuel ih =>
      have hstart : x'.startFrom? i = x.startFrom? i := by
        simp only [startFrom?, hsubject, hplan]
      have hallows (i : Nat) : x'.allows i = x.allows i := by
        simp only [allows, hsubject, hplan, hlast]
      have honward (i skips : Nat) (v : Verdict) :
          x'.onward? i ignored skips v = x.onward? i ignored skips v := by
        simp only [onward?, settle, hsubject, hplan, hbreak]
      simp only [run, hstart, hallows, honward]
      split
      · exact .inr (.inr rfl)
      · next place _ =>
        split
        · exact .inr (.inr rfl)
        · rcases ha ignored place with h | h | h
          · exact .inl (by rw [hstopped h])
          · exact .inr (.inl (by rw [hstopped h]))
          · rw [h]
            generalize Engine.attempt _ place = outcome
            obtain ⟨a, skips⟩ := outcome
            cases a with
            | matched | stopped => exact .inr (.inr rfl)
            | refused v =>
                cases v with
                | accepted => exact .inr (.inr rfl)
                | _ =>
                    dsimp only
                    split
                    · exact .inr (.inr rfl)
                    · exact ih _ _

end

/-- Either both are found in the subject or none of them, unless one of them meets the limit of entries. -/
def Compiled.FoundAlike (c c' : Compiled) (subject : Text) : Prop :=
  c.search subject = .error (.search c.source subject .entryLimit) ∨
    c'.search subject = .error (.search c'.source subject .entryLimit) ∨
      ∀ found, c'.search subject = .ok found ↔ c.search subject = .ok found

/-- Expressions that are alike are found in the same subjects if their searches ask for the same before an
attempt. -/
theorem Compiled.Alike.search {c c' : Compiled} (h : c.Alike c') (hplan : c'.plan = c.plan) (subject : Text) :
    c.FoundAlike c' subject := by
  have hsubject : Subject.ofText subject c'.settings = Subject.ofText subject c.settings := by
    rw [h.settings]
  have hlast : (c'.searchIn subject).lastNeeded = (c.searchIn subject).lastNeeded := by
    simp only [searchIn, hsubject, hplan]
  have hfuel : (c'.searchIn subject).fuel = (c.searchIn subject).fuel := by
    simp only [Search.fuel, searchIn, h.settings]
  have hfound {x : Except SearchFault Bool} {source : Text} (found : Bool) :
      x.mapError (EngineFault.search source subject) = .ok found ↔ x = .ok found := by
    cases x <;> simp [Except.mapError]
  unfold FoundAlike Compiled.search
  dsimp only
  rw [hfuel]
  rcases Search.run_alike hsubject hplan h.namesBreak hlast (h.attempts subject) (c.searchIn subject).fuel 0 0
    with hr | hr | hr
  · exact .inl (by rw [hr]; rfl)
  · exact .inr (.inl (by rw [hr]; rfl))
  · exact .inr (.inr fun found => by rw [hfound, hfound, hr])

end PatternGrammar.Regex

namespace PatternGrammar

/-! ## Texts one behind the other -/

section
variable {t u : Text}

/-- What a text says in a group that takes the whole subject it also says by itself. -/
theorem readWhole_enclosed (ht : Spelled Regex.ReadAlike t)
    (hf : Regex.frontSettingAt? (Text.codePoints t) = none) (anchored : Bool) {result : Regex.Reading.Result}
    (h : Regex.readWhole (framedText anchored t) = .ok result) :
    ∃ f r whole, result.regex = .framed anchored r ∧ Regex.readWhole t = .ok whole ∧
      whole.regex.placed f = r.placed id := by
  cases anchored with
  | false => exact ⟨id, result.regex, result, rfl, h, rfl⟩
  | true =>
      obtain ⟨cs, hcs, hc⟩ := ht
      have hframed := hcs.framed true
      have hnone : Regex.frontSettingAt? (Text.codePoints (framedText true t)) = none := by
        rw [hframed.codePoints_eq]
        rfl
      obtain ⟨s, hi, -, rfl⟩ := (readWhole_eq_ok hnone).mp h
      rw [hframed.codePoints_eq, hframed.length_eq, Regex.encodedLength_framedSigns] at hi
      have hle := length_le_encodedLength cs
      have hclosing : Text.encodedLength (Regex.closingSigns true) = 3 := by decide
      have haligned : Regex.Aligned (· + 5)
          ((if true then 5 else 0) + Text.encodedLength cs + Text.encodedLength (Regex.closingSigns true))
          (Text.encodedLength cs) cs [Regex.Sign.closeParen, Regex.Sign.backslash, 122] [] := by
        intro v hv hs
        obtain ⟨-, hle⟩ := Regex.encodedLength_suffix hv hs
        have hthree : Text.encodedLength [Regex.Sign.closeParen, Regex.Sign.backslash, 122] = 3 := by decide
        have hnil : Text.encodedLength [] = 0 := rfl
        simp only [Regex.encodedLength_append, hthree, hclosing, hnil, if_true]
        omega
      have hfuel : cs.length + 4 ≤
          (if true then 5 else 0) + Text.encodedLength cs + Text.encodedLength (Regex.closingSigns true) + 1 := by
        rw [hclosing, if_pos rfl]
        omega
      have hfuel' : cs.length ≤ Text.encodedLength cs + 1 := by omega
      obtain ⟨r, s', hr, hi', he', hplaced⟩ := Regex.readItems_enclosed hc haligned hfuel hfuel' hi
      refine ⟨_, r, s'.result, hr, (readWhole_eq_ok hf).mpr ⟨s', ?_, he', rfl⟩, hplaced⟩
      rw [hcs.codePoints_eq, hcs.length_eq]
      exact hi'

/-- Two texts in groups of their own and without them, if what is read in the groups can be joined. -/
theorem compile_opened (ht : Spelled Regex.ReadAlike t) (hu : Spelled Regex.ReadAlike u)
    (hf : Regex.frontSettingAt? (Text.codePoints (t ++ u)) = none)
    (hs : ∀ whole, Regex.readWhole (groupText t ++ groupText u) = .ok whole → whole.regex.joins)
    (anchored : Bool) {c : Regex.Compiled}
    (hc : Regex.compile (framedText anchored (groupText t ++ groupText u)) = .ok c) :
    ∃ c', Regex.compile (framedText anchored (t ++ u)) = .ok c' ∧ c.Alike c' := by
  obtain ⟨result, widths, hread, hfits, rfl⟩ := Regex.compile_eq_ok.mp hc
  have hfront : Regex.frontSettingAt? (Text.codePoints (framedText anchored (t ++ u))) = none := by
    cases anchored with
    | false => exact hf
    | true =>
        obtain ⟨cs, hcs, -⟩ := ht.append Regex.ReadAlike.isPassable hu
        rw [(hcs.framed true).codePoints_eq]
        rfl
  obtain ⟨f, a, b, result', hinj, hab, hread', halike, hsettings, hbreak⟩ :=
    readWhole_unwrapped ht hu anchored hfront hread
  have hjoins : (Regex.pair a b).joins := by
    have hgroup : ("(?:" : Text) ∈ plainOpenings := by decide
    have hboth : Spelled Regex.ReadAlike (groupText t ++ groupText u) :=
      (ht.group Regex.ReadAlike.isPassable hgroup).append Regex.ReadAlike.isPassable
        (hu.group Regex.ReadAlike.isPassable hgroup)
    have hnone : Regex.frontSettingAt? (Text.codePoints (groupText t ++ groupText u)) = none := by
      obtain ⟨cs, hcs, -⟩ := ht
      obtain ⟨ds, hds, -⟩ := hu
      rw [(hcs.groups hds).codePoints_eq]
      rfl
    obtain ⟨g, r, whole, hr, hwhole, hplaced⟩ := readWhole_enclosed hboth hnone anchored hread
    rw [← Regex.framed_injective (hr.symm.trans hab), ← Regex.joins_placed id, ← hplaced, Regex.joins_placed]
    exact hs whole hwhole
  obtain ⟨widths', hfits', hcompiled⟩ := hfits.compiled_opened hjoins hab hinj halike hsettings hbreak
    (framedText anchored (groupText t ++ groupText u)) (framedText anchored (t ++ u))
    (framedText anchored (t ++ u)).length
  exact ⟨_, Regex.compile_eq_ok.mpr ⟨result', widths', hread', hfits', rfl⟩, hcompiled⟩

end

/-! ## Patterns -/

/-- The node does not capture, its texts are well-formed, and the engine reads its raw fragment alike wherever
it stands. -/
structure Node.IsReadAlike (n : Node) : Prop where
  uncaptured : n.captures = false
  words : ∀ w ∈ n.options.wordCannotBeAnyOf.getD [], ∃ cs, Spells w cs
  literal : ∀ text, n.matcher = .literal text → ∃ cs, Spells text cs
  fragment : ∀ source, n.matcher = .fragment source →
    Ascii.numberSign ∉ source ∧ beginsItem source ∧ Spelled Regex.ReadAlike source

/-- If no node has captured, the pieces are bytes that are read alike. -/
def KeepsAlike (nodes : List (NodeId × Pattern)) (pieces : List RegexPiece) : Prop :=
  nodes = [] → ∃ t, pieces = keep t ∧ beginsItem t ∧ Spelled Regex.ReadAlike t

theorem KeepsAlike.keep {t : Text} (hb : beginsItem t) (ht : Spelled Regex.ReadAlike t) :
    KeepsAlike [] (keep t) :=
  fun _ => ⟨t, rfl, hb, ht⟩

theorem KeepsAlike.append {xs ys : List (NodeId × Pattern)} {a b : List RegexPiece} (ha : KeepsAlike xs a)
    (hb : KeepsAlike ys b) : KeepsAlike (xs ++ ys) (a ++ b) := by
  intro hn
  obtain ⟨hxs, hys⟩ := List.append_eq_nil_iff.mp hn
  obtain ⟨t, rfl, hbt, ht⟩ := ha hxs
  obtain ⟨u, rfl, hbu, hu⟩ := hb hys
  exact ⟨t ++ u, (keep_append t u).symm, beginsItem_append hbt fun _ => hbu,
    ht.append Regex.ReadAlike.isPassable hu⟩

theorem KeepsAlike.composes : Composes Node.IsReadAlike (fun _ => 0) fun nodes _ pieces =>
    KeepsAlike nodes pieces where
  append := KeepsAlike.append
  group := by
    intro opening xs _ a ho ha hn
    obtain ⟨t, rfl, -, ht⟩ := ha hn
    have hb : ∀ opening ∈ plainOpenings, beginsItem opening ∧ opening ≠ [] := by decide
    refine ⟨opening ++ t ++ ")", ?_, ?_, ht.group Regex.ReadAlike.isPassable ho⟩
    · rw [groupPieces, keep_append, keep_append]
    · rw [List.append_assoc]
      exact beginsItem_append (hb _ ho).1 fun h => absurd h (hb _ ho).2
  capture _ h := by cases h
  quantified := by
    intro xs _ a hne ha q possessive lazy hn
    obtain ⟨t, rfl, hb, ht⟩ := ha hn
    refine ⟨t ++ q.quantifier possessive lazy, (keep_append _ _).symm, beginsItem_append hb ?_,
      ht.append Regex.ReadAlike.isPassable (.quantifier Regex.ReadAlike.isPassable q possessive lazy)⟩
    rintro rfl
    exact absurd rfl hne
  bar := .keep (by decide) (.singles Regex.ReadAlike.isPassable (List.all_iff_forall_prop.mp (by decide)))
  words n hn := .keep (Quantity.beginsItem_wordsAssertion _)
    (.wordsAssertion Regex.ReadAlike.isPassable hn.words)
  literal n text hn hm := by
    obtain ⟨cs, hs⟩ := hn.literal text hm
    exact .keep (escapeRegex_beginsItem text) (.escapeRegex Regex.ReadAlike.isPassable hs)
  fragment n source hn hm := by
    obtain ⟨hmark, hb, ht⟩ := hn.fragment source hm
    rw [regexPieces_of_unmarked hmark]
    exact .keep hb ht

/-- The text of a pattern is its expression, and is read alike. -/
theorem Pattern.evaluate_of_isReadAlike {p : Pattern} (hp : p.Every Node.IsReadAlike) :
    p.evaluate = .ok p.text ∧ beginsItem p.text ∧ Spelled Regex.ReadAlike p.text := by
  have hnone : p.capturing {} = [] := by
    rw [Pattern.capturing, List.filter_eq_nil_iff]
    intro x hx
    rw [(p.every_of_mem_nodes {} hp hx).self.uncaptured]
    exact Bool.false_ne_true
  obtain ⟨t, ht, hb, hs⟩ := KeepsAlike.composes.pattern {} p hp hnone
  obtain rfl : p.text = t := by
    rw [← p.piecesText_pieces, ht, piecesText_keep]
  have hm : p.Every (·.matcher.MarksPlaces) := hp.imp fun n hn => by
    cases hmatcher : n.matcher with
    | fragment source => exact .inl (hn.fragment source hmatcher).1
    | literal _ | nested _ => trivial
  have hl : p.liftsOuterGroup = false := by
    have hh := hp.head.self.uncaptured
    cases p with
    | last node => rw [Pattern.liftsOuterGroup, show node.captures = false from hh, Bool.false_and]
    | link node next => rfl
  refine ⟨?_, hb, hs⟩
  rw [p.evaluate_eq hm, Pattern.wholePieces, hl, fillPieces_eq]
  simp [ht]

/-- Without an alternative in its chain, a pattern adds its own text behind the text before it. -/
theorem Pattern.textBehind_of_no_orElse {q : Pattern} (h : ∀ n ∈ q.chain, n.kind ≠ .orElse) (t : Text) :
    q.textBehind t = t ++ q.text := by
  have hnode {n : Node} (hn : n.kind ≠ .orElse) (t : Text) : n.kind.join t n.text = t ++ n.text := by
    rw [Kind.join_eq_continued, continued, if_neg hn]
  induction q using Pattern.chain_induction generalizing t with
  | last node => exact hnode (h node List.mem_cons_self) t
  | link node next ih =>
      obtain ⟨hn, hnext⟩ := List.forall_mem_cons.mp h
      rw [Pattern.textBehind, hnode hn, ih hnext, Pattern.text, ih hnext, List.append_assoc]

/-- A pattern behind another is matched as a unit, and so is the one in front, if outside of groups neither of
them has an alternative and the one in front no reluctant repetition. When the two expressions compile with a
group around each, they compile one behind the other, by themselves and as a match of the whole subject; in every
subject each attempt ends as it does with the groups, unless one of the two meets the limit of entries. If the
searches ask for the same before an attempt, both are found in the same subjects. -/
theorem Pattern.append_matches_as_unit {p q : Pattern} (hp : p.Every Node.IsReadAlike)
    (hq : q.Every Node.IsReadAlike) (ho : ∀ n ∈ q.chain, n.kind ≠ .orElse)
    (hs : ∀ t u whole, p.evaluate = .ok t → q.evaluate = .ok u →
      Regex.readWhole (groupText t ++ groupText u) = .ok whole → whole.regex.joins) :
    ∃ t u, p.evaluate = .ok t ∧ q.evaluate = .ok u ∧ (p.append q).evaluate = .ok (t ++ u) ∧
      ∀ anchored c, Regex.compile (framedText anchored (groupText t ++ groupText u)) = .ok c →
        ∃ c', Regex.compile (framedText anchored (t ++ u)) = .ok c' ∧
          (anchored = false → (p.append q).toRegex = .ok c') ∧ c.Alike c' ∧
          (c'.plan = c.plan → ∀ subject, c.FoundAlike c' subject) := by
  obtain ⟨hep, -, htp⟩ := Pattern.evaluate_of_isReadAlike hp
  obtain ⟨heq, -, htq⟩ := Pattern.evaluate_of_isReadAlike hq
  obtain ⟨he, hb, ht⟩ := Pattern.evaluate_of_isReadAlike (Pattern.every_append hp hq)
  have htext : (p.append q).text = p.text ++ q.text := by
    rw [Pattern.text_append, Pattern.textBehind_of_no_orElse ho]
  rw [htext] at he hb ht
  have hfront : Regex.frontSettingAt? (Text.codePoints (p.text ++ q.text)) = none := by
    obtain ⟨cs, hcs, -⟩ := ht
    rw [hcs.codePoints_eq]
    exact frontSettingAt?_of_beginsItem hb hcs
  refine ⟨p.text, q.text, hep, heq, he, fun anchored c hc => ?_⟩
  obtain ⟨c', hc', halike⟩ := compile_opened htp htq hfront (fun whole => hs _ _ whole hep heq) anchored hc
  refine ⟨c', hc', ?_, halike, halike.search⟩
  rintro rfl
  have hcompile : Regex.compile (p.text ++ q.text) = .ok c' := hc'
  rw [Pattern.toRegex, he]
  simp [hcompile, pure, Except.pure]

/-- A literal, and behind it a choice in a raw fragment that may be left out. -/
def optionalChoice : Pattern :=
  .link (.mk .plain (.literal "x") none {} {})
    (.last (.mk .plain (.fragment "a|b") none { atLeast := some 0, atMost := some 1 } ⟨some 0, some 1⟩))

/-- A literal once or more often, as few times as possible. -/
def repeatedLiteral : Pattern :=
  .last (.mk .plain (.literal "c") none { atLeast := some 1, asFewAsPossible := true } ⟨some 1, none⟩)

theorem optionalChoice_repeatedLiteral_as_unit :
    (optionalChoice.append repeatedLiteral).evaluate = .ok "x(?:a|b)?c+?" ∧
      ∃ c c', Regex.compile "(?:x(?:a|b)?)(?:c+?)" = .ok c ∧
        (optionalChoice.append repeatedLiteral).toRegex = .ok c' ∧ c.Alike c' ∧
        ∀ subject, c.FoundAlike c' subject := by
  have hep : optionalChoice.evaluate = .ok "x(?:a|b)?" := rfl
  have heq : repeatedLiteral.evaluate = .ok "c+?" := rfl
  have hp : optionalChoice.Every Node.IsReadAlike := by
    refine ⟨⟨⟨rfl, nofun, ?_, nofun⟩, trivial⟩, ⟨rfl, nofun, nofun, ?_⟩, trivial⟩
    · rintro _ ⟨⟩
      exact ⟨[120], by decide, by decide⟩
    · rintro _ ⟨⟩
      exact ⟨by decide, by decide,
        .singles Regex.ReadAlike.isPassable (List.all_iff_forall_prop.mp (by decide))⟩
  have hq : repeatedLiteral.Every Node.IsReadAlike := by
    refine ⟨⟨rfl, nofun, ?_, nofun⟩, trivial⟩
    rintro _ ⟨⟩
    exact ⟨[99], by decide, by decide⟩
  have ho : ∀ n ∈ repeatedLiteral.chain, n.kind ≠ .orElse := by decide
  have hs : ∀ t u whole, optionalChoice.evaluate = .ok t → repeatedLiteral.evaluate = .ok u →
      Regex.readWhole (groupText t ++ groupText u) = .ok whole → whole.regex.joins := by
    intro t u whole ht hu hw
    obtain rfl := Except.ok.inj (hep.symm.trans ht)
    obtain rfl := Except.ok.inj (heq.symm.trans hu)
    have hjoins : (Regex.readWhole (groupText "x(?:a|b)?" ++ groupText "c+?")).toOption.all
        (·.regex.joins) := by
      decide +kernel
    rw [hw] at hjoins
    exact hjoins
  have hcompiles : (Regex.compile "(?:x(?:a|b)?)(?:c+?)").isOk := by decide +kernel
  have hplan : (Regex.compile "(?:x(?:a|b)?)(?:c+?)").toOption.map (·.plan) =
      (Regex.compile "x(?:a|b)?c+?").toOption.map (·.plan) := by
    decide +kernel
  obtain ⟨t, u, ht, hu, he, hmatches⟩ := Pattern.append_matches_as_unit hp hq ho hs
  obtain rfl := Except.ok.inj (hep.symm.trans ht)
  obtain rfl := Except.ok.inj (heq.symm.trans hu)
  cases hc : Regex.compile "(?:x(?:a|b)?)(?:c+?)" with
  | error e =>
      rw [hc] at hcompiles
      cases hcompiles
  | ok c =>
      obtain ⟨c', hc', hregex, halike, hfound⟩ := hmatches false c hc
      have hopen : Regex.compile "x(?:a|b)?c+?" = .ok c' := hc'
      rw [hc, hopen] at hplan
      exact ⟨he, c, c', rfl, hregex rfl, halike, hfound (Option.some.inj hplan).symm⟩

/-- Whether a text is found in a subject, if it compiles and the search is carried through. -/
def foundIn? (t subject : Text) : Option Bool :=
  (Regex.compile t).toOption.bind fun c => (c.search subject).toOption

/-- The search asks for a byte that is not needed, which it would not do with groups around the two parts. -/
example : foundIn? "(?!x)(?=a)b?a" "a" = some false := by decide +kernel

/-- A choice in a raw fragment. -/
def rawChoice : Pattern := .last (.mk .plain (.fragment "xa|xb") none {} {})

/-- A fragment is not grouped when a chain goes on behind it, and its last alternative takes in what follows. -/
theorem rawChoice_swallows :
    rawChoice.andThen (.nested repeatedLiteral) = .ok (rawChoice.append repeatedLiteral) ∧
      rawChoice.evaluate = .ok "xa|xb" ∧ repeatedLiteral.evaluate = .ok "c+?" ∧
      Regex.compiles "xa|xb" ∧ Regex.compiles "c+?" ∧
      (rawChoice.append repeatedLiteral).evaluate = .ok "xa|xbc+?" ∧
      foundIn? "xa|xbc+?" "xa" = some true ∧ foundIn? "(?:xa|xb)(?:c+?)" "xa" = some false := by
  refine ⟨rfl, rfl, rfl, ?_, ?_, rfl, ?_, ?_⟩ <;> decide +kernel

end PatternGrammar
