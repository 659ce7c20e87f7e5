import PatternGrammar.Proofs.Concatenation
import PatternGrammar.Proofs.Outcomes

/-!
# Searches that agree

Code that leads equally far from every character makes attempts that come to the same end, unless a limit stops one
of them. A search goes from character to character, unless its plan takes it to a byte that continues one. So two
searches with such a plan agree if the code of their expressions leads equally far.
-/

namespace PatternGrammar.Regex

/-! ## Code that leads equally far -/

/-- As far as one of the lists tells, something can be found just as far ahead in the other. -/
def EquallyFar (l l' : List Nat) : Prop := ∀ n, (∃ j ∈ l, n ≤ j) ↔ ∃ j ∈ l', n ≤ j

namespace EquallyFar

variable {l l' l'' : List Nat}

theorem refl (l : List Nat) : EquallyFar l l := fun _ => Iff.rfl

theorem of_eq (h : l = l') : EquallyFar l l' := h ▸ refl l

theorem symm (h : EquallyFar l l') : EquallyFar l' l := fun n => (h n).symm

theorem trans (h : EquallyFar l l') (h' : EquallyFar l' l'') : EquallyFar l l'' := fun n => (h n).trans (h' n)

/-- Lists with the same greatest place. -/
theorem of_isGreatest {m : Nat} (h : IsGreatest {j | j ∈ l} m) (h' : IsGreatest {j | j ∈ l'} m) :
    EquallyFar l l' := by
  have hup {l : List Nat} (h : IsGreatest {j | j ∈ l} m) (n : Nat) : (∃ j ∈ l, n ≤ j) ↔ n ≤ m :=
    ⟨fun ⟨j, hj, hn⟩ => hn.trans (h.2 hj), fun hn => ⟨m, h.1, hn⟩⟩
  exact fun n => (hup h n).trans (hup h' n).symm

/-- Of both lists only places from `n` on are taken. -/
theorem filter (h : EquallyFar l l') (n : Nat) : EquallyFar (l.filter (n ≤ ·)) (l'.filter (n ≤ ·)) := by
  have hmem (l : List Nat) (m : Nat) : (∃ j ∈ l.filter (n ≤ ·), m ≤ j) ↔ ∃ j ∈ l, max n m ≤ j := by
    simp only [List.mem_filter, decide_eq_true_eq, max_le_iff, and_assoc]
  exact fun m => by rw [hmem, hmem, h]

end EquallyFar

/-- From every character of every text the codes lead equally far. -/
def Code.EquallyFar (c c' : Code) : Prop :=
  ∀ s : Subject, s.IsText → ∀ i, s.Begins i → Regex.EquallyFar (c.ends s i) (c'.ends s i)

/-- In a group that takes the whole subject the codes lead equally far, too. -/
theorem Code.EquallyFar.framed {c c' : Code} (h : c.EquallyFar c') (anchored : Bool) (upTo upTo' : Nat) :
    (Code.framed anchored upTo c).EquallyFar (Code.framed anchored upTo' c') := by
  cases anchored with
  | false => exact h
  | true =>
      have hends (s : Subject) (upTo : Nat) (c : Code) (i : Nat) : (Code.framed true upTo c).ends s i =
          if i = 0 then (c.ends s i).filter (s.size ≤ ·) else [] := by
        have hfilter (l : List Nat) : (l.flatMap fun j => if s.size ≤ j then [j] else []) = l.filter (s.size ≤ ·) := by
          induction l with
          | nil => rfl
          | cons j l ih =>
              rw [List.flatMap_cons, ih, List.filter_cons]
              by_cases hj : s.size ≤ j <;> simp [hj]
        by_cases hi : i = 0 <;>
          simp [Code.framed, ends, Instruction.ends, Subject.holdsAt, Shape.ends, Shape.endsInside, Role.ends, hi,
            hfilter]
      intro s hs i hi
      rw [hends, hends]
      split
      · exact (h s hs i hi).filter s.size
      · exact .refl _

/-! ## Attempts -/

/-- Two attempts find a match or find none, unless one of them is stopped. -/
inductive Attempt.Agree : Attempt → Attempt → Prop where
  | stopped (fault : SearchFault) (a : Attempt) : Agree (.stopped fault) a
  | stopped_right (fault : SearchFault) (a : Attempt) : Agree a (.stopped fault)
  | matched : Agree .matched .matched
  | failed : Agree (.refused .failed) (.refused .failed)

section
variable {e e' : Engine} {place : Nat}

/-- A place is wanted that lies far enough ahead: behind the start, or anywhere from it on. -/
theorem Engine.wants_iff {start j : Nat} (h : start ≤ j) :
    e.wants start j ↔
      (if e.settings.notEmpty || (e.settings.notEmptyAtStart && start = 0) then start + 1 else 0) ≤ j := by
  cases hr : e.settings.notEmpty || (e.settings.notEmptyAtStart && start = 0) with
  | false => simp [wants, hr]
  | true =>
      simp only [wants, hr, if_true, Bool.and_true, Bool.not_eq_true', decide_eq_false_iff_not]
      omega

theorem Engine.outcomeAt_eq (hs : e.subject.IsText) (hc : e.program.code.isRegular false)
    (hb : e.subject.Begins place) :
    e.outcomeAt place = if ∃ j ∈ e.program.code.ends e.subject place,
      (if e.settings.notEmpty || (e.settings.notEmptyAtStart && place = 0) then place + 1 else 0) ≤ j
      then .matched else .refused .failed := by
  unfold outcomeAt
  congr 1
  rw [List.any_eq_true, eq_iff_iff]
  refine exists_congr fun j => and_congr_right fun hj => ?_
  exact wants_iff ((Code.reaches_of_mem_ends hs hc hb hj).2 rfl).1.le

/-- Attempts of engines that differ in their code, which leads equally far. -/
theorem Engine.attempts_agree (hs : e.subject.IsText) (hc : e.program.code.isRegular false)
    (hc' : e'.program.code.isRegular false) (hsubject : e'.subject = e.subject)
    (hsettings : e'.settings = e.settings) (h : e.program.code.EquallyFar e'.program.code)
    (hb : e.subject.Begins place) : (e.attempt place).1.Agree (e'.attempt place).1 := by
  have hsame : e'.outcomeAt place = e.outcomeAt place := by
    rw [outcomeAt_eq hs hc hb, outcomeAt_eq (hsubject ▸ hs) hc' (hsubject ▸ hb), hsubject, hsettings]
    congr 1
    exact eq_iff_iff.mpr (h e.subject hs place hb _).symm
  rcases attempt_eq_outcomeAt hs hc hb with ha | ⟨fault, ha⟩
  · rcases attempt_eq_outcomeAt (hsubject ▸ hs) hc' (hsubject ▸ hb) with ha' | ⟨fault, ha'⟩
    · rw [ha, ha', hsame, outcomeAt]
      split
      · exact .matched
      · exact .failed
    · rw [ha']
      exact .stopped_right fault _
  · rw [ha]
    exact .stopped fault _

end

/-! ## Places of a search -/

/-- No match begins with a byte that continues a character. -/
def Start.isWhole : Start → Bool
  | .anywhere | .lineStart => true
  | .byte b => (List.range 0x40).all fun n => !b.accepts (0x80 + n)
  | .among table => (List.range 0x40).all fun n => !table.getD (0x80 + n) false

namespace Subject

variable {s : Subject} {i j n : Nat}

/-- The character that a place is in. -/
theorem exists_begins (h : i ≤ s.size) : ∃ j, s.Begins j ∧ j ≤ i ∧ (j < s.size → i < s.next j) := by
  induction i with
  | zero => exact ⟨0, .zero, Nat.le_refl _, fun _ => lt_next⟩
  | succ i ih =>
      obtain ⟨j, hj, hle, hlt⟩ := ih (by omega)
      have hnext := hlt (by omega)
      by_cases hin : i + 1 < s.next j
      · exact ⟨j, hj, by omega, fun _ => hin⟩
      · have heq : s.next j = i + 1 := by omega
        exact ⟨i + 1, heq ▸ hj.next (by omega), Nat.le_refl _, fun _ => lt_next⟩

/-- A byte that does not continue a character begins one. -/
theorem begins_of_not_continues (hi : i < s.size) (hc : s.continues i = false) : s.Begins i := by
  obtain ⟨j, hj, hle, hlt⟩ := exists_begins hi.le
  have hnext := hlt (by omega)
  obtain ⟨hall, -, -⟩ := @across_spec s (j + 1) (s.size - j) (by omega)
  by_cases hij : j = i
  · exact hij ▸ hj
  · have hcontinues := hall i (by omega) hnext
    rw [hc] at hcontinues
    cases hcontinues

theorem findByte?_spec {p : Nat → Bool} (h : s.findByte? p n i = some j) : j < s.size ∧ p (s.byteAt j) := by
  induction n generalizing i with
  | zero => cases h
  | succ n ih =>
      rw [findByte?] at h
      split_ifs at h with hle hp
      · cases h
        exact ⟨by omega, hp⟩
      · exact ih h

/-- Behind the first half of a line break the second one begins. -/
theorem IsText.begins_of_splitsPair (hs : s.IsText) (hb : s.Begins i) (h : s.splitsPair i) : s.Begins (i + 1) := by
  simp only [splitsPair, Bool.and_eq_true, decide_eq_true_eq] at h
  have hone := hs.next_ascii hb h.1.2 (by omega)
  exact hone ▸ hb.next h.1.2

theorem IsText.begins_lineFrom (hs : s.IsText) (hb : s.Begins i) : s.Begins (s.lineFrom n i) := by
  induction n generalizing i with
  | zero => exact hb
  | succ n ih =>
      rw [lineFrom]
      split_ifs with hend hpair
      · rw [Bool.and_eq_true] at hpair
        exact hs.begins_of_splitsPair hb hpair.1
      · exact hb
      · simp only [Bool.or_eq_true, decide_eq_true_eq, not_or] at hend
        exact ih (hb.next (by omega))

end Subject

namespace Search

variable {x x' : Search} {i j : Nat}

/-- A place that can begin a match begins a character. -/
theorem begins_startFrom? (hs : x.engine.subject.IsText) (hw : x.plan.start.isWhole)
    (hb : x.engine.subject.Begins i) (h : x.startFrom? i = some j) : x.engine.subject.Begins j := by
  have hfind (p : Nat → Bool) (hp : ∀ n < 0x40, p (0x80 + n) = false)
      (h : (if !x.plan.anchored then x.engine.subject.findByte? p (x.engine.subject.size - i) i
        else if i < x.engine.subject.size && p (x.engine.subject.byteAt i) then some i else none) = some j) :
      x.engine.subject.Begins j := by
    split_ifs at h with hanchored hhere
    · obtain ⟨hj, hpj⟩ := Subject.findByte?_spec h
      refine Subject.begins_of_not_continues hj ?_
      by_contra hc
      simp only [Subject.continues, Bool.and_eq_true, decide_eq_true_eq, Bool.not_eq_false] at hc
      have hnot := hp (x.engine.subject.byteAt j - 0x80) (by omega)
      rw [Nat.add_sub_cancel' hc.1, hpj] at hnot
      cases hnot
    · cases h
      exact hb
  have hrange {p : Nat → Bool} (h : (List.range 0x40).all fun n => !p (0x80 + n)) :
      ∀ n < 0x40, p (0x80 + n) = false := by
    simpa using h
  unfold startFrom? at h
  dsimp only at h
  cases hstart : x.plan.start with
  | anywhere =>
      rw [hstart] at h
      cases h
      exact hb
  | byte b =>
      rw [hstart] at h hw
      exact hfind b.accepts (hrange hw) h
  | among table =>
      rw [hstart] at h hw
      exact hfind (fun b => table.getD b false) (hrange (p := fun b => table.getD b false) hw) h
  | lineStart =>
      rw [hstart] at h
      cases h
      split_ifs
      · exact .zero
      · exact hs.begins_lineFrom hb

/-- Behind a character where nothing has been found the search goes on at a character. -/
theorem begins_onward? {ignored skips : Nat} {r : Nat × Nat} (hs : x.engine.subject.IsText)
    (hb : x.engine.subject.Begins i) (h : x.onward? i ignored skips .failed = some r) :
    x.engine.subject.Begins r.1 := by
  simp only [onward?] at h
  split_ifs at h with hstop
  cases h
  simp only [Bool.or_eq_true, decide_eq_true_eq, not_or] at hstop
  have hlt := @Subject.lt_next x.engine.subject i
  have hnext : x.engine.subject.Begins (x.engine.subject.next i) := hb.next (by omega)
  unfold settle
  dsimp only
  split_ifs with hpair
  · rw [Bool.and_eq_true] at hpair
    exact hs.begins_of_splitsPair hnext hpair.2
  · exact hnext

/-- Two searches through one subject with the same plan, of which the attempts agree. -/
structure Agree (x x' : Search) : Prop where
  subject : x'.engine.subject = x.engine.subject
  plan : x'.plan = x.plan
  namesBreak : x'.namesBreak = x.namesBreak
  lastNeeded : x'.lastNeeded = x.lastNeeded
  attempts : ∀ ignored place, x.engine.subject.Begins place →
    ({ x.engine with ignoredSkips := ignored }.attempt place).1.Agree
      ({ x'.engine with ignoredSkips := ignored }.attempt place).1

/-- Searches that agree come to the same end from a character on if both are carried through, by induction on the
number of attempts. -/
theorem Agree.run_eq (h : x.Agree x') (hs : x.engine.subject.IsText) (hw : x.plan.start.isWhole) {fuel ignored : Nat}
    (hb : x.engine.subject.Begins i) {found found' : Bool} (hf : x.run fuel i ignored = .ok found)
    (hf' : x'.run fuel i ignored = .ok found') : found' = found := by
  induction fuel generalizing i ignored with
  | zero => cases hf
  | succ fuel ih =>
      have hstart : x'.startFrom? i = x.startFrom? i := by
        simp only [startFrom?, h.subject, h.plan]
      have hallows (i : Nat) : x'.allows i = x.allows i := by
        simp only [allows, h.subject, h.plan, h.lastNeeded]
      have honward (i skips skips' : Nat) :
          x'.onward? i ignored skips' .failed = x.onward? i ignored skips .failed := by
        simp only [onward?, settle, h.subject, h.plan, h.namesBreak]
      simp only [run] at hf
      simp only [run, hstart, hallows] at hf'
      cases hplace : x.startFrom? i with
      | none =>
          rw [hplace] at hf hf'
          cases hf
          cases hf'
          rfl
      | some place =>
          rw [hplace] at hf hf'
          dsimp only at hf hf'
          have hbegins := begins_startFrom? hs hw hb hplace
          split_ifs at hf hf' with hallowed
          · cases hf
            cases hf'
            rfl
          · have hagree := h.attempts ignored place hbegins
            generalize Engine.attempt { x.engine with ignoredSkips := ignored } place = outcome at hf hagree
            generalize Engine.attempt { x'.engine with ignoredSkips := ignored } place = outcome' at hf' hagree
            obtain ⟨a, skips⟩ := outcome
            obtain ⟨a', skips'⟩ := outcome'
            cases hagree with
            | stopped fault => cases hf
            | stopped_right fault => cases hf'
            | matched =>
                cases hf
                cases hf'
                rfl
            | failed =>
                dsimp only at hf hf'
                rw [honward place skips skips'] at hf'
                cases hon : x.onward? place ignored skips .failed with
                | none =>
                    rw [hon] at hf hf'
                    cases hf
                    cases hf'
                    rfl
                | some r =>
                    rw [hon] at hf hf'
                    exact ih (begins_onward? hs hbegins hon) hf hf'

end Search

/-! ## Compiled expressions -/

/-- In every text attempts that begin at the same character agree. -/
structure Compiled.Agree (c c' : Compiled) : Prop where
  settings : c'.settings = c.settings
  namesBreak : c'.namesBreak = c.namesBreak
  attempts : ∀ subject cs, Spells subject cs → ∀ ignored place, (Subject.ofText subject c.settings).Begins place →
    (c.attemptAt subject ignored place).1.Agree (c'.attemptAt subject ignored place).1

section
variable {c c' : Compiled}

/-- Expressions agree if their code is regular and leads equally far. -/
theorem Compiled.Agree.of_equallyFar (hsettings : c'.settings = c.settings) (hbreak : c'.namesBreak = c.namesBreak)
    (hc : c.program.code.isRegular false) (hc' : c'.program.code.isRegular false)
    (h : c.program.code.EquallyFar c'.program.code) : c.Agree c' where
  settings := hsettings
  namesBreak := hbreak
  attempts subject cs hs ignored place hb := by
    have hsubject : Subject.ofText subject c'.settings = Subject.ofText subject c.settings := by
      rw [hsettings]
    exact Engine.attempts_agree (e := { (c.searchIn subject).engine with ignoredSkips := ignored })
      (Subject.isText_ofText hs) hc hc' hsubject hsettings h hb

/-- Expressions that agree are found in the same texts, if their searches have the same plan, which does not lead
into a character, and are carried through. -/
theorem Compiled.Agree.search (h : c.Agree c') (hplan : c'.plan = c.plan) (hw : c.plan.start.isWhole)
    {subject : Text} {cs : List Nat} (hs : Spells subject cs) {found found' : Bool}
    (hf : c.search subject = .ok found) (hf' : c'.search subject = .ok found') : found' = found := by
  have hsubject : Subject.ofText subject c'.settings = Subject.ofText subject c.settings := by
    rw [h.settings]
  have hlast : (c'.searchIn subject).lastNeeded = (c.searchIn subject).lastNeeded := by
    simp only [searchIn, hsubject, hplan]
  have hfuel : (c'.searchIn subject).fuel = (c.searchIn subject).fuel := by
    simp only [Search.fuel, searchIn, h.settings]
  have hfound {x : Except SearchFault Bool} {source : Text} {found : Bool}
      (h : x.mapError (EngineFault.search source subject) = .ok found) : x = .ok found := by
    cases x <;> simp_all [Except.mapError]
  have hagree : (c.searchIn subject).Agree (c'.searchIn subject) :=
    ⟨hsubject, hplan, h.namesBreak, hlast, h.attempts subject cs hs⟩
  unfold Compiled.search at hf hf'
  dsimp only at hf hf'
  rw [hfuel] at hf'
  exact hagree.run_eq (Subject.isText_ofText hs) hw .zero (hfound hf) (hfound hf')

end

end PatternGrammar.Regex
