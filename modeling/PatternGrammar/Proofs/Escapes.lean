import Mathlib.Data.List.TakeWhile
import PatternGrammar.Proofs.Reading

/-!
# Where numbers and escapes end

A number ends in front of the first character that is no digit, and the counts of a quantifier at the first
closing brace. So the escapes that emission writes end where they are meant to end, whatever follows.
-/

namespace PatternGrammar.Regex

/-! ## Numbers -/

theorem readBounded_rest {limit n m : Nat} {t rest : List Nat}
    (h : readBounded limit n t = .value m rest) : rest = t.dropWhile isDigit := by
  induction t generalizing n with
  | nil =>
      cases h
      rfl
  | cons c t ih =>
      rw [readBounded] at h
      split at h
      · next hc =>
          dsimp only at h
          split at h
          · cases h
          · rw [List.dropWhile_cons_of_pos hc]
            exact ih h
      · next hc =>
          cases h
          rw [List.dropWhile_cons_of_neg hc]

theorem isDigit_of_mem_takeWhile {c : Nat} {t : List Nat} (h : c ∈ t.takeWhile isDigit) :
    isDigit c :=
  List.mem_takeWhile_imp h

theorem isDigit_of_octalValue? {c d : Nat} (h : octalValue? c = some d) : isDigit c := by
  unfold octalValue? at h
  split at h
  · next hc =>
      simp only [between, Bool.and_eq_true, decide_eq_true_eq] at hc
      simp only [isDigit, between, Bool.and_eq_true, decide_eq_true_eq]
      omega
  · cases h

theorem readOctal_snd (count n : Nat) (t : List Nat) :
    ∃ digits, (∀ c ∈ digits, isDigit c) ∧ t = digits ++ (readOctal count n t).2 := by
  induction count generalizing n t with
  | zero => exact ⟨[], by simp, rfl⟩
  | succ count ih =>
      cases t with
      | nil => exact ⟨[], by simp, rfl⟩
      | cons c t =>
          rw [readOctal]
          cases hc : octalValue? c with
          | none => exact ⟨[], by simp, rfl⟩
          | some d =>
              obtain ⟨digits, hd, ht⟩ := ih (n * 8 + d) t
              refine ⟨c :: digits, List.forall_mem_cons.mpr ⟨isDigit_of_octalValue? hc, hd⟩, ?_⟩
              rw [List.cons_append, ← ht]

theorem notMem_takeWhile_isDigit {c : Nat} (hc : isDigit c = false) (t : List Nat) :
    c ∉ t.takeWhile isDigit := by
  intro h
  rw [isDigit_of_mem_takeWhile h] at hc
  cases hc

/-- Two texts agree up to the first place of a character and behind it. -/
theorem eq_of_append_cons_eq {c : Nat} {a b s t : List Nat} (ha : c ∉ a) (hb : c ∉ b)
    (h : a ++ c :: s = b ++ c :: t) : a = b ∧ s = t := by
  induction a generalizing b with
  | nil =>
      cases b with
      | nil => exact ⟨rfl, (List.cons.inj h).2⟩
      | cons d b => exact absurd ((List.cons.inj h).1 ▸ List.mem_cons_self) hb
  | cons d a ih =>
      cases b with
      | nil => exact absurd ((List.cons.inj h).1 ▸ List.mem_cons_self) ha
      | cons e b =>
          obtain ⟨rfl, ht⟩ := List.cons.inj h
          obtain ⟨rfl, rfl⟩ :=
            ih (List.not_mem_of_not_mem_cons ha) (List.not_mem_of_not_mem_cons hb) ht
          exact ⟨rfl, rfl⟩

theorem readBounded_eq {limit n m : Nat} {t rest : List Nat}
    (h : readBounded limit n t = .value m rest) : t = t.takeWhile isDigit ++ rest := by
  rw [readBounded_rest h, List.takeWhile_append_dropWhile]

/-- The counts of a quantifier end at the first closing brace. -/
theorem readCounts_counts {t rest : List Nat} {least : Nat} {most : Option Nat}
    (h : readCounts t = .counts least most rest) :
    ∃ inner, Sign.closeBrace ∉ inner ∧ t = inner ++ Sign.closeBrace :: rest := by
  have hn := notMem_takeWhile_isDigit (show isDigit Sign.closeBrace = false from rfl)
  have hbc : Sign.closeBrace ≠ Sign.comma := by decide
  rw [readCounts] at h
  split at h
  · cases h
  · next hb =>
      simp only [beginsWithCounts, Bool.not_eq_true, Bool.not_eq_false', Bool.and_eq_true] at hb
      replace hb := hb.2
      split at h
      · cases h
      · next hr =>
          cases h
          exact ⟨_, hn t, readBounded_eq hr⟩
      · next hr =>
          cases h
          refine ⟨t.takeWhile isDigit ++ [Sign.comma], ?_, ?_⟩
          · simp [hn, hbc]
          · rw [List.append_assoc]
            exact readBounded_eq hr
      · next least' r _ _ hr =>
          have ht := readBounded_eq hr
          rw [← readBounded_rest hr] at hb
          split at hb
          · next hc _ => exact absurd rfl (hc _)
          · next inner _ _ =>
              rw [List.drop_one, List.tail_cons] at h
              cases hr' : readBounded maxCount 0 inner with
              | tooBig r => simp [hr'] at h
              | value m r =>
                  have hi := readBounded_eq hr'
                  have hrest : r.drop 1 = rest := by
                    simp only [hr'] at h
                    grind
                  rw [← readBounded_rest hr', decide_eq_true_eq] at hb
                  obtain ⟨r, rfl⟩ := List.head?_eq_some_iff.mp hb
                  obtain rfl : r = rest := hrest
                  refine ⟨t.takeWhile isDigit ++ Sign.comma :: inner.takeWhile isDigit, ?_, ?_⟩
                  · simp [hn, hbc]
                  · rw [List.append_assoc, List.cons_append, ← hi]
                    exact ht
          · cases hb

/-- The number of a group ends in front of the first character that is no digit. -/
theorem readGroupNumber_number {opened n : Nat} {t rest : List Nat}
    (h : readGroupNumber opened t = .number n rest) :
    ∃ inner, Sign.greater ∉ inner ∧ t = inner ++ rest := by
  have hn := notMem_takeWhile_isDigit (show isDigit Sign.greater = false from rfl)
  obtain ⟨sign, digits, hs, ht, hd⟩ : ∃ sign digits, Sign.greater ∉ sign ∧ t = sign ++ digits ∧
      (if t.head? = some Sign.plus || t.head? = some Sign.hyphen then t.drop 1 else t) =
        digits := by
    split
    · next hc =>
        cases t with
        | nil => exact ⟨[], [], List.not_mem_nil, rfl, rfl⟩
        | cons c t =>
            refine ⟨[c], t, ?_, rfl, rfl⟩
            rw [List.mem_singleton]
            rintro rfl
            cases hc
    · exact ⟨[], t, List.not_mem_nil, rfl, rfl⟩
  simp only [readGroupNumber, hd] at h
  cases hr : readBounded (if t.head? = some Sign.plus then maxGroup - opened else maxGroup) 0
      digits with
  | tooBig r =>
      simp only [hr] at h
      grind
  | value m r =>
      have hrest : r = rest := by
        simp only [hr] at h
        grind
      refine ⟨sign ++ digits.takeWhile isDigit, ?_, ?_⟩
      · simp [hs, hn]
      · rw [List.append_assoc, ← hrest, ← readBounded_eq hr]
        exact ht

theorem readGroupNumber_ne_none {opened : Nat} {t : List Nat}
    (h : startsWithDigit t ∨ ∃ digits, t = Sign.hyphen :: digits ∧ startsWithDigit digits) :
    readGroupNumber opened t ≠ .none := by
  have hd : startsWithDigit (if t.head? = some Sign.plus || t.head? = some Sign.hyphen then
      t.drop 1 else t) := by
    rcases h with h | ⟨digits, rfl, h⟩
    · cases t with
      | nil => cases h
      | cons c t =>
          rw [if_neg]
          · exact h
          · intro hc
            have hc : c = Sign.plus ∨ c = Sign.hyphen := by simpa using hc
            rcases hc with rfl | rfl <;> cases h
    · exact h
  simp only [readGroupNumber, hd, Bool.not_true, Bool.false_eq_true, if_false]
  grind

/-! ## Escapes -/

section
variable {c : Nat} {rest : List Nat} {s s' s₁ : ReadState} {u : PUnit}

theorem readEscape_sign (hc : CharClass.alnum.holds c = false) (hr : s.rest = c :: rest) :
    readEscape false s = .ok (.literal c, { s with rest }) := by
  simp only [readEscape, Reading.rest_bind, hr, Reading.skipTo, Reading.modify_bind, hc,
    Bool.not_false, if_true]
  rfl

theorem readEscape_letter (hc : c ∈ [98, 102, 110, 114, 116, 118]) (hr : s.rest = c :: rest) :
    ∃ e, readEscape false s = .ok (e, { s with rest }) ∧ e ≠ .nameReference ∧ e ≠ .subroutine := by
  obtain ⟨⟩ := s
  simp only at hr
  subst hr
  simp only [List.mem_cons, List.not_mem_nil, or_false] at hc
  rcases hc with rfl | rfl | rfl | rfl | rfl | rfl <;> exact ⟨_, rfl, nofun, nofun⟩

theorem readEscape_digit {e : Escape} (hc : isDigit c) (hr : s.rest = c :: rest)
    (h : readEscape false s = .ok (e, s₁)) :
    readDigitEscape false c rest { s with rest } = .ok (e, s₁) := by
  obtain ⟨⟩ := s
  simp only at hr
  subst hr
  have hd : c ∈ [48, 49, 50, 51, 52, 53, 54, 55, 56, 57] := by
    simp only [isDigit, between, Bool.and_eq_true, decide_eq_true_eq] at hc
    simp only [List.mem_cons, List.not_mem_nil, or_false]
    omega
  simp only [List.mem_cons, List.not_mem_nil, or_false] at hd
  rcases hd with rfl | rfl | rfl | rfl | rfl | rfl | rfl | rfl | rfl | rfl <;> exact h

/-- The escape is over behind some of the digits that follow. -/
def OverDigits (s : ReadState) (e : Escape) (s₁ : ReadState) : Prop :=
  e ≠ .nameReference ∧ e ≠ .subroutine ∧ ∃ digits after, (∀ c ∈ digits, isDigit c) ∧
    s.rest = digits ++ after ∧ s₁ = { s with rest := after }

theorem overDigits_readDigitEscape {first : Nat} {e : Escape} (hf : isDigit first)
    (h : readDigitEscape false first s.rest s = .ok (e, s₁)) : OverDigits s e s₁ := by
  simp only [readDigitEscape, Reading.get_bind, Bool.false_or, decide_eq_true_eq] at h
  have hoctal (h : (if 56 ≤ first then pure (.literal first) else do
      Reading.skipTo (readOctal 2 (first - 48) s.rest).2
      pure (.literal (readOctal 2 (first - 48) s.rest).1) : Reading Escape) s = .ok (e, s₁)) :
      OverDigits s e s₁ := by
    split at h
    · obtain ⟨rfl, rfl⟩ := Reading.pure_eq_ok.mp h
      exact ⟨nofun, nofun, [], s₁.rest, by simp, rfl, rfl⟩
    · simp only [Reading.skipTo, Reading.modify_bind, Reading.pure_eq_ok] at h
      obtain ⟨rfl, rfl⟩ := h
      obtain ⟨digits, hd, hr⟩ := readOctal_snd 2 (first - 48) s.rest
      exact ⟨nofun, nofun, digits, _, hd, hr, rfl⟩
  split at h
  · exact hoctal h
  · cases hr : readBounded 214748363 0 (first :: s.rest) with
    | tooBig r =>
        rw [hr] at h
        exact hoctal h
    | value n r =>
        simp only [hr] at h
        split at h
        · simp only [Reading.skipTo, Reading.modify_bind, Reading.pure_eq_ok] at h
          obtain ⟨rfl, rfl⟩ := h
          have hr := readBounded_eq hr
          rw [List.takeWhile_cons_of_pos hf, List.cons_append] at hr
          exact ⟨nofun, nofun, s.rest.takeWhile isDigit, r,
            fun c hc => isDigit_of_mem_takeWhile hc, (List.cons.inj hr).2, rfl⟩
        · exact hoctal h

theorem unmoved_readEscapeItem {e : Escape} (he : readEscape false s = .ok (e, s₁))
    (hn : e ≠ .nameReference) (hs : e ≠ .subroutine) (h : readEscapeItem s = .ok (u, s')) :
    Unmoved s₁ s' := by
  rw [readEscapeItem, Reading.bind_eq_ok] at h
  obtain ⟨e', s₂, he', h⟩ := h
  obtain ⟨rfl, rfl⟩ := Prod.mk.inj (Except.ok.inj (he.symm.trans he'))
  cases e with
  | literal c => exact unmoved_pushLiteral h
  | member m => exact unmoved_pushItem h
  | single s => exact unmoved_pushItem h
  | boundary => exact unmoved_pushItem h
  | anchor a => exact unmoved_pushItem h
  | keepOut => exact unmoved_pushItem h
  | backReference n => exact unmoved_pushBackReference h
  | nameReference => exact absurd rfl hn
  | subroutine => exact absurd rfl hs

theorem unmoved_readSubroutine {number : List Nat} (hn : Sign.greater ∉ number)
    (hd : startsWithDigit number ∨ ∃ digits, number = Sign.hyphen :: digits ∧ startsWithDigit digits)
    (hr : s.rest = Sign.less :: (number ++ Sign.greater :: rest))
    (h : readSubroutine s = .ok (u, s')) : Unmoved { s with rest } s' := by
  have hd' : readGroupNumber s.opened (number ++ Sign.greater :: rest) ≠ .none := by
    refine readGroupNumber_ne_none ?_
    rcases hd with hd | ⟨digits, rfl, hd⟩
    · cases number with
      | nil => cases hd
      | cons c number => exact .inl hd
    · cases digits with
      | nil => cases hd
      | cons c digits => exact .inr ⟨_, rfl, hd⟩
  simp only [readSubroutine, Reading.get_bind, hr, closingDelimiter?, Option.getD_some] at h
  cases hg : readGroupNumber s.opened (number ++ Sign.greater :: rest) with
  | none => exact absurd hg hd'
  | fault fault after =>
      simp only [hg] at h
      exact absurd h Reading.fail_ne_ok
  | number n after =>
      obtain ⟨inner, hi, he⟩ := readGroupNumber_number hg
      simp only [hg] at h
      split at h
      · next ha =>
          obtain ⟨after, rfl⟩ := List.head?_eq_some_iff.mp ha
          obtain ⟨rfl, rfl⟩ := eq_of_append_cons_eq hn hi he
          simp only [pushCall, Reading.get_bind, Reading.skipTo, Reading.modify_bind] at h
          exact unmoved_pushItem h
      · exact absurd h Reading.fail_ne_ok

theorem after_escapedSign (hs : s.Steady) (hc : CharClass.alnum.holds c = false)
    (h : readItem Sign.backslash (c :: rest) s = .ok (u, s')) : After s rest 0 s' := by
  rw [readItem_eq_readUnit hs (by decide)] at h
  exact (unmoved_readEscapeItem (readEscape_sign hc rfl) nofun nofun h).after hs

theorem after_escapedLetter (hs : s.Steady) (hc : c ∈ [98, 102, 110, 114, 116, 118])
    (h : readItem Sign.backslash (c :: rest) s = .ok (u, s')) : After s rest 0 s' := by
  rw [readItem_eq_readUnit hs (by decide)] at h
  obtain ⟨e, he, hn, hr⟩ := readEscape_letter (s := { s with rest := c :: rest }) hc rfl
  exact (unmoved_readEscapeItem he hn hr h).after hs

theorem after_escapedDigit (hs : s.Steady) (hc : isDigit c)
    (h : readItem Sign.backslash (c :: rest) s = .ok (u, s')) :
    ∃ digits after, (∀ d ∈ digits, isDigit d) ∧ rest = digits ++ after ∧ After s after 0 s' := by
  rw [readItem_eq_readUnit hs (by decide)] at h
  have hi : readEscapeItem { s with rest := c :: rest } = .ok (u, s') := h
  rw [readEscapeItem, Reading.bind_eq_ok] at hi
  obtain ⟨e, s₁, he, -⟩ := hi
  obtain ⟨hn, hr, digits, after, hd, ha, rfl⟩ :=
    overDigits_readDigitEscape hc (readEscape_digit hc rfl he)
  exact ⟨digits, after, hd, ha, (unmoved_readEscapeItem he hn hr h).after hs⟩

theorem after_subroutine {number : List Nat} (hs : s.Steady) (hn : Sign.greater ∉ number)
    (hd : startsWithDigit number ∨ ∃ digits, number = Sign.hyphen :: digits ∧ startsWithDigit digits)
    (h : readItem Sign.backslash (103 :: Sign.less :: (number ++ Sign.greater :: rest)) s =
      .ok (u, s')) : After s rest 0 s' := by
  rw [readItem_eq_readUnit hs (by decide)] at h
  have hr : readSubroutine { s with rest := Sign.less :: (number ++ Sign.greater :: rest) } =
      .ok (u, s') := h
  exact (unmoved_readSubroutine hn hd rfl hr).after hs

end

end PatternGrammar.Regex
