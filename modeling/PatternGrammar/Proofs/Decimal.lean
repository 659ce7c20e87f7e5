import PatternGrammar.Text.Basic

/-!
# Decimal numbers

A number is read back from its digits, and its digits are digits.
-/

namespace PatternGrammar.Text

/-- The number that digits stand for. -/
def decimalValue (t : Text) : Nat := t.foldl (fun value b => 10 * value + (b.toNat - 48)) 0

theorem toNat_digit {n : Nat} (h : n < 10) : (UInt8.ofNat (48 + n)).toNat = 48 + n := by
  rw [UInt8.toNat_ofNat']
  omega

theorem isDigit_digit {n : Nat} (h : n < 10) : isDigit (UInt8.ofNat (48 + n)) = true := by
  have hd := toNat_digit h
  simp only [isDigit, Bool.and_eq_true, decide_eq_true_eq, UInt8.le_iff_toNat_le, hd]
  exact ⟨by simp, by simp; omega⟩

theorem isDigit_of_mem_digitsAux {fuel n : Nat} {b : UInt8} (h : b ∈ digitsAux fuel n) :
    isDigit b = true := by
  induction fuel generalizing n with
  | zero => cases h
  | succ fuel ih =>
      have hd : isDigit (UInt8.ofNat (48 + n % 10)) = true := isDigit_digit (Nat.mod_lt n (by omega))
      rw [digitsAux] at h
      split at h
      · rw [List.mem_singleton.mp h]
        exact hd
      · rcases List.mem_cons.mp h with rfl | h
        · exact hd
        · exact ih h

theorem isDigit_of_mem_ofNat {n : Nat} {b : UInt8} (h : b ∈ ofNat n) : isDigit b = true :=
  isDigit_of_mem_digitsAux (List.mem_reverse.mp h)

theorem isDigit_of_mem_ofInt {n : Int} {b : UInt8} (h : b ∈ ofInt n) :
    isDigit b = true ∨ b = 45 := by
  cases n with
  | ofNat n => exact .inl (isDigit_of_mem_ofNat h)
  | negSucc n =>
      rcases List.mem_cons.mp h with rfl | h
      · exact .inr rfl
      · exact .inl (isDigit_of_mem_ofNat h)

theorem notMem_ofInt {n : Int} {b : UInt8} (hd : isDigit b = false) (hm : b ≠ 45) : b ∉ ofInt n := by
  intro hb
  rcases isDigit_of_mem_ofInt hb with h | h
  · rw [hd] at h
    cases h
  · exact hm h

theorem decimalValue_append_digit (t : Text) (b : UInt8) :
    decimalValue (t ++ [b]) = 10 * decimalValue t + (b.toNat - 48) := by
  simp [decimalValue]

theorem decimalValue_reverse_digitsAux {fuel n : Nat} (h : n < fuel) :
    decimalValue (digitsAux fuel n).reverse = n := by
  induction fuel generalizing n with
  | zero => omega
  | succ fuel ih =>
      have hd := toNat_digit (Nat.mod_lt n (show 0 < 10 by omega))
      rw [digitsAux]
      split
      · rw [List.reverse_singleton, ← List.nil_append [_], decimalValue_append_digit, hd]
        simp only [decimalValue, List.foldl_nil]
        omega
      · rw [List.reverse_cons, decimalValue_append_digit, ih (by omega), hd]
        omega

theorem decimalValue_ofNat (n : Nat) : decimalValue (ofNat n) = n :=
  decimalValue_reverse_digitsAux (Nat.lt_succ_self n)

theorem ofNat_ne_nil (n : Nat) : ofNat n ≠ [] := by
  rw [ofNat, digitsAux]
  split <;> simp

theorem ofInt_ne_nil (n : Int) : ofInt n ≠ [] := by
  cases n with
  | ofNat n => exact ofNat_ne_nil n
  | negSucc n => exact List.cons_ne_nil _ _

end PatternGrammar.Text
