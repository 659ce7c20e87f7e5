import Mathlib.Data.List.GetD
import PatternGrammar.Proofs.Spelling
import PatternGrammar.Regex.Machine

/-!
# Characters of a subject

A place in a subject splits its text into the bytes in front and the bytes to come. A single item takes the whole
encoding of a character or nothing at all.
-/

namespace PatternGrammar

theorem Text.encode_ne_nil (c : Nat) : Text.encode c ≠ [] := by
  rw [ne_eq, ← List.length_eq_zero_iff, Text.length_encode, Text.encodedSize]
  grind

namespace Regex.Subject

section
variable {settings : Settings} {front t rest : Text} {c : Nat}

theorem size_ofText : (ofText t settings).size = t.length := by
  simp [ofText, ByteArray.size]

theorem byteAt_ofText (i : Nat) : (ofText t settings).byteAt i = (t.getD i 0).toNat := by
  rw [byteAt]
  split
  · next h =>
      have hi : i < t.length := by simpa [ofText, ByteArray.size] using h
      rw [List.getD_eq_getElem _ _ hi]
      simp [ofText, ByteArray.getElem_eq_getElem_data]
  · next h =>
      have hi : t.length ≤ i := by simpa [ofText, ByteArray.size] using h
      rw [List.getD_eq_default _ _ hi]
      rfl

theorem byteAt_append (i : Nat) :
    (ofText (front ++ t) settings).byteAt (front.length + i) = (t.getD i 0).toNat := by
  rw [byteAt_ofText, List.getD_append_right _ _ _ _ (Nat.le_add_right _ _), Nat.add_sub_cancel_left]

/-- Behind any bytes, a character is read as it has been encoded. -/
theorem charFrom_encode (hc : c < 0x110000) :
    let s := ofText (front ++ (Text.encode c ++ rest)) settings
    s.charFrom (s.byteAt front.length) front.length = c ∧
      sizeOf (s.byteAt front.length) = (Text.encode c).length := by
  have hn {n : Nat} (hn : n < 256) : (UInt8.ofNat n).toNat = n := UInt8.toNat_ofNat_of_lt' hn
  have hb (shift : Nat) :
      (UInt8.ofNat (0x80 + (c >>> shift) % 0x40)).toNat % 0x40 = (c >>> shift) % 0x40 := by
    rw [hn (by omega)]
    omega
  have h6 : c >>> 6 = c / 64 := Nat.shiftRight_eq_div_pow c 6
  have h12 : c >>> 12 = c / 4096 := Nat.shiftRight_eq_div_pow c 12
  have h18 : c >>> 18 = c / 262144 := Nat.shiftRight_eq_div_pow c 18
  have hzero := @byteAt_append settings front (Text.encode c ++ rest) 0
  rw [Nat.add_zero] at hzero
  dsimp only
  simp only [charFrom, sizeOf, bitsAt, byteAt_append, hzero]
  unfold Text.encode
  split
  · simp only [List.cons_append, List.nil_append, List.getD_cons_zero, hn (show c < 256 by omega)]
    rw [if_pos (by omega), if_pos (by omega)]
    exact ⟨rfl, rfl⟩
  · split
    · simp only [List.cons_append, List.nil_append, List.getD_cons_zero, List.getD_cons_succ, hb]
      rw [hn (by omega), if_neg (by omega), if_pos (by omega), if_neg (by omega), if_pos (by omega),
        Nat.shiftRight_zero, h6]
      exact ⟨by omega, rfl⟩
    · split
      · simp only [List.cons_append, List.nil_append, List.getD_cons_zero, List.getD_cons_succ, hb]
        rw [hn (by omega), if_neg (by omega), if_neg (by omega), if_pos (by omega), if_neg (by omega),
          if_neg (by omega), if_pos (by omega), Nat.shiftRight_zero, h6, h12]
        exact ⟨by omega, rfl⟩
      · simp only [List.cons_append, List.nil_append, List.getD_cons_zero, List.getD_cons_succ, hb]
        rw [hn (by omega), if_neg (by omega), if_neg (by omega), if_neg (by omega), if_neg (by omega),
          if_neg (by omega), if_neg (by omega), Nat.shiftRight_zero, h6, h12, h18]
        exact ⟨by omega, rfl⟩

theorem takeIf_encode (hc : c < 0x110000) (p : Nat → Bool) :
    (ofText (front ++ (Text.encode c ++ rest)) settings).takeIf front.length p =
      if p c then (front ++ Text.encode c).length else front.length := by
  obtain ⟨hchar, hsize⟩ := @charFrom_encode settings front rest c hc
  have hpos := List.length_pos_iff.mpr (Text.encode_ne_nil c)
  have hlt : ¬ (ofText (front ++ (Text.encode c ++ rest)) settings).size ≤ front.length := by
    rw [size_ofText, List.length_append, List.length_append]
    omega
  rw [takeIf, if_neg hlt]
  dsimp only
  rw [hchar, hsize, List.length_append]

end

end Regex.Subject

end PatternGrammar
