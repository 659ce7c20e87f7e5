import PatternGrammar.Proofs.Passage
import PatternGrammar.Proofs.Resolution

/-!
# Texts that reading goes over

Texts stand for their code points. What emission writes around literals and fragments is passed wherever it
stands, and begins no group of its own.
-/

namespace PatternGrammar

open Ascii

/-! ## Code points -/

namespace Text

theorem codePoints_encode_append {c : Nat} (h : c < 0x110000) (t : Text) :
    codePoints (encode c ++ t) = c :: codePoints t := by
  have hn {n : Nat} (hn : n < 256) : (UInt8.ofNat n).toNat = n := UInt8.toNat_ofNat_of_lt' hn
  have hb (shift : Nat) :
      (UInt8.ofNat (0x80 + (c >>> shift) % 0x40)).toNat % 0x40 = (c >>> shift) % 0x40 := by
    rw [hn (by omega)]
    omega
  have h6 : c >>> 6 = c / 64 := Nat.shiftRight_eq_div_pow c 6
  have h12 : c >>> 12 = c / 4096 := Nat.shiftRight_eq_div_pow c 12
  have h18 : c >>> 18 = c / 262144 := Nat.shiftRight_eq_div_pow c 18
  unfold encode
  split
  · rw [List.cons_append, List.nil_append, codePoints.eq_def]
    simp only [hn (show c < 256 by omega)]
    rw [if_pos (by omega)]
  · split
    · have hl : (UInt8.ofNat (0xC0 + (c >>> 6))).toNat = 0xC0 + c / 64 := by rw [h6, hn (by omega)]
      simp only [List.cons_append, List.nil_append, codePoints, hl, extend, hb]
      rw [if_neg (by omega), if_pos (by omega), Nat.shiftRight_zero]
      congr 1
      omega
    · split
      · have hl : (UInt8.ofNat (0xE0 + (c >>> 12))).toNat = 0xE0 + c / 4096 := by
          rw [h12, hn (by omega)]
        simp only [List.cons_append, List.nil_append, codePoints, hl, extend, hb]
        rw [if_neg (by omega), if_neg (by omega), if_pos (by omega), Nat.shiftRight_zero, h6]
        congr 1
        omega
      · have hl : (UInt8.ofNat (0xF0 + (c >>> 18))).toNat = 0xF0 + c / 262144 := by
          rw [h18, hn (by omega)]
        simp only [List.cons_append, List.nil_append, codePoints, hl, extend, hb]
        rw [if_neg (by omega), if_neg (by omega), if_neg (by omega), Nat.shiftRight_zero, h6, h12]
        congr 1
        omega

theorem encode_toNat {b : UInt8} (h : b.toNat < 128) : encode b.toNat = [b] := by
  rw [encode, if_pos h, UInt8.ofNat_toNat]

/-- A character outside of ASCII is encoded by bytes outside of ASCII. -/
theorem le_toNat_of_mem_encode {c : Nat} (h : 128 ≤ c) (hc : c < 0x110000) {b : UInt8}
    (hb : b ∈ encode c) : 128 ≤ b.toNat := by
  have hn {n : Nat} (hn : n < 256) : (UInt8.ofNat n).toNat = n := UInt8.toNat_ofNat_of_lt' hn
  have h6 : c >>> 6 = c / 64 := Nat.shiftRight_eq_div_pow c 6
  have h12 : c >>> 12 = c / 4096 := Nat.shiftRight_eq_div_pow c 12
  have h18 : c >>> 18 = c / 262144 := Nat.shiftRight_eq_div_pow c 18
  unfold encode at hb
  rw [if_neg (by omega)] at hb
  split at hb
  · simp only [List.mem_cons, List.not_mem_nil, or_false] at hb
    rcases hb with rfl | rfl <;> rw [hn (by omega)] <;> omega
  · split at hb
    · simp only [List.mem_cons, List.not_mem_nil, or_false] at hb
      rcases hb with rfl | rfl | rfl <;> rw [hn (by omega)] <;> omega
    · simp only [List.mem_cons, List.not_mem_nil, or_false] at hb
      rcases hb with rfl | rfl | rfl | rfl <;> rw [hn (by omega)] <;> omega

end Text

/-- The text is the encoding of these code points. -/
structure Spells (t : Text) (cs : List Nat) : Prop where
  valid : ∀ c ∈ cs, c < 0x110000
  eq : t = Text.ofCodePoints cs

namespace Spells

variable {s t : Text} {cs ds : List Nat}

theorem nil : Spells [] [] := ⟨by simp, rfl⟩

theorem append (hs : Spells s cs) (ht : Spells t ds) : Spells (s ++ t) (cs ++ ds) := by
  refine ⟨List.forall_mem_append.mpr ⟨hs.valid, ht.valid⟩, ?_⟩
  rw [hs.eq, ht.eq, Text.ofCodePoints, Text.ofCodePoints, Text.ofCodePoints, List.flatMap_append]

theorem ascii (h : ∀ b ∈ t, b.toNat < 128) : Spells t (t.map (·.toNat)) := by
  induction t with
  | nil => exact nil
  | cons b t ih =>
      obtain ⟨hb, ht⟩ := List.forall_mem_cons.mp h
      have hs : Spells [b] [b.toNat] := by
        refine ⟨by simp; omega, ?_⟩
        rw [Text.ofCodePoints, List.flatMap_singleton, Text.encode_toNat hb]
      exact hs.append (ih ht)

theorem closeParen : Spells ")" [Regex.Sign.closeParen] :=
  ascii (List.all_iff_forall_prop.mp (by decide))

/-- An ASCII character in front is a byte. -/
theorem eq_cons {c : Nat} (h : Spells t (c :: cs)) (hc : c < 128) :
    t = UInt8.ofNat c :: Text.ofCodePoints cs := by
  have he : Text.encode c = [UInt8.ofNat c] := if_pos hc
  rw [h.eq, Text.ofCodePoints, List.flatMap_cons, he]
  rfl

theorem codePoints_append (h : Spells s cs) (t : Text) :
    Text.codePoints (s ++ t) = cs ++ Text.codePoints t := by
  obtain ⟨hv, rfl⟩ := h
  induction cs with
  | nil => rfl
  | cons c cs ih =>
      obtain ⟨hc, hcs⟩ := List.forall_mem_cons.mp hv
      rw [Text.ofCodePoints, List.flatMap_cons, List.append_assoc,
        Text.codePoints_encode_append hc, ← Text.ofCodePoints, ih hcs, List.cons_append]

theorem codePoints_eq (h : Spells t cs) : Text.codePoints t = cs := by
  have hc := h.codePoints_append []
  rwa [List.append_nil, Text.codePoints, List.append_nil] at hc

end Spells

/-! ## Texts without groups of their own -/

/-- The byte is an item of its own. -/
def PassesText.isSingleByte (b : UInt8) : Bool :=
  b.toNat < 128 && b != openParen && b != closeParen && b != openBracket && b != backslash &&
    b != openBrace

theorem lt_of_isSingleByte {b : UInt8} (h : PassesText.isSingleByte b) : b.toNat < 128 := by
  simp only [PassesText.isSingleByte, Bool.and_eq_true, decide_eq_true_eq] at h
  exact h.1.1.1.1.1

theorem escapeRegex_of_ge {t : Text} (h : ∀ b ∈ t, 128 ≤ b.toNat) : escapeRegex t = t := by
  induction t with
  | nil => rfl
  | cons b t ih =>
      obtain ⟨hb, ht⟩ := List.forall_mem_cons.mp h
      have hm : b ∉ escapedBytes := by
        have ha : ∀ b ∈ escapedBytes, b.toNat < 128 := List.all_iff_forall_prop.mp (by decide)
        intro hm
        exact absurd (ha b hm) (by omega)
      have hc : controlLetter? b = none := by
        have ha : ∀ c ∈ ([10, 9, 13, 12, 11] : Text), c.toNat < 128 :=
          List.all_iff_forall_prop.mp (by decide)
        have hne : ∀ c ∈ ([10, 9, 13, 12, 11] : Text), b ≠ c := fun c hc hbc =>
          absurd (ha c hc) (by rw [← hbc]; omega)
        simp only [List.forall_mem_cons, List.not_mem_nil, false_imp_iff, implies_true,
          and_true] at hne
        simp [controlLetter?, hne]
      rw [escapeRegex_cons, PatternGrammar.escapeByte, hc, ih ht]
      simp [hm]

/-- What stands behind the question mark of an opening. -/
theorem signs_of_mem_plainOpenings {opening : Text} (h : opening ∈ plainOpenings) :
    ∃ signs ∈ [Regex.Sign.colon] :: [Regex.Sign.greater] :: Regex.lookSigns,
      opening.map (·.toNat) = Regex.Sign.openParen :: Regex.Sign.question :: signs := by
  have ha : ∀ opening ∈ plainOpenings,
      ∃ signs ∈ [Regex.Sign.colon] :: [Regex.Sign.greater] :: Regex.lookSigns,
        opening.map (·.toNat) = Regex.Sign.openParen :: Regex.Sign.question :: signs := by
    decide
  exact ha opening h

theorem isSingleByte_of_isCountByte {b : UInt8} (h : isCountByte b) :
    PassesText.isSingleByte b ∧ b ≠ closeBrace := by
  simp only [isCountByte, Text.isDigit, Bool.or_eq_true, Bool.and_eq_true, decide_eq_true_eq,
    beq_iff_eq, UInt8.le_iff_toNat_le, ← UInt8.toNat_inj] at h
  simp only [PassesText.isSingleByte, Bool.and_eq_true, decide_eq_true_eq, bne_iff_ne, ne_eq,
    ← UInt8.toNat_inj]
  have hm : minus.toNat = 45 ∧ comma.toNat = 44 ∧ openParen.toNat = 40 ∧ closeParen.toNat = 41 ∧
      openBracket.toNat = 91 ∧ backslash.toNat = 92 ∧ openBrace.toNat = 123 ∧
      closeBrace.toNat = 125 := by
    decide
  simp at h
  omega

/-- The text between parentheses of which the first has such signs behind it. -/
theorem Spells.group {opening t : Text} {cs : List Nat} (ho : opening ∈ plainOpenings) (h : Spells t cs) :
    ∃ signs ∈ [Regex.Sign.colon] :: [Regex.Sign.greater] :: Regex.lookSigns,
      Spells (opening ++ t ++ ")") (Regex.Sign.openParen :: (Regex.Sign.question :: signs ++ cs ++
        [Regex.Sign.closeParen])) := by
  obtain ⟨signs, hg, he⟩ := signs_of_mem_plainOpenings ho
  have ha : ∀ opening ∈ plainOpenings, opening.all (·.toNat < 128) := by
    decide
  have hopening := Spells.ascii (List.all_iff_forall_prop.mp (ha opening ho))
  rw [he] at hopening
  exact ⟨signs, hg, (hopening.append h).append .closeParen⟩

/-- The text spells characters with this property. -/
def Spelled (Q : List Nat → Prop) (t : Text) : Prop := ∃ cs, Spells t cs ∧ Q cs

namespace Spelled

variable {Q : List Nat → Prop} {s t : Text}

theorem ascii (h : ∀ b ∈ t, b.toNat < 128) (ht : Q (t.map (·.toNat))) : Spelled Q t := ⟨_, .ascii h, ht⟩

section
variable (hQ : Regex.IsPassable Q)
include hQ

theorem nil : Spelled Q [] := ⟨[], .nil, hQ.nil⟩

theorem append (hs : Spelled Q s) (ht : Spelled Q t) : Spelled Q (s ++ t) := by
  obtain ⟨cs, hcs, hs⟩ := hs
  obtain ⟨ds, hds, ht⟩ := ht
  exact ⟨cs ++ ds, hcs.append hds, hQ.append hs ht⟩

theorem of_singles (h : ∀ b ∈ t, PassesText.isSingleByte b) : Q (t.map (·.toNat)) := by
  simp only [PassesText.isSingleByte, Bool.and_eq_true, decide_eq_true_eq, bne_iff_ne] at h
  refine hQ.singles fun c hc => ?_
  obtain ⟨b, hb, rfl⟩ := List.mem_map.mp hc
  obtain ⟨⟨⟨⟨⟨-, h1⟩, h2⟩, h3⟩, h4⟩, h5⟩ := h b hb
  simp only [ne_eq, ← UInt8.toNat_inj] at h1 h2 h3 h4 h5
  simp only [List.mem_cons, List.not_mem_nil, or_false, not_or]
  exact ⟨h1, h2, h3, h4, h5⟩

theorem singles (h : ∀ b ∈ t, PassesText.isSingleByte b) : Spelled Q t :=
  ascii (fun b hb => lt_of_isSingleByte (h b hb)) (of_singles hQ h)

theorem escapeByte {c : UInt8} (hc : c.toNat < 128) : Spelled Q (escapeByte c) := by
  unfold PatternGrammar.escapeByte
  split
  · next letter hl =>
      have hm : letter ∈ ([98, 102, 110, 114, 116, 118] : Text) := by
        unfold controlLetter? at hl
        grind
      have ha : ∀ b ∈ ([98, 102, 110, 114, 116, 118] : Text), b.toNat < 128 ∧
          b.toNat ∈ [98, 102, 110, 114, 116, 118] := List.all_iff_forall_prop.mp (by decide)
      obtain ⟨hlt, hmem⟩ := ha letter hm
      exact ascii (by simpa using ⟨by decide, hlt⟩) (hQ.escapedLetter hmem)
  · split
    · next hm =>
        have ha : ∀ b ∈ escapedBytes, Regex.CharClass.alnum.holds b.toNat = false :=
          List.all_iff_forall_prop.mp (by decide)
        exact ascii (by simpa using ⟨by decide, hc⟩) (hQ.escapedSign (ha c hm))
    · next hm =>
        refine singles hQ fun b hb => ?_
        obtain rfl := List.mem_singleton.mp hb
        have ha : ∀ c ∈ [openParen, closeParen, openBracket, backslash, openBrace],
            c ∈ escapedBytes := List.all_iff_forall_prop.mp (by decide)
        have hne : ∀ c ∈ [openParen, closeParen, openBracket, backslash, openBrace], b ≠ c :=
          fun c hc hbc => hm (hbc ▸ ha c hc)
        simp only [List.forall_mem_cons, List.not_mem_nil, false_imp_iff, implies_true,
          and_true] at hne
        simp [PassesText.isSingleByte, hc, hne]

/-- A literal is passed character by character, each with its backslash if it has one. -/
theorem escapeRegex {cs : List Nat} (h : Spells t cs) : Spelled Q (escapeRegex t) := by
  obtain ⟨hv, rfl⟩ := h
  induction cs with
  | nil => exact nil hQ
  | cons c cs ih =>
      obtain ⟨hc, hcs⟩ := List.forall_mem_cons.mp hv
      rw [Text.ofCodePoints, List.flatMap_cons, ← Text.ofCodePoints, escapeRegex_append]
      refine append hQ ?_ (ih hcs)
      by_cases ha : c < 128
      · have he : Text.encode c = [UInt8.ofNat c] := if_pos ha
        rw [he, escapeRegex_cons, escapeRegex_nil, List.append_nil]
        refine escapeByte hQ ?_
        rwa [UInt8.toNat_ofNat_of_lt' (show c < 256 by omega)]
      · rw [escapeRegex_of_ge fun b hb => Text.le_toNat_of_mem_encode (by omega) hc hb]
        have hs : ∀ d ∈ [Regex.Sign.openParen, Regex.Sign.closeParen, Regex.Sign.openBracket,
            Regex.Sign.backslash, Regex.Sign.openBrace], d < 128 := by decide
        exact ⟨[c], ⟨by simpa using hc, by simp [Text.ofCodePoints]⟩, hQ.single fun h => ha (hs c h)⟩

theorem group {opening : Text} (ho : opening ∈ plainOpenings) (h : Spelled Q t) :
    Spelled Q (opening ++ t ++ ")") := by
  obtain ⟨cs, hs, h⟩ := h
  obtain ⟨signs, hg, hgroup⟩ := hs.group ho
  exact ⟨_, hgroup, hQ.plainGroup hg h⟩

/-- Nothing is left open by an assertion about words. -/
theorem wordsAssertion {words : Option (List Text)} (h : ∀ w ∈ words.getD [], ∃ cs, Spells w cs) :
    Spelled Q (Quantity.wordsAssertion words) := by
  apply Quantity.wordsAssertion_induction (Q := fun t => Spelled Q t) (nil hQ)
  · exact fun s t hs ht => append hQ hs ht
  · exact singles hQ (List.all_iff_forall_prop.mp (by decide))
  · intro w hw
    obtain ⟨cs, hs⟩ := h w hw
    exact escapeRegex hQ hs
  · exact ascii (List.all_iff_forall_prop.mp (by decide)) (hQ.escapedLetter (by decide))
  · intro opening ho t ht
    have hn : ∀ opening ∈ (["(?!", "(?:"] : List Text), opening ∈ plainOpenings := by decide
    exact group hQ (hn opening ho) ht

theorem counts {inner : Text} (h : ∀ b ∈ inner, isCountByte b) : Spelled Q ("\x7b" ++ inner ++ "\x7d") := by
  have hclose : ∀ b ∈ ("\x7d" : Text), PassesText.isSingleByte b := List.all_iff_forall_prop.mp (by decide)
  have hi : ∀ b ∈ inner ++ "\x7d", PassesText.isSingleByte b :=
    List.forall_mem_append.mpr ⟨fun b hb => (isSingleByte_of_isCountByte (h b hb)).1, hclose⟩
  have ha : ∀ b ∈ ("\x7b" : Text) ++ (inner ++ "\x7d"), b.toNat < 128 := by
    refine List.forall_mem_append.mpr ⟨List.all_iff_forall_prop.mp (by decide), fun b hb => ?_⟩
    exact lt_of_isSingleByte (hi b hb)
  have hp : Q ((inner ++ "\x7d").map (·.toNat)) := of_singles hQ hi
  rw [List.map_append] at hp
  rw [List.append_assoc]
  refine ascii ha ?_
  rw [List.map_append, List.map_append]
  refine hQ.counts ?_ hp
  intro hm
  obtain ⟨b, hb, he⟩ := List.mem_map.mp hm
  exact (isSingleByte_of_isCountByte (h b hb)).2 (UInt8.toNat_inj.mp he)

theorem quantifier (q : Quantity) (possessive lazy : Bool) : Spelled Q (q.quantifier possessive lazy) := by
  have hb : Spelled Q q.boundsText := by
    rcases q.boundsText_cases with h | ⟨inner, hi, he⟩
    · have ha : ∀ t ∈ (["", "?", "*", "+"] : List Text), t.all PassesText.isSingleByte := by decide
      exact singles hQ (List.all_eq_true.mp (ha _ h))
    · rw [he]
      exact counts hQ hi
  simp only [Quantity.quantifier]
  split
  · exact hb
  · refine append hQ hb (singles hQ ?_)
    cases possessive <;> cases lazy <;> exact List.all_iff_forall_prop.mp (by decide)

end

end Spelled

/-! ## Passages -/

/-- Wherever it stands between items, reading goes over the text, and groups begin in front of `opens`. -/
def PassesText (digit : Bool) (t : Text) (opens : List (List Nat)) : Prop :=
  ∃ cs, Spells t cs ∧ Regex.Passes digit cs opens

namespace PassesText

variable {digit : Bool} {s t : Text} {a b : List (List Nat)}

theorem nil : PassesText digit [] [] := ⟨[], .nil, .nil⟩

theorem mono {d : Bool} (h : PassesText d t a) (hd : digit → d) : PassesText digit t a := by
  obtain ⟨cs, hs, hp⟩ := h
  exact ⟨cs, hs, hp.mono hd⟩

theorem append {d : Bool} (hs : PassesText d s a) (ht : PassesText digit t b)
    (hd : Regex.startsWithDigit (Text.codePoints t) → d) (hn : t = [] → digit → d) :
    PassesText digit (s ++ t) (a.map (· ++ Text.codePoints t) ++ b) := by
  obtain ⟨cs, hcs, hpc⟩ := hs
  obtain ⟨ds, hds, hpd⟩ := ht
  rw [hds.codePoints_eq] at hd ⊢
  refine ⟨cs ++ ds, hcs.append hds, hpc.append hpd hd ?_⟩
  rintro rfl
  exact hn hds.eq

/-- Texts without groups, which may have a digit behind them. -/
theorem append_nil (hs : PassesText true s []) (ht : PassesText digit t []) :
    PassesText digit (s ++ t) [] :=
  hs.append ht (fun _ => rfl) fun _ _ => rfl

theorem ascii (h : ∀ b ∈ t, b.toNat < 128) (hp : Regex.Passes digit (t.map (·.toNat)) a) :
    PassesText digit t a :=
  ⟨_, .ascii h, hp⟩

theorem of_spelled (h : Spelled (Regex.Passes true · []) t) : PassesText digit t [] :=
  mono h fun _ => rfl

theorem singles (h : ∀ b ∈ t, isSingleByte b) : PassesText digit t [] :=
  of_spelled (Spelled.singles Regex.Passes.isPassable h)

theorem escapeRegex {cs : List Nat} (h : Spells t cs) : PassesText true (escapeRegex t) [] :=
  Spelled.escapeRegex Regex.Passes.isPassable h

theorem group {opening : Text} (ho : opening ∈ plainOpenings) (h : PassesText false t a) :
    PassesText digit (opening ++ t ++ ")") (a.map (· ++ [Regex.Sign.closeParen])) := by
  obtain ⟨cs, hs, hp⟩ := h
  obtain ⟨signs, hg, hgroup⟩ := hs.group ho
  exact ⟨_, hgroup, .plainGroup hg hp⟩

theorem wordsAssertion {words : Option (List Text)} (h : ∀ w ∈ words.getD [], ∃ cs, Spells w cs) :
    PassesText true (Quantity.wordsAssertion words) [] :=
  Spelled.wordsAssertion Regex.Passes.isPassable h

theorem quantifier (q : Quantity) (possessive lazy : Bool) :
    PassesText true (q.quantifier possessive lazy) [] :=
  Spelled.quantifier Regex.Passes.isPassable q possessive lazy

/-! ## References -/

/-- The digits of a number as code points. -/
theorem digits_ofNat (n : Nat) :
    (∀ b ∈ Text.ofNat n, b.toNat < 128) ∧ (Text.ofNat n).map (·.toNat) ≠ [] ∧
      ∀ c ∈ (Text.ofNat n).map (·.toNat), Regex.isDigit c := by
  have hd : ∀ b ∈ Text.ofNat n, 48 ≤ b.toNat ∧ b.toNat ≤ 57 := by
    intro b hb
    have hd := Text.isDigit_of_mem_ofNat hb
    simpa [Text.isDigit, UInt8.le_iff_toNat_le] using hd
  refine ⟨fun b hb => by have := hd b hb; omega, ?_, ?_⟩
  · simpa using Text.ofNat_ne_nil n
  · intro c hc
    obtain ⟨b, hb, rfl⟩ := List.mem_map.mp hc
    simpa [Regex.isDigit, Regex.between] using hd b hb

theorem backReference (number : Int) : PassesText false ("\\" ++ Text.ofInt number) [] := by
  have hs : ∀ b ∈ ("\\" : Text), b.toNat < 128 := List.all_iff_forall_prop.mp (by decide)
  cases number with
  | ofNat n =>
      obtain ⟨ha, hn, hd⟩ := digits_ofNat n
      exact ascii (List.forall_mem_append.mpr ⟨hs, ha⟩) (.backReference hn hd)
  | negSucc n =>
      obtain ⟨ha, -, hd⟩ := digits_ofNat (n + 1)
      have hsign : PassesText true [92, 45] [] :=
        ascii (List.all_iff_forall_prop.mp (by decide)) (.escapedSign (by decide))
      exact hsign.append_nil (ascii ha (.digits hd))

theorem subroutine (number : Int) :
    PassesText digit ("\\g<" ++ Text.ofInt number ++ ">") [] := by
  have hopen : ∀ b ∈ ("\\g<" : Text), b.toNat < 128 := List.all_iff_forall_prop.mp (by decide)
  have hclose : ∀ b ∈ (">" : Text), b.toNat < 128 := List.all_iff_forall_prop.mp (by decide)
  have hg {cs : List Nat} (hd : ∀ c ∈ cs, Regex.isDigit c) : Regex.Sign.greater ∉ cs := fun hm =>
    absurd (hd _ hm) (by decide)
  have hstart {cs : List Nat} (hn : cs ≠ []) (hd : ∀ c ∈ cs, Regex.isDigit c) :
      Regex.startsWithDigit cs := by
    obtain ⟨c, cs, rfl⟩ := List.exists_cons_of_ne_nil hn
    exact hd c List.mem_cons_self
  have hp {t : Text} (ha : ∀ b ∈ t, b.toNat < 128)
      (hn : Regex.Sign.greater ∉ t.map (·.toNat))
      (hs : Regex.startsWithDigit (t.map (·.toNat)) ∨ ∃ digits,
        t.map (·.toNat) = Regex.Sign.hyphen :: digits ∧ Regex.startsWithDigit digits) :
      PassesText digit ("\\g<" ++ t ++ ">") [] := by
    refine ascii ?_ ?_
    · simp only [List.forall_mem_append]
      exact ⟨⟨hopen, ha⟩, hclose⟩
    · rw [List.map_append, List.map_append, List.append_assoc]
      exact .subroutine hn hs
  cases number with
  | ofNat n =>
      obtain ⟨ha, hn, hd⟩ := digits_ofNat n
      exact hp ha (hg hd) (.inl (hstart hn hd))
  | negSucc n =>
      obtain ⟨ha, hn, hd⟩ := digits_ofNat (n + 1)
      refine hp (List.forall_mem_cons.mpr ⟨by decide, ha⟩) ?_ (.inr ⟨_, rfl, hstart hn hd⟩)
      change Regex.Sign.greater ∉ Regex.Sign.hyphen :: (Text.ofNat (n + 1)).map (·.toNat)
      rw [List.mem_cons]
      exact not_or.mpr ⟨by decide, hg hd⟩

/-- A digit behind a back-reference is kept out of its number. -/
theorem render (kind : ReferenceKind) (number : Int) :
    PassesText digit (kind.render number digit) [] := by
  cases kind with
  | subroutine => exact subroutine number
  | backReference =>
      cases digit with
      | false =>
          have hn : PassesText false [] [] := nil
          exact (backReference number).append hn nofun nofun
      | true =>
          have ho : ("(?:" : Text) ∈ plainOpenings := by decide
          exact (backReference number).append (group ho nil) (by decide) nofun

end PassesText

end PatternGrammar
