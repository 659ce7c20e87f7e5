import PatternGrammar.Proofs.Counts
import PatternGrammar.Proofs.InStep

/-!
# How the engine reads a quantifier

Behind something that can be repeated, the engine reads a quantifier as the repetition that it says: the bounds, which
have a limit, and the mode. The last piece is repeated, and the reader stands behind the quantifier.
-/

namespace PatternGrammar.Regex

/-! ## Counts -/

theorem isDigit_toNat (b : UInt8) : isDigit b.toNat = Text.isDigit b := by
  rw [Bool.eq_iff_iff]
  simp [isDigit, between, Text.isDigit, UInt8.le_iff_toNat_le]

section
variable {t : Text} {limit : Nat} {c : Nat} {rest : List Nat}

theorem le_decimalValue (t : Text) (n : Nat) : n ≤ t.foldl (fun value b => 10 * value + (b.toNat - 48)) n := by
  induction t generalizing n with
  | nil => exact Nat.le_refl n
  | cons b t ih => exact (show n ≤ 10 * n + (b.toNat - 48) by omega).trans (ih _)

/-- Digits that stay within the limit are read to their end. -/
theorem readBounded_digits (ht : ∀ b ∈ t, Text.isDigit b) (hc : isDigit c = false) (hl : t.decimalValue ≤ limit) :
    readBounded limit 0 (t.map (·.toNat) ++ c :: rest) = .value t.decimalValue (c :: rest) := by
  suffices hgeneral : ∀ n, t.foldl (fun value b => 10 * value + (b.toNat - 48)) n ≤ limit →
      readBounded limit n (t.map (·.toNat) ++ c :: rest) =
        .value (t.foldl (fun value b => 10 * value + (b.toNat - 48)) n) (c :: rest) from hgeneral 0 hl
  clear hl
  intro n hl
  induction t generalizing n with
  | nil => simp [readBounded, hc]
  | cons b t ih =>
      obtain ⟨hb, ht⟩ := List.forall_mem_cons.mp ht
      have hle := (le_decimalValue t (10 * n + (b.toNat - 48))).trans hl
      have hstep : n * 10 + (b.toNat - 48) = 10 * n + (b.toNat - 48) := by omega
      rw [List.map_cons, List.cons_append, readBounded, isDigit_toNat, hb, if_pos rfl, hstep,
        if_neg (Nat.not_lt.mpr hle)]
      exact ih ht _ hl

theorem dropWhile_digits (ht : ∀ b ∈ t, Text.isDigit b) (hc : isDigit c = false) :
    (t.map (·.toNat) ++ c :: rest).dropWhile isDigit = c :: rest := by
  rw [List.dropWhile_append_of_pos, List.dropWhile_cons_of_neg (by simp [hc])]
  intro d hd
  obtain ⟨b, hb, rfl⟩ := List.mem_map.mp hd
  rw [isDigit_toNat, ht b hb]

theorem startsWithDigit_digits (ht : IsDigits t) (rest : List Nat) : startsWithDigit (t.map (·.toNat) ++ rest) := by
  obtain ⟨b, t, rfl⟩ := List.exists_cons_of_ne_nil ht.1
  rw [List.map_cons, List.cons_append, startsWithDigit, List.head?_cons, Option.any_some, isDigit_toNat,
    ht.2 b List.mem_cons_self]

/-- The counts in braces are read as what they stand for if they are in order and stay within the limit. -/
theorem readCounts_digits {upper : Text} {most : Option Nat} (ht : IsDigits t)
    (hu : IsUpper t.decimalValue upper most) (hleast : t.decimalValue ≤ maxCount) (hmost : ∀ m ∈ most, m ≤ maxCount)
    (hle : ∀ m ∈ most, t.decimalValue ≤ m) :
    readCounts ((t ++ upper).map (·.toNat) ++ rest) = .counts t.decimalValue most rest := by
  have hbrace : isDigit Sign.closeBrace = false := by decide
  have hcomma : isDigit Sign.comma = false := by decide
  rw [List.map_append, List.append_assoc, readCounts, beginsWithCounts, startsWithDigit_digits ht]
  cases hu with
  | same =>
      have hupper : ("\x7d" : Text).map (·.toNat) = [Sign.closeBrace] := by decide
      rw [hupper, List.singleton_append, dropWhile_digits ht.2 hbrace, readBounded_digits ht.2 hbrace hleast]
      rfl
  | unbounded =>
      have hupper : (",\x7d" : Text).map (·.toNat) = [Sign.comma, Sign.closeBrace] := by decide
      rw [hupper, List.cons_append, dropWhile_digits ht.2 hcomma, readBounded_digits ht.2 hcomma hleast]
      rfl
  | @upTo m hm =>
      have hopening : ("," : Text).map (·.toNat) = [Sign.comma] := by decide
      have hclosing : ("\x7d" : Text).map (·.toNat) = [Sign.closeBrace] := by decide
      rw [List.map_append, List.map_append, hopening, hclosing, List.append_assoc, List.append_assoc,
        List.singleton_append, List.singleton_append, dropWhile_digits ht.2 hcomma,
        readBounded_digits ht.2 hcomma hleast]
      have hclose : ((m.map (·.toNat) ++ Sign.closeBrace :: rest).dropWhile isDigit).head? = some Sign.closeBrace := by
        rw [dropWhile_digits hm.2 hbrace]
        rfl
      have hread : readBounded maxCount 0 (m.map (·.toNat) ++ Sign.closeBrace :: rest) =
          .value m.decimalValue (Sign.closeBrace :: rest) := readBounded_digits hm.2 hbrace (hmost _ rfl)
      have hfirst := startsWithDigit_digits hm (Sign.closeBrace :: rest)
      have hordered : ¬ m.decimalValue < t.decimalValue := Nat.not_lt.mpr (hle _ rfl)
      generalize m.map (·.toNat) ++ Sign.closeBrace :: rest = u at hclose hread hfirst
      cases u with
      | nil => cases hclose
      | cons c u =>
          have hc : c ≠ Sign.closeBrace := by
            rintro rfl
            cases hfirst
          simp only [hclose]
          split
          · next h => cases h
          · split
            · next h => cases h
            · next h => exact absurd (List.cons.inj (Bounded.value.inj h).2).1 (by decide)
            · next h => exact absurd (List.cons.inj (List.cons.inj (Bounded.value.inj h).2).2).1 hc
            · next h =>
                obtain ⟨rfl, rfl⟩ := Bounded.value.inj h
                rw [List.drop_one, List.tail_cons, hread]
                simp only [if_neg hordered]
                rfl

end

/-! ## Quantifiers -/

/-- Bounds begin with a sign that begins a quantifier, and they are the whole of it. -/
theorem quantifierAt?_of_isBounds {bounds : Text} {least : Nat} {most : Option Nat} (h : IsBounds bounds least most)
    (hleast : least ≤ maxCount) (hmost : ∀ m ∈ most, m ≤ maxCount) (hle : ∀ m ∈ most, least ≤ m) :
    ∃ c ks, bounds.map (·.toNat) = c :: ks ∧ c ∈ [Sign.question, Sign.star, Sign.plus, Sign.openBrace] ∧
      ∀ rest, quantifierAt? c (ks ++ rest) = some (least, most, rest) := by
  cases h with
  | optional => exact ⟨Sign.question, [], rfl, by decide, fun _ => rfl⟩
  | star => exact ⟨Sign.star, [], rfl, by decide, fun _ => rfl⟩
  | plus => exact ⟨Sign.plus, [], rfl, by decide, fun _ => rfl⟩
  | @braces n upper most hn hu =>
      refine ⟨Sign.openBrace, (n ++ upper).map (·.toNat), ?_, by decide, fun rest => ?_⟩
      · rw [List.append_assoc]
        rfl
      · simp only [quantifierAt?, readCounts_digits hn hu hleast hmost hle]

/-- Behind a piece that may be repeated the signs repeat it so, whatever follows them. -/
def Quantifies (ks : List Nat) (times : Times) : Prop :=
  ∀ (s : ReadState) (r : List Nat), s.Steady → s.flags = {} → s.depth ≤ maxDepth → s.pieces ≠ [] →
    s.preceding = .repeatable → s.rest = ks ++ r →
      ∃ preceding spare, ∀ fuel,
        readItems (ks.length + fuel) s = readItems (fuel + spare) (s.mended r (Piece.quantified times) preceding)

theorem Piece.inMode_quantified (p : Piece) (times : Times) (mode : RepeatMode) :
    (p.quantified times).inMode mode = p.quantified { times with mode } := by
  cases p with
  | item i once =>
      cases i with
      | verb v => cases v <;> rfl
      | _ => rfl
  | _ => rfl

section
variable {s : ReadState} {c : Nat} {ks r : List Nat} {least : Nat} {most : Option Nat} {mode : RepeatMode}

theorem readNext_quantifier (hs : s.Steady) (hf : s.flags = {}) (hd : s.depth ≤ maxDepth) (hp : s.pieces ≠ [])
    (hr : s.preceding = .repeatable) (hc : c ∈ [Sign.question, Sign.star, Sign.plus, Sign.openBrace])
    (hq : quantifierAt? c ks = some (least, most, r)) :
    readNext c ks s = .ok ((), s.mended r (Piece.quantified { least, most }) .quantifier) := by
  have hnext : readNext c ks s = readItem c ks s := by
    refine readNext_eq hs hd ?_ ?_ <;> rintro rfl <;> exact absurd hc (by decide)
  rw [hnext, readItem_quantifier hs hq (by rw [hr]; nofun), readQuantifier_eq hp hr, hf]
  rfl

/-- A sign behind the bounds sets the mode. -/
theorem readNext_mode (hs : s.Steady) (hf : s.flags = {}) (hd : s.depth ≤ maxDepth) (hp : s.pieces ≠ [])
    (hq : s.preceding = .quantifier) (hm : modeAt? false c = some mode) :
    readNext c r s = .ok ((), s.mended r (Piece.inMode mode) .other) := by
  have hc : c = Sign.plus ∨ c = Sign.question := by
    unfold modeAt? at hm
    split at hm
    · exact .inl rfl
    · exact .inr rfl
    · cases hm
  have hnext : readNext c r s = readItem c r s := by
    refine readNext_eq hs hd ?_ ?_ <;> rintro rfl <;> exact absurd hc (by decide)
  rw [hnext, readItem_mode hs hp hq (by rw [hf]; exact hm)]

end

end PatternGrammar.Regex

namespace PatternGrammar

theorem IsDigits.ascii {t : Text} (h : IsDigits t) : ∀ b ∈ t, b.toNat < 128 := by
  intro b hb
  have hdigit := h.2 b hb
  rw [← Regex.isDigit_toNat] at hdigit
  simp only [Regex.isDigit, Regex.between, Bool.and_eq_true, decide_eq_true_eq] at hdigit
  omega

theorem IsQuantifier.ascii {t : Text} {q : Repetition} (h : IsQuantifier t q) : ∀ b ∈ t, b.toNat < 128 := by
  have hsigns (t : Text) (h : t.all (·.toNat < 128)) : ∀ b ∈ t, b.toNat < 128 := by simpa using h
  cases h with
  | once => exact hsigns _ rfl
  | @counted bounds least most mode hb =>
      refine List.forall_mem_append.mpr ⟨?_, hsigns _ (by cases mode <;> rfl)⟩
      cases hb with
      | optional | star | plus => exact hsigns _ rfl
      | braces hn hu =>
          refine List.forall_mem_append.mpr ⟨List.forall_mem_append.mpr ⟨hsigns _ rfl, hn.ascii⟩, ?_⟩
          cases hu with
          | same | unbounded => exact hsigns _ rfl
          | upTo hm =>
              exact List.forall_mem_append.mpr ⟨List.forall_mem_append.mpr ⟨hsigns _ rfl, hm.ascii⟩, hsigns _ rfl⟩

/-- The mode in which the engine repeats. -/
def Greediness.repeatMode : Greediness → Regex.RepeatMode
  | .greedy => .greedy
  | .lazy => .reluctant
  | .possessive => .possessive

/-- The engine repeats as often as the quantifier says, in the mode that it says. -/
theorem IsQuantifier.quantifies {t : Text} {least : Nat} {most : Option Nat} {mode : Greediness}
    (h : IsQuantifier t ⟨least, most, some mode⟩) (hleast : least ≤ Regex.maxCount)
    (hmost : ∀ m ∈ most, m ≤ Regex.maxCount) (hle : ∀ m ∈ most, least ≤ m) :
    Regex.Quantifies (t.map (·.toNat)) { least, most, mode := mode.repeatMode } := by
  cases h with
  | @counted bounds _ _ _ hb =>
      obtain ⟨c, ks, hk, hc, hq⟩ := Regex.quantifierAt?_of_isBounds hb hleast hmost hle
      intro s r hs hf hd hp hrep hr
      rw [List.map_append, hk] at hr ⊢
      have hrest : s.rest = c :: (ks ++ (mode.text.map (·.toNat) ++ r)) := by simpa using hr
      have hfirst := Regex.readNext_quantifier hs hf hd hp hrep hc (hq (mode.text.map (·.toNat) ++ r))
      obtain ⟨piece, pieces, hpieces⟩ := List.exists_cons_of_ne_nil hp
      -- behind the bounds there may be a sign that sets the mode
      have hsign (d : Nat) (hsigns : mode.text.map (·.toNat) = [d])
          (hm : Regex.modeAt? false d = some mode.repeatMode) :
          ∃ preceding spare, ∀ fuel, Regex.readItems ((c :: ks ++ mode.text.map (·.toNat)).length + fuel) s =
            Regex.readItems (fuel + spare)
              (s.mended r (Regex.Piece.quantified { least, most, mode := mode.repeatMode }) preceding) := by
        refine ⟨.other, ks.length, fun fuel => ?_⟩
        rw [hsigns] at hrest hfirst ⊢
        have hlength : (c :: ks ++ [d]).length + fuel = fuel + ks.length + 1 + 1 := by
          simp only [List.length_append, List.length_cons, List.length_nil]
          omega
        have hsecond :=
          Regex.readNext_mode (s := s.mended ([d] ++ r) (Regex.Piece.quantified { least, most }) .quantifier)
          (r := r) ⟨hs.quoted, hs.expects, hs.extended, hs.plainGroups, hs.numbers, hs.highest⟩ hf hd
          (by simp [Regex.ReadState.mended, hpieces]) rfl hm
        rw [hlength, Regex.readItems_cons hrest hfirst, Regex.readItems_cons rfl hsecond]
        simp only [Regex.ReadState.mended, hpieces, List.modifyHead, Regex.Piece.inMode_quantified]
      cases mode with
      | greedy =>
          refine ⟨.quantifier, ks.length, fun fuel => ?_⟩
          have hlength : (c :: ks ++ Greediness.greedy.text.map (·.toNat)).length + fuel = fuel + ks.length + 1 := by
            change (c :: ks ++ []).length + fuel = _
            rw [List.append_nil, List.length_cons]
            omega
          rw [hlength, Regex.readItems_cons hrest hfirst]
          rfl
      | lazy => exact hsign _ rfl rfl
      | possessive => exact hsign _ rfl rfl

end PatternGrammar
