import Mathlib.Data.Bool.AllAny
import PatternGrammar.Proofs.Decimal
import PatternGrammar.Proofs.Pieces

/-!
# What emission writes

The texts that emission puts next to the matchers: escaped bytes, quantifiers, excluded words and the
openings of groups. Properties of whole texts follow from these few parts.
-/

namespace PatternGrammar

open Ascii

/-! ## Escaped text -/

theorem escapeByte_cases (b : UInt8) :
    (∃ c, escapeByte b = [backslash, c]) ∨ (escapeByte b = [b] ∧ b ∉ escapedBytes) := by
  unfold escapeByte
  split
  · next letter _ => exact .inl ⟨letter, rfl⟩
  · split
    · exact .inl ⟨b, rfl⟩
    · next hb => exact .inr ⟨rfl, hb⟩

theorem escapeRegex_induction {Q : Text → Prop} (nil : Q [])
    (append : ∀ s t, Q s → Q t → Q (s ++ t)) (byte : ∀ b, Q (escapeByte b)) (t : Text) :
    Q (escapeRegex t) := by
  induction t with
  | nil => exact nil
  | cons b t ih =>
      rw [escapeRegex_cons]
      exact append _ _ (byte b) ih

/-! ## Excluded words -/

theorem Quantity.words_induction {Q : Text → Prop} (append : ∀ s t, Q s → Q t → Q (s ++ t))
    (bar : Q "|") {words : List Text} (word : ∀ w ∈ words, Q (escapeRegex w)) {before : Text}
    (h : Q before) : Q (words.foldl Quantity.addWord before) := by
  induction words generalizing before with
  | nil => exact h
  | cons w words ih =>
      obtain ⟨hw, hws⟩ := List.forall_mem_cons.mp word
      rw [List.foldl_cons]
      apply ih hws
      unfold Quantity.addWord
      split
      · exact append _ _ h hw
      · exact append _ _ (append _ _ h bar) hw

theorem Quantity.wordsAssertion_cons (w : Text) (ws : List Text) :
    wordsAssertion (some (w :: ws)) =
      "(?!" ++ ("\\b" ++ ("(?:" ++ (w :: ws).foldl addWord [] ++ ")") ++ "\\b") ++ ")" := by
  have ho : ("(?!\\b(?:" : Text) = "(?!" ++ ("\\b" ++ "(?:") := rfl
  have hc : (")\\b)" : Text) = ")" ++ ("\\b" ++ ")") := rfl
  rw [wordsAssertion, ho, hc]
  · simp only [List.append_assoc]
  · simp

theorem Quantity.wordsAssertion_induction {Q : Text → Prop} {words : Option (List Text)}
    (nil : Q []) (append : ∀ s t, Q s → Q t → Q (s ++ t)) (bar : Q "|")
    (word : ∀ w ∈ words.getD [], Q (escapeRegex w)) (boundary : Q "\\b")
    (group : ∀ opening ∈ (["(?!", "(?:"] : List Text), ∀ t, Q t → Q (opening ++ t ++ ")")) :
    Q (wordsAssertion words) := by
  match words with
  | none => exact nil
  | some [] => exact nil
  | some (w :: ws) =>
      have hw : Q ((w :: ws).foldl addWord []) := words_induction append bar word nil
      have hi : Q ("\\b" ++ ("(?:" ++ (w :: ws).foldl addWord [] ++ ")") ++ "\\b") :=
        append _ _ (append _ _ boundary (group _ (by decide) _ hw)) boundary
      rw [wordsAssertion_cons]
      exact group "(?!" (by decide) _ hi

/-! ## Quantifiers -/

/-- A byte of a quantifier. -/
def isQuantifierByte (b : UInt8) : Bool :=
  Text.isDigit b || b == minus || b == question || b == plus || b == 42 || b == comma ||
    b == openBrace || b == closeBrace

theorem isQuantifierByte_ofInt (n : Int) : ∀ b ∈ Text.ofInt n, isQuantifierByte b := by
  intro b hb
  rcases Text.isDigit_of_mem_ofInt hb with h | rfl
  · simp [isQuantifierByte, h]
  · decide

/-- A byte between the braces of a quantifier. -/
def isCountByte (b : UInt8) : Bool := Text.isDigit b || b == minus || b == comma

theorem isCountByte_ofInt (n : Int) : ∀ b ∈ Text.ofInt n, isCountByte b := by
  intro b hb
  rcases Text.isDigit_of_mem_ofInt hb with h | rfl
  · simp [isCountByte, h]
  · decide

theorem Quantity.boundsText_cases (q : Quantity) :
    q.boundsText ∈ (["", "?", "*", "+"] : List Text) ∨
      ∃ inner, (∀ b ∈ inner, isCountByte b) ∧ q.boundsText = "\x7b" ++ inner ++ "\x7d" := by
  have hl := isCountByte_ofInt q.lower
  have hcomma : ∀ b ∈ ("," : Text), isCountByte b := List.all_iff_forall_prop.mp (by decide)
  unfold boundsText
  split
  · exact .inl (by decide)
  · split
    · next most _ =>
        have hm := isCountByte_ofInt most
        split
        · exact .inl (by decide)
        · split
          · exact .inl (by decide)
          · split
            · exact .inr ⟨_, hm, rfl⟩
            · refine .inr ⟨Text.ofInt q.lower ++ "," ++ Text.ofInt most, ?_, ?_⟩
              · simp only [List.forall_mem_append]
                exact ⟨⟨hl, hcomma⟩, hm⟩
              · simp only [List.append_assoc]
    · split
      · exact .inl (by decide)
      · split
        · exact .inl (by decide)
        · refine .inr ⟨Text.ofInt q.lower ++ ",", ?_, ?_⟩
          · simp only [List.forall_mem_append]
            exact ⟨hl, hcomma⟩
          · have he : (",\x7d" : Text) = "," ++ "\x7d" := rfl
            rw [he]
            simp only [List.append_assoc]

theorem Quantity.isQuantifierByte_boundsText (q : Quantity) :
    ∀ b ∈ q.boundsText, isQuantifierByte b := by
  rcases q.boundsText_cases with h | ⟨inner, hi, he⟩
  · have ha : ∀ t ∈ (["", "?", "*", "+"] : List Text), t.all isQuantifierByte := by decide
    exact List.all_eq_true.mp (ha _ h)
  · have hbrace : ∀ b ∈ ("\x7b" : Text), isQuantifierByte b := List.all_iff_forall_prop.mp (by decide)
    have hclose : ∀ b ∈ ("\x7d" : Text), isQuantifierByte b := List.all_iff_forall_prop.mp (by decide)
    have hcount : ∀ b ∈ inner, isQuantifierByte b := by
      intro b hb
      have hc := hi b hb
      simp only [isCountByte, Bool.or_eq_true] at hc
      rcases hc with (hc | hc) | hc <;> simp [isQuantifierByte, hc]
    rw [he]
    simp only [List.forall_mem_append]
    exact ⟨⟨hbrace, hcount⟩, hclose⟩

theorem Quantity.isQuantifierByte_quantifier (q : Quantity) (dontBackTrack asFewAsPossible : Bool) :
    ∀ b ∈ q.quantifier dontBackTrack asFewAsPossible, isQuantifierByte b := by
  have hb := q.isQuantifierByte_boundsText
  simp only [quantifier]
  split
  · exact hb
  · rw [List.forall_mem_append]
    refine ⟨hb, ?_⟩
    cases dontBackTrack <;> cases asFewAsPossible <;> exact List.all_iff_forall_prop.mp (by decide)

/-! ## Lookarounds -/

theorem Kind.mem_of_lookAroundOpening? {kind : Kind} {opening : Text}
    (h : kind.lookAroundOpening? = some opening) :
    opening ∈ (["(?=", "(?!", "(?<=", "(?<!"] : List Text) := by
  cases kind <;> cases h <;> decide

end PatternGrammar
