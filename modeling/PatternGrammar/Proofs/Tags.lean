import Mathlib.Data.List.TakeWhile
import PatternGrammar.Pattern.Reference

/-!
# Tags without numbers

A tag may ask for the number of a group. One that does not is the same for every group under every number.
-/

namespace PatternGrammar

open Ascii

/-- The tag asks for a number: for that of its own group, or for that of a group by its name. -/
def AsksForNumber (tag : Text) : Prop :=
  ("$match" : Text) <:+: tag ∨
    ∃ name : Text, name ≠ [] ∧ closeParen ∉ name ∧
      ("$reference(" : Text) ++ name ++ (")" : Text) <:+: tag

theorem not_asksForNumber {tag : Text} (h : dollar ∉ tag) : ¬ AsksForNumber tag := by
  intro ha
  rcases ha with hm | ⟨name, -, -, hm⟩
  · exact h (hm.subset (by decide))
  · exact h (hm.subset (List.mem_append_left _ (List.mem_append_left _ (by decide))))

theorem eq_of_parenthesisName? {t name : Text} (h : parenthesisName? t = some name) :
    name ≠ [] ∧ closeParen ∉ name ∧ ∃ rest, t = name ++ (")" : Text) ++ rest := by
  have hsplit : t.takeWhile (· ≠ closeParen) ++ t.dropWhile (· ≠ closeParen) = t :=
    List.takeWhile_append_dropWhile
  unfold parenthesisName? at h
  simp only at h
  split at h
  · cases h
  · next hn =>
      cases h
      simp only [Bool.or_eq_true, List.isEmpty_iff, decide_eq_true_eq, not_or] at hn
      obtain ⟨hne, hl⟩ := hn
      refine ⟨hne, fun hm => ?_, ?_⟩
      · simpa using List.mem_takeWhile_imp hm
      · cases hd : t.dropWhile (· ≠ closeParen) with
        | nil =>
            rw [hd, List.append_nil] at hsplit
            exact absurd (congrArg List.length hsplit) hl
        | cons b rest =>
            have hb : b = closeParen := by
              have hstop := List.head?_dropWhile_not (· ≠ closeParen) t
              rw [hd] at hstop
              simpa using hstop
            refine ⟨rest, ?_⟩
            rw [hd, hb] at hsplit
            rw [List.append_assoc]
            exact hsplit.symm

theorem startingNumber?_eq_none {tag t : Text} (h : ¬ AsksForNumber tag) (ht : t <:+: tag) :
    startingNumber? t = none := by
  have hm : t.startsWith "$match" = false := by
    rw [Text.startsWith, Option.isSome_eq_false_iff, Option.isNone_iff_eq_none]
    cases ha : Text.afterStart? "$match" t with
    | none => rfl
    | some rest =>
        rw [Text.eq_append_of_afterStart? ha] at ht
        exact absurd (.inl ((List.prefix_append _ _).isInfix.trans ht)) h
  rw [startingNumber?, hm]
  cases ha : Text.afterStart? "$reference(" t with
  | none => rfl
  | some rest =>
      cases hn : parenthesisName? rest with
      | none => simp [hn]
      | some name =>
          obtain ⟨hne, hc, after, rfl⟩ := eq_of_parenthesisName? hn
          rw [Text.eq_append_of_afterStart? ha] at ht
          refine absurd (.inr ⟨name, hne, hc, ?_⟩) h
          refine List.IsInfix.trans ?_ ht
          exact (List.prefix_append _ after).isInfix

theorem fillTagPieces_eq {tag : Text} (h : ¬ AsksForNumber tag) (groups : List Group) (own : Int)
    {t : Text} (ht : t <:+ tag) : fillTagPieces groups own (tagPiecesAfter 0 t) = .ok t := by
  induction t with
  | nil => rfl
  | cons b t ih =>
      rw [tagPiecesAfter, startingNumber?_eq_none h ht.isInfix]
      simp only
      rw [fillTagPieces, ih ((List.suffix_cons b t).trans ht)]
      rfl

theorem resolveTag_eq {tag : Text} (h : ¬ AsksForNumber tag) (groups : List Group) (own : Int) :
    resolveTag groups own tag = .ok tag :=
  fillTagPieces_eq h groups own (List.suffix_refl tag)

end PatternGrammar
