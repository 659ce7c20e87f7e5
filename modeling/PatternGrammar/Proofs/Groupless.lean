import PatternGrammar.Proofs.CaptureCount
import PatternGrammar.Proofs.Mapping
import PatternGrammar.Proofs.References

/-!
# Patterns without captures

A pattern that has lost its tags, names and includes has no groups, and the engine counts none in its
expression. What it matches may be something else: a node that captured had its own parentheses, and where
they were the only ones around a choice in a raw fragment, the choice takes in its neighbours.
-/

namespace PatternGrammar

/-! ## Nodes -/

/-- The texts of a node stay, so it is still read as a whole. -/
theorem Node.IsReadWhole.groupless {n : Node} (h : n.IsReadWhole) :
    (n.mapAttributes Attributes.withoutGroup).IsReadWhole := by
  cases n with
  | mk kind matcher includes options quantity =>
      refine ⟨h.words, fun text ht => ?_, fun source hs => ?_⟩
      · cases matcher with
        | literal other => exact h.literal text ht
        | fragment _ | nested _ => cases ht
      · cases matcher with
        | fragment other => exact h.fragment source hs
        | literal _ | nested _ => cases hs

/-! ## Trees -/

end PatternGrammar
