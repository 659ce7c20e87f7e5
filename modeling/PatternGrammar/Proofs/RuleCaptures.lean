import PatternGrammar.Proofs.Dictionary
import PatternGrammar.Proofs.Numbering

/-!
# Captures of a rule

The captures of a rule stand under the numbers of the groups of its pattern, and under no other keys. Each
holds what the node of its group has declared.
-/

namespace PatternGrammar

/-! ## Includes -/

mutual
/-- What the includes stand for is listed as the groups are, group by group. -/
theorem Pattern.includeReferences_eq (i : NodeId) (start : Int) :
    (p : Pattern) → p.includeReferences = (p.groupsFrom i start).map Group.references
  | .last node => node.includeReferences_eq i start
  | .link node next => by
      rw [Pattern.includeReferences, Pattern.groupsFrom, List.map_append,
        node.includeReferences_eq i start, next.includeReferences_eq i.next]

theorem Node.includeReferences_eq (i : NodeId) (start : Int) :
    (n : Node) → n.includeReferences = (n.groupsFrom i start).map Group.references
  | .mk kind matcher none options quantity => by
      rw [Node.includeReferences, Node.groupsFrom, List.map_append,
        matcher.includeReferences_eq i.nested]
      congr 1
      unfold Node.ownGroups
      split
      · rfl
      · rfl
  | .mk kind matcher (some list) options quantity => by
      rw [Node.includeReferences, Node.groupsFrom, List.map_append,
        matcher.includeReferences_eq i.nested]
      have hc : (Node.mk kind matcher (some list) options quantity).captures = true := by
        rw [Node.captures, Node.includes, Option.isSome_some, Bool.or_true]
      congr 1
      rw [Node.ownGroups, if_pos hc]
      rfl

theorem Matcher.includeReferences_eq (i : NodeId) (start : Int) :
    (m : Matcher) → m.includeReferences = (m.groupsFrom i start).map Group.references
  | .literal _ => rfl
  | .fragment _ => rfl
  | .nested pattern => pattern.includeReferences_eq i start
end

/-! ## Captures -/

theorem mem_of_capturesWith {groups : List Group}
    {pairs : List (Group × Except Error (List RuleReference))} {before captures : Dictionary Capture}
    (h : capturesWith groups pairs before = .ok captures) {x : Text × Capture} (hx : x ∈ captures) :
    x ∈ before ∨
      ∃ y ∈ pairs, x.1 = Text.ofInt y.1.number ∧ y.1.toCapture groups y.2 = .ok x.2 := by
  induction pairs generalizing before with
  | nil =>
      cases h
      exact .inl hx
  | cons y pairs ih =>
      rw [capturesWith, Except.bind_eq_ok] at h
      obtain ⟨capture, hc, h⟩ := h
      rcases ih h with hb | ⟨z, hz, hk⟩
      · rcases Dictionary.eq_or_mem_of_mem_insert hb with rfl | hb
        · exact .inr ⟨y, List.mem_cons_self, rfl, hc⟩
        · exact .inl hb
      · exact .inr ⟨z, List.mem_cons_of_mem _ hz, hk⟩

/-- The capture stands under the number of the group and holds its tag and what its includes stand for. The
tag of group zero is the name of the rule instead. -/
def Group.Declares (groups : List Group) (g : Group) (key : Text) (capture : Capture) : Prop :=
  key = Text.ofInt g.number ∧
    ∃ own, g.toCapture groups g.references = .ok own ∧ capture.patterns = own.patterns ∧
      (capture.name = own.name ∨ key = "0" ∧ capture.name = none)

theorem Pattern.zip_includeReferences (p : Pattern) :
    p.groups.zip p.includeReferences = p.groups.map fun g => (g, g.references) := by
  have hz := List.zip_map' (l := p.groups) (f := id) (g := Group.references)
  rw [List.map_id] at hz
  rw [p.includeReferences_eq {} p.firstNumber]
  exact hz

/-- Every capture of a rule has been declared by the node of a group. -/
theorem Pattern.declares_of_toRule {p : Pattern} {expression : Text}
    {captures : List (Text × Capture)} {name : Option Text}
    (h : p.toRule = .ok (.mk expression captures name)) :
    ∀ x ∈ captures, ∃ g ∈ p.groups, g.Declares p.groups x.1 x.2 := by
  intro x hx
  simp only [Pattern.toRule, Pattern.ruleWith, Except.bind_eq_ok] at h
  obtain ⟨t, -, found, hf, h⟩ := h
  have hfound : ∀ y ∈ found, ∃ g ∈ p.groups,
      y.1 = Text.ofInt g.number ∧ g.toCapture p.groups g.references = .ok y.2 := by
    intro y hy
    rw [p.zip_includeReferences] at hf
    rcases mem_of_capturesWith hf hy with hn | ⟨z, hz, hk⟩
    · cases hn
    · obtain ⟨g, hg, rfl⟩ := List.mem_map.mp hz
      exact ⟨g, hg, hk⟩
  have hdeclares : ∀ y ∈ found, ∃ g ∈ p.groups, g.Declares p.groups y.1 y.2 := by
    intro y hy
    obtain ⟨g, hg, hk, hc⟩ := hfound y hy
    exact ⟨g, hg, hk, y.2, hc, rfl, .inl rfl⟩
  cases h
  have hx := (List.mem_filter.mp hx).1
  split at hx
  · next capture hl =>
    split at hl
    · rcases Dictionary.eq_or_mem_of_mem_insert hx with rfl | hx
      · obtain ⟨g, hg, hk, hc⟩ := hfound _ (Dictionary.mem_of_get? hl)
        exact ⟨g, hg, hk, capture, hc, rfl, .inr ⟨rfl, rfl⟩⟩
      · exact hdeclares x hx
    · cases hl
  · exact hdeclares x hx

end PatternGrammar
