import PatternGrammar.Pattern.Transform
import PatternGrammar.Proofs.Tree

/-!
# Changing the attributes of a tree

A tree whose attributes are changed has the nodes of the tree at their places, changed one by one. A property
that the change brings about at each node therefore holds of the whole.
-/

namespace PatternGrammar

theorem Node.kind_mapAttributes (f : Attributes → Attributes) (n : Node) :
    (n.mapAttributes f).kind = n.kind := by
  cases n
  rfl

theorem Node.quantity_mapAttributes (f : Attributes → Attributes) (n : Node) :
    (n.mapAttributes f).quantity = n.quantity := by
  cases n
  rfl

theorem Node.options_mapAttributes (f : Attributes → Attributes) (n : Node) :
    (n.mapAttributes f).options = (f n.attributes).toOptions := by
  cases n
  rfl

theorem Node.matcher_mapAttributes (f : Attributes → Attributes) (n : Node) :
    (n.mapAttributes f).matcher = n.matcher.mapAttributes f := by
  cases n
  rfl

/-- The tree with changed attributes has the nodes of the tree, changed one by one. -/
def nodesMapped (f : Attributes → Attributes) (x : NodeId × Pattern) : NodeId × Pattern :=
  (x.1, x.2.mapAttributes f)

mutual
theorem Pattern.nodes_mapAttributes (f : Attributes → Attributes) (i : NodeId) :
    (p : Pattern) → (p.mapAttributes f).nodes i = (p.nodes i).map (nodesMapped f)
  | .last node => by
      rw [Pattern.mapAttributes, Pattern.nodes, node.nestedNodes_mapAttributes]
      rfl
  | .link node next => by
      rw [Pattern.mapAttributes, Pattern.nodes, node.nestedNodes_mapAttributes,
        next.nodes_mapAttributes, Pattern.nodes, List.map_append]
      rfl

theorem Node.nestedNodes_mapAttributes (f : Attributes → Attributes) (i : NodeId) :
    (n : Node) → (n.mapAttributes f).nestedNodes i = (n.nestedNodes i).map (nodesMapped f)
  | .mk _ matcher _ _ _ => matcher.nodes_mapAttributes f i

theorem Matcher.nodes_mapAttributes (f : Attributes → Attributes) (i : NodeId) :
    (m : Matcher) → (m.mapAttributes f).nodes i = (m.nodes i).map (nodesMapped f)
  | .literal _ | .fragment _ => rfl
  | .nested pattern => pattern.nodes_mapAttributes f i.nested
end

mutual
theorem Pattern.mapAttributes_mapAttributes (f g : Attributes → Attributes) :
    (p : Pattern) → (p.mapAttributes f).mapAttributes g = p.mapAttributes (g ∘ f)
  | .last node => congrArg Pattern.last (node.mapAttributes_mapAttributes f g)
  | .link node next => by
      rw [Pattern.mapAttributes, Pattern.mapAttributes, node.mapAttributes_mapAttributes f g,
        next.mapAttributes_mapAttributes f g, Pattern.mapAttributes]

theorem Node.mapAttributes_mapAttributes (f g : Attributes → Attributes) :
    (n : Node) → (n.mapAttributes f).mapAttributes g = n.mapAttributes (g ∘ f)
  | .mk kind matcher includes options quantity => by
      rw [Node.mapAttributes, Node.mapAttributes, matcher.mapAttributes_mapAttributes f g]
      rfl

theorem Matcher.mapAttributes_mapAttributes (f g : Attributes → Attributes) :
    (m : Matcher) → (m.mapAttributes f).mapAttributes g = m.mapAttributes (g ∘ f)
  | .literal _ | .fragment _ => rfl
  | .nested pattern => congrArg Matcher.nested (pattern.mapAttributes_mapAttributes f g)
end

theorem Pattern.head_mapAttributes (f : Attributes → Attributes) (p : Pattern) :
    (p.mapAttributes f).head = p.head.mapAttributes f := by
  cases p <;> rfl

mutual
theorem Pattern.Every.mapAttributes {f : Attributes → Attributes} {P Q : Node → Prop}
    (hf : ∀ n, P n → Q (n.mapAttributes f)) :
    {p : Pattern} → p.Every P → (p.mapAttributes f).Every Q
  | .last _, h => Node.Every.mapAttributes hf h
  | .link _ _, h => ⟨Node.Every.mapAttributes hf h.1, Pattern.Every.mapAttributes hf h.2⟩

theorem Node.Every.mapAttributes {f : Attributes → Attributes} {P Q : Node → Prop}
    (hf : ∀ n, P n → Q (n.mapAttributes f)) :
    {n : Node} → n.Every P → (n.mapAttributes f).Every Q
  | .mk _ _ _ _ _, h => ⟨hf _ h.1, Matcher.Every.mapAttributes hf h.2⟩

theorem Matcher.Every.mapAttributes {f : Attributes → Attributes} {P Q : Node → Prop}
    (hf : ∀ n, P n → Q (n.mapAttributes f)) :
    {m : Matcher} → m.Every P → (m.mapAttributes f).Every Q
  | .literal _, _ | .fragment _, _ => trivial
  | .nested _, h => Pattern.Every.mapAttributes hf h
end

/-! ## Tags -/

/-- The attributes with every tag changed, in included patterns too. -/
def Attributes.withTags (f : Text → Text) (a : Attributes) : Attributes :=
  { a with tagAs := a.tagAs.map f, includes := a.includes.map (transformTagsOfIncludes f) }

mutual
/-- Changing tags changes the attributes of each node; what is included is changed as part of them. -/
theorem Pattern.transformTagAs_eq (f : Text → Text) :
    (p : Pattern) → p.transformTagAs f = p.mapAttributes (Attributes.withTags f)
  | .last node => congrArg Pattern.last (node.transformTagAs_eq f)
  | .link node next => by
      rw [Pattern.transformTagAs, node.transformTagAs_eq f, next.transformTagAs_eq f,
        Pattern.mapAttributes]

theorem Node.transformTagAs_eq (f : Text → Text) :
    (n : Node) → n.transformTagAs f = n.mapAttributes (Attributes.withTags f)
  | .mk kind matcher none options quantity => by
      rw [Node.transformTagAs, matcher.transformTagAs_eq f]
      rfl
  | .mk kind matcher (some list) options quantity => by
      rw [Node.transformTagAs, matcher.transformTagAs_eq f]
      rfl

theorem Matcher.transformTagAs_eq (f : Text → Text) :
    (m : Matcher) → m.transformTagAs f = m.mapAttributes (Attributes.withTags f)
  | .literal _ | .fragment _ => rfl
  | .nested pattern => congrArg Matcher.nested (pattern.transformTagAs_eq f)
end

end PatternGrammar
