import PatternGrammar.Pattern.Emission

/-!
# Patterns as trees

What a statement about whole trees is made of: the text of a pattern without its numbering, the nodes
that capture in canonical order, and properties of every node.
-/

namespace PatternGrammar

@[simp] theorem Pattern.head_last (node : Node) : (Pattern.last node).head = node := rfl

@[simp] theorem Pattern.head_link (node : Node) (next : Pattern) :
    (Pattern.link node next).head = node := rfl

mutual
/-- The text of a pattern inside a larger tree. It does not depend on the numbers of groups. -/
def Pattern.text : Pattern → Text
  | .last node => node.text
  | .link node next => next.textBehind node.text

/-- The text of the rest of a chain, behind the text before it. -/
def Pattern.textBehind (before : Text) : Pattern → Text
  | .last node => node.kind.join before node.text
  | .link node next => next.textBehind (node.kind.join before node.text)

def Node.text : Node → Text
  | .mk kind matcher includes options quantity =>
      (Node.mk kind matcher includes options quantity).wrap matcher.text

def Matcher.text : Matcher → Text
  | .literal text => escapeRegex text
  | .fragment source => source
  | .nested pattern => pattern.text
end

/-- What stands in the group of a node: the text of its matcher, with its repetition options unless the
node is a lookaround. -/
def Node.body (n : Node) : Text :=
  if n.kind.isLookAround then n.matcher.text else n.quantity.applyTo n.options n.matcher.text

mutual
/-- Every node of the tree has the property. Included patterns are trees of their own. -/
def Pattern.Every (P : Node → Prop) : Pattern → Prop
  | .last node => node.Every P
  | .link node next => node.Every P ∧ next.Every P

def Node.Every (P : Node → Prop) : Node → Prop
  | .mk kind matcher includes options quantity =>
      P (.mk kind matcher includes options quantity) ∧ matcher.Every P

def Matcher.Every (P : Node → Prop) : Matcher → Prop
  | .literal _ => True
  | .fragment _ => True
  | .nested pattern => pattern.Every P
end

mutual
theorem Pattern.Every.imp {P Q : Node → Prop} (hi : ∀ n, P n → Q n) :
    {p : Pattern} → p.Every P → p.Every Q
  | .last _, h => Node.Every.imp hi h
  | .link _ _, h => ⟨Node.Every.imp hi h.1, Pattern.Every.imp hi h.2⟩

theorem Node.Every.imp {P Q : Node → Prop} (hi : ∀ n, P n → Q n) :
    {n : Node} → n.Every P → n.Every Q
  | .mk _ _ _ _ _, h => ⟨hi _ h.1, Matcher.Every.imp hi h.2⟩

theorem Matcher.Every.imp {P Q : Node → Prop} (hi : ∀ n, P n → Q n) :
    {m : Matcher} → m.Every P → m.Every Q
  | .literal _, _ | .fragment _, _ => trivial
  | .nested _, h => Pattern.Every.imp hi h
end

theorem Pattern.Every.head {P : Node → Prop} {p : Pattern} (h : p.Every P) : p.head.Every P := by
  cases p with
  | last => exact h
  | link => exact h.1

theorem Node.Every.self {P : Node → Prop} {n : Node} (h : n.Every P) : P n := by
  cases n
  exact h.1

mutual
/-- What holds of every node of a tree holds of every node of the chain that starts at one of them. -/
theorem Pattern.Every.of_mem_nodes {P : Node → Prop} {x : NodeId × Pattern} (i : NodeId) :
    (p : Pattern) → p.Every P → x ∈ p.nodes i → x.2.Every P
  | .last node, h, hx => by
      rcases List.mem_cons.mp hx with rfl | hx
      · exact h
      · exact node.every_of_mem_nestedNodes i h hx
  | .link node next, h, hx => by
      simp only [Pattern.nodes, List.cons_append, List.mem_cons, List.mem_append] at hx
      rcases hx with rfl | hx | hx
      · exact h
      · exact node.every_of_mem_nestedNodes i h.1 hx
      · exact Pattern.Every.of_mem_nodes i.next next h.2 hx

theorem Node.every_of_mem_nestedNodes {P : Node → Prop} {x : NodeId × Pattern} (i : NodeId) :
    (n : Node) → n.Every P → x ∈ n.nestedNodes i → x.2.Every P
  | .mk _ matcher _ _ _, h, hx => matcher.every_of_mem_nodes i h.2 hx

theorem Matcher.every_of_mem_nodes {P : Node → Prop} {x : NodeId × Pattern} (i : NodeId) :
    (m : Matcher) → m.Every P → x ∈ m.nodes i → x.2.Every P
  | .literal _, _, hx | .fragment _, _, hx => by cases hx
  | .nested pattern, h, hx => Pattern.Every.of_mem_nodes i.nested pattern h hx
end

theorem Pattern.every_of_mem_nodes {P : Node → Prop} {x : NodeId × Pattern} (i : NodeId) (p : Pattern)
    (h : p.Every P) (hx : x ∈ p.nodes i) : x.2.head.Every P :=
  (Pattern.Every.of_mem_nodes i p h hx).head

theorem Pattern.every_append {P : Node → Prop} {p q : Pattern} (hp : p.Every P) (hq : q.Every P) :
    (p.append q).Every P := by
  induction p using Pattern.chain_induction with
  | last node => exact ⟨hp, hq⟩
  | link node next ih => exact ⟨hp.1, ih hp.2⟩

/-- The nodes that capture, in canonical order, with their places and the chains that start at them. -/
def Pattern.capturing (i : NodeId) (p : Pattern) : List (NodeId × Pattern) :=
  (p.nodes i).filter (·.2.head.captures)

end PatternGrammar
