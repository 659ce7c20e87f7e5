import PatternGrammar.Kind
import PatternGrammar.Quantity

/-!
# Patterns

A pattern is a chain of nodes. A node has a kind, a matcher and options; the matcher is literal text, a
raw fragment of regular expression, or another pattern. A node may list includes, which apply inside
what it matches and are no part of the expression.
-/

namespace PatternGrammar

mutual
/-- A chain of at least one node. -/
inductive Pattern where
  | last (node : Node)
  | link (node : Node) (next : Pattern)

/-- A building block, with the quantity that its options were resolved to. -/
inductive Node where
  | mk (kind : Kind) (matcher : Matcher) (includes : Option (List Include)) (options : Options)
      (quantity : Quantity)

/-- What a node matches. -/
inductive Matcher where
  | literal (text : Text)
  | fragment (source : Text)
  | nested (pattern : Pattern)

/-- What else applies inside the text of a node: a pattern, a rule by its name, or a text that names a
foreign grammar or stands for itself. -/
inductive Include where
  | pattern (pattern : Pattern)
  | symbol (name : Text)
  | text (text : Text)
end

/-- The options of a node together with its includes. -/
structure Attributes extends Options where
  includes : Option (List Include) := none

namespace Node

def kind : Node → Kind
  | .mk kind _ _ _ _ => kind

def matcher : Node → Matcher
  | .mk _ matcher _ _ _ => matcher

def includes : Node → Option (List Include)
  | .mk _ _ includes _ _ => includes

def options : Node → Options
  | .mk _ _ _ options _ => options

def quantity : Node → Quantity
  | .mk _ _ _ _ quantity => quantity

def attributes (n : Node) : Attributes := { n.options with includes := n.includes }

/-- A node captures when something is to be known about its text: a tag, a name or includes. -/
def captures (n : Node) : Bool :=
  n.options.tagAs.isSome || n.options.reference.isSome || n.includes.isSome

end Node

namespace Pattern

/-- The first node of the chain. -/
def head : Pattern → Node
  | .last node => node
  | .link node _ => node

/-- What follows the first node. -/
def next? : Pattern → Option Pattern
  | .last _ => none
  | .link _ next => some next

/-- The chain with another chain behind it. -/
def append : Pattern → Pattern → Pattern
  | .last node, other => .link node other
  | .link node next, other => .link node (next.append other)

/-- The nodes of the chain, in order. -/
def chain : Pattern → List Node
  | .last node => [node]
  | .link node next => node :: next.chain

/-- The whole match takes the place of the node's own group. A lookaround keeps its group, because its
whole match is empty. -/
def liftsOuterGroup : Pattern → Bool
  | .last node => node.captures && !node.kind.isLookAround
  | .link _ _ => false

/-- Induction over a chain from its end; what its nodes own is left alone. -/
theorem chain_induction {motive : Pattern → Prop} (last : ∀ node, motive (.last node))
    (link : ∀ node next, motive next → motive (.link node next)) : (p : Pattern) → motive p
  | .last node => last node
  | .link node next => link node next (chain_induction last link next)

@[simp] theorem chain_append : (p q : Pattern) → (p.append q).chain = p.chain ++ q.chain
  | .last _, _ => rfl
  | .link _ next, q => by simp [append, chain, chain_append next q]

theorem append_assoc : (p q r : Pattern) → (p.append q).append r = p.append (q.append r)
  | .last _, _, _ => rfl
  | .link _ next, q, r => by simp [append, append_assoc next q r]

/-- The name under which a node is spoken of, if it has one: its reference, else its tag. -/
def label? (p : Pattern) : Option Text := p.head.options.reference.or p.head.options.tagAs

end Pattern

/-- A step from a node to one that it owns. -/
inductive Step where
  | nested
  | next
  deriving DecidableEq, Repr

/-- Where a node sits: the tree it belongs to, and the way down from the root, latest step first. Two
trees that look the same are different trees. -/
structure NodeId where
  tree : Nat := 0
  path : List Step := []
  deriving DecidableEq, Repr

/-- The node inside the matcher of this one. -/
def NodeId.nested (i : NodeId) : NodeId := { i with path := .nested :: i.path }

/-- The node behind this one in its chain. -/
def NodeId.next (i : NodeId) : NodeId := { i with path := .next :: i.path }

mutual
/-- Every node in canonical order: the node itself, its nested matcher, then the next node. Each comes
with its place and with the chain that starts at it. -/
def Pattern.nodes (i : NodeId) : Pattern → List (NodeId × Pattern)
  | .last node => (i, .last node) :: node.nestedNodes i
  | .link node next => (i, .link node next) :: node.nestedNodes i ++ next.nodes i.next

def Node.nestedNodes (i : NodeId) : Node → List (NodeId × Pattern)
  | .mk _ matcher _ _ _ => matcher.nodes i

def Matcher.nodes (i : NodeId) : Matcher → List (NodeId × Pattern)
  | .literal _ => []
  | .fragment _ => []
  | .nested pattern => pattern.nodes i.nested
end

end PatternGrammar
