import PatternGrammar.Error

/-!
# Numbered groups

Every node that captures has a group. Groups are numbered in canonical order; the table of a pattern
lists them with what is known about them. While text is put together, every group that is written
claims the next entry of the table, which has to belong to the node that writes it.
-/

namespace PatternGrammar

/-- A numbered group and the node it belongs to. -/
structure Group where
  number : Int
  owner : NodeId := {}
  kind : Kind := .plain
  tagAs : Option Text := none
  reference : Option Text := none
  includes : Option (List Include) := none

/-- The group of a node. -/
def Node.group (n : Node) (number : Int) (owner : NodeId) : Group :=
  { number, owner
    kind := n.kind
    tagAs := n.options.tagAs
    reference := n.options.reference
    includes := n.includes }

/-- The group of a node that captures. -/
def Node.ownGroups (n : Node) (number : Int) (owner : NodeId) : List Group :=
  if n.captures then [n.group number owner] else []

mutual
/-- The groups of a pattern in canonical order, numbered from `start` on. -/
def Pattern.groupsFrom (i : NodeId) (start : Int) : Pattern → List Group
  | .last node => node.groupsFrom i start
  | .link node next =>
      let here := node.groupsFrom i start
      here ++ next.groupsFrom i.next (start + here.length)

/-- The groups of a node and of what is nested in it. -/
def Node.groupsFrom (i : NodeId) (start : Int) : Node → List Group
  | .mk kind matcher includes options quantity =>
      let own := (Node.mk kind matcher includes options quantity).ownGroups start i
      own ++ matcher.groupsFrom i.nested (start + own.length)

/-- The groups of a matcher. -/
def Matcher.groupsFrom (i : NodeId) (start : Int) : Matcher → List Group
  | .literal _ => []
  | .fragment _ => []
  | .nested pattern => pattern.groupsFrom i start
end

/-- The number of the first group: zero when the whole match takes its place. -/
def Pattern.firstNumber (p : Pattern) : Int := if p.liftsOuterGroup then 0 else 1

/-- The groups of a pattern, under their final numbers. -/
def Pattern.groups (p : Pattern) : List Group := p.groupsFrom {} p.firstNumber

/-- No node of the pattern captures. -/
def Pattern.isGroupless (p : Pattern) : Bool := p.groups.isEmpty

/-- Claims the next of the groups that are left for the node at the head of a chain. Gives its number
and the groups that are left then. -/
def claimGroup (i : NodeId) (node : Pattern) : List Group → Except Error (Int × List Group)
  | [] => .error (.numbering (.noneLeft node))
  | group :: left =>
      if group.owner = i then .ok (group.number, left)
      else .error (.numbering (.otherNode group.number node))

/-- Succeeds when no group is left. -/
def expectNoneLeft (left : List Group) : Except Error Unit :=
  if left.isEmpty then .ok () else .error (.numbering (.left left.length))

end PatternGrammar
