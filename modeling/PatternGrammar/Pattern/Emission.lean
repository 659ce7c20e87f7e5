import PatternGrammar.Pattern.Reference

/-!
# The expression of a pattern

Text is put together along the chain: an alternative takes everything before it into a choice, and every
other node adds its text behind. A node that captures claims its group before its matcher is written.
-/

namespace PatternGrammar

/-- A text between the parentheses of a capturing group. -/
def inGroup (t : Text) : Text := "(" ++ t ++ ")"

/-- The text of a node around the text of its matcher. -/
def Node.wrap (n : Node) (body : Text) : Text :=
  match n.kind.lookAroundOpening? with
  | some opening => opening ++ (if n.captures then inGroup body else body) ++ ")"
  | none =>
      let body := n.quantity.applyTo n.options body
      if n.captures then inGroup body else body

/-- The text of a node behind the text before it. -/
def Kind.join (kind : Kind) (before own : Text) : Text :=
  match kind with
  | .orElse => "(?:" ++ before ++ "|" ++ own ++ ")"
  | _ => before ++ own

/-- Claims the group of the node at the head of `self`, if the node captures. -/
def Node.claim (n : Node) (i : NodeId) (self : Pattern) (left : List Group) :
    Except Error (List Group) :=
  if n.captures then return (← claimGroup i self left).2 else return left

mutual
/-- The text of a pattern inside a larger tree, with the groups that are left behind it. -/
def Pattern.emit (i : NodeId) (left : List Group) : Pattern → Except Error (Text × List Group)
  | .last node => node.emit i (.last node) left
  | .link node next => do
      let (own, left) ← node.emit i (.link node next) left
      next.emitBehind i.next own left

/-- The text of the rest of a chain, behind the text before it. -/
def Pattern.emitBehind (i : NodeId) (before : Text) (left : List Group) :
    Pattern → Except Error (Text × List Group)
  | .last node => do
      let (own, left) ← node.emit i (.last node) left
      return (node.kind.join before own, left)
  | .link node next => do
      let (own, left) ← node.emit i (.link node next) left
      next.emitBehind i.next (node.kind.join before own) left

/-- The text of the node that `self` starts with. -/
def Node.emit (i : NodeId) (self : Pattern) (left : List Group) :
    Node → Except Error (Text × List Group)
  | .mk kind matcher includes options quantity => do
      let node := Node.mk kind matcher includes options quantity
      let left ← node.claim i self left
      let (body, left) ← matcher.emit i.nested left
      return (node.wrap body, left)

/-- The text of a matcher. -/
def Matcher.emit (i : NodeId) (left : List Group) : Matcher → Except Error (Text × List Group)
  | .literal text => return (escapeRegex text, left)
  | .fragment source => return (source, left)
  | .nested pattern => pattern.emit i left
end

/-- The text of a pattern before its references are filled in, without the group that the whole match
takes the place of. -/
def Pattern.unresolved (p : Pattern) : Except Error Text := do
  let (text, left) ← p.emit {} p.groups
  expectNoneLeft left
  return if p.liftsOuterGroup then (text.drop 1).dropLast else text

/-- The regular expression of a pattern. -/
def Pattern.evaluate (p : Pattern) : Except Error Text := do
  resolveReferences p.groups (← p.unresolved)

/-- The expression of a pattern, compiled. -/
def Pattern.toRegex (p : Pattern) : Except Error Regex.Compiled := do
  match Regex.compile (← p.evaluate) with
  | .ok c => return c
  | .error fault => throw (.engine fault)

/-- A quantifier would bind the whole expression of the pattern. -/
def Pattern.isSingleEntity (p : Pattern) : Except Error Bool :=
  return PatternGrammar.isSingleEntity (← p.evaluate)

end PatternGrammar
