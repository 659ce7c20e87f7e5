import PatternGrammar.Error

/-!
# Building patterns

A node is built from its kind, its matcher and its attributes; the repetition options are checked and
resolved then. A raw fragment must not have capturing groups of its own, because nothing would know
their numbers: it is refused when a back-reference to the first group compiles behind it.
-/

namespace PatternGrammar

/-- The fragment has a capturing group of its own. -/
def hasOwnGroup (source : Text) : Bool := Regex.compiles ("(?:" ++ source ++ ")\\1")

/-- Refuses a fragment with a capturing group. -/
def Matcher.check : Matcher → Except Error Unit
  | .fragment source =>
      if hasOwnGroup source then .error (.construction (.capturingFragment source)) else .ok ()
  | .literal _ | .nested _ => .ok ()

/-- The name under which a node's repetition options are spoken of. -/
def Options.spokenName (o : Options) (kind : Kind) : Text :=
  (o.reference.or o.tagAs).getD kind.name

/-- The node of checked parts. -/
def Node.ofParts (kind : Kind) (matcher : Matcher) (a : Attributes) : Except Error Node :=
  match Quantity.resolve a.toOptions kind.isQuantifiable with
  | .ok quantity => .ok (.mk kind matcher a.includes a.toOptions quantity)
  | .error fault => .error (.quantity (a.spokenName kind) fault)

/-- The kind of a node that refers to a group. -/
def ReferenceKind.nodeKind : ReferenceKind → Kind
  | .backReference => .backReference
  | .subroutine => .subroutine

namespace Pattern

/-- A pattern of one node. -/
def create (kind : Kind) (matcher : Matcher) (a : Attributes) : Except Error Pattern := do
  matcher.check
  return .last (← Node.ofParts kind matcher a)

/-- The chain with one more thing behind it: a pattern as it is, anything else as a plain node. -/
def andThen (p : Pattern) : Matcher → Except Error Pattern
  | .nested next => .ok (p.append next)
  | matcher => do return p.append (← create .plain matcher {})

/-- The chain with one more plain node behind it. -/
def andThenWith (p : Pattern) (matcher : Matcher) (a : Attributes) : Except Error Pattern := do
  return p.append (← create .plain matcher a)

/-- Either everything in the chain or the matcher. -/
def orElse (p : Pattern) (matcher : Matcher) (a : Attributes) : Except Error Pattern := do
  return p.append (← create .orElse matcher a)

/-- A plain node with these bounds in place of those among the attributes. -/
def between (atLeast : Int) (atMost : Option Int) (matcher : Matcher) (a : Attributes) :
    Except Error Pattern :=
  create .plain matcher { a with atLeast := some atLeast, atMost, howManyTimes := none }

/-- The matcher once or not at all. -/
def maybe : Matcher → Attributes → Except Error Pattern := between 0 (some 1)

/-- The matcher any number of times. -/
def zeroOrMoreOf : Matcher → Attributes → Except Error Pattern := between 0 none

/-- The matcher at least once. -/
def oneOrMoreOf : Matcher → Attributes → Except Error Pattern := between 1 none

/-- A reference to the group of this name. -/
def referringTo (kind : ReferenceKind) (name : Text) : Except Error Pattern :=
  create kind.nodeKind (.fragment (placeholder kind name)) {}

end Pattern

end PatternGrammar
