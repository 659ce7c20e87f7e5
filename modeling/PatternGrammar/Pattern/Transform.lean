import PatternGrammar.Pattern.Basic

/-!
# Changing a whole tree

Each transform gives a new tree. Attributes change at every node of the chain and of what is nested in
it; included patterns are changed only where the transform says so. The resolved quantity of a node stays.
-/

namespace PatternGrammar

mutual
/-- The pattern with the attributes of every node changed. -/
def Pattern.mapAttributes (f : Attributes → Attributes) : Pattern → Pattern
  | .last node => .last (node.mapAttributes f)
  | .link node next => .link (node.mapAttributes f) (next.mapAttributes f)

def Node.mapAttributes (f : Attributes → Attributes) : Node → Node
  | .mk kind matcher includes options quantity =>
      let changed := f { options with includes := includes }
      .mk kind (matcher.mapAttributes f) changed.includes changed.toOptions quantity

def Matcher.mapAttributes (f : Attributes → Attributes) : Matcher → Matcher
  | .literal text => .literal text
  | .fragment source => .fragment source
  | .nested pattern => .nested (pattern.mapAttributes f)
end

mutual
/-- The pattern with every tag changed, those of included patterns too. -/
def Pattern.transformTagAs (f : Text → Text) : Pattern → Pattern
  | .last node => .last (node.transformTagAs f)
  | .link node next => .link (node.transformTagAs f) (next.transformTagAs f)

def Node.transformTagAs (f : Text → Text) : Node → Node
  | .mk kind matcher includes options quantity =>
      .mk kind (matcher.transformTagAs f)
        (match includes with
          | none => none
          | some list => some (transformTagsOfIncludes f list))
        { options with tagAs := options.tagAs.map f } quantity

def Matcher.transformTagAs (f : Text → Text) : Matcher → Matcher
  | .literal text => .literal text
  | .fragment source => .fragment source
  | .nested pattern => .nested (pattern.transformTagAs f)

def transformTagsOfIncludes (f : Text → Text) : List Include → List Include
  | [] => []
  | entry :: rest => entry.transformTagAs f :: transformTagsOfIncludes f rest

def Include.transformTagAs (f : Text → Text) : Include → Include
  | .pattern pattern => .pattern (pattern.transformTagAs f)
  | .symbol name => .symbol name
  | .text text => .text text
end

/-- The pattern with every include changed; included patterns are changed as a whole. -/
def Pattern.transformIncludes (f : Include → Include) (p : Pattern) : Pattern :=
  p.mapAttributes fun a => { a with includes := a.includes.map (·.map f) }

/-- The attributes of a node that does not capture. -/
def Attributes.withoutGroup (a : Attributes) : Attributes :=
  { a with tagAs := none, reference := none, includes := none }

/-- The pattern without tags, references and includes. -/
def Pattern.groupless (p : Pattern) : Pattern := p.mapAttributes Attributes.withoutGroup

/-- How tags are to be changed: whether tags that no rename concerns are kept, a suffix for those kept, and
new tags under old tags or references. -/
structure ReTag where
  keep : Bool := true
  suffix : Option Text := none
  renames : Dictionary Text := []

/-- Applies the renames one after the other; each compares with the tag as it is then. Tells whether
one of them applied. -/
def applyRenames (reference : Option Text) : Dictionary Text → Option Text → Option Text × Bool
  | [], tag => (tag, false)
  | (key, new) :: rest, tag =>
      if tag = some key || reference = some key then ((applyRenames reference rest (some new)).1, true)
      else applyRenames reference rest tag

/-- The tag of a node after a change of tags. -/
def ReTag.newTag (r : ReTag) (a : Attributes) : Option Text :=
  let (tag, renamed) := applyRenames a.reference r.renames a.tagAs
  match r.suffix with
  | some suffix => tag.map fun t => t ++ "." ++ suffix
  | none => if r.keep || renamed then tag else none

/-- The pattern with its tags kept, renamed, extended or dropped. -/
def Pattern.reTag (r : ReTag) (p : Pattern) : Pattern :=
  p.mapAttributes fun a => { a with tagAs := r.newTag a }

end PatternGrammar
