import PatternGrammar.Pattern.Emission

/-!
# Grammar rules

A rule is an expression, what is known about its captures, and a name. Captures stand under the decimal
text of their number. In the written form an empty name, an empty list and a rule without captures leave
no trace; what a capture would hold stays as an empty object.
-/

namespace PatternGrammar

mutual
inductive Rule where
  | mk (expression : Text) (captures : List (Text × Capture)) (name : Option Text)

inductive Capture where
  | mk (name : Option Text) (patterns : List RuleReference)

/-- What applies inside a capture: a word for a grammar, a rule of the repository, or a rule of its own. -/
inductive RuleReference where
  | scope (name : Text)
  | rule (name : Text)
  | inline (rule : Rule)
end

namespace Capture

def name : Capture → Option Text
  | .mk name _ => name

def patterns : Capture → List RuleReference
  | .mk _ patterns => patterns

/-- Nothing is known about the capture. -/
def isEmpty (c : Capture) : Bool := c.name.isNone && c.patterns.isEmpty

end Capture

/-- A member of an object for a name that is neither absent nor empty. -/
def nameMember : Option Text → List (Text × Json)
  | none => []
  | some [] => []
  | some name => [("name", .string name)]

mutual
/-- The written form of a rule. -/
def Rule.toJson : Rule → Json
  | .mk expression captures name =>
      .object
        ((match captures with
          | [] => []
          | capture :: rest => [(Text.ofString "captures", .object (capturesToJson (capture :: rest)))])
          ++ [(Text.ofString "match", .string expression)] ++ nameMember name)

def capturesToJson : List (Text × Capture) → List (Text × Json)
  | [] => []
  | (number, capture) :: rest => (number, capture.toJson) :: capturesToJson rest

/-- The written form of a capture. -/
def Capture.toJson : Capture → Json
  | .mk name patterns =>
      .object
        (nameMember name ++
          (match patterns with
          | [] => []
          | reference :: rest => [(Text.ofString "patterns", .array (referencesToJson (reference :: rest)))]))

def referencesToJson : List RuleReference → List Json
  | [] => []
  | reference :: rest => reference.toJson :: referencesToJson rest

/-- The written form of a reference. -/
def RuleReference.toJson : RuleReference → Json
  | .scope name => .string name
  | .rule name => .object [("include", .string ("#" ++ name))]
  | .inline rule => rule.toJson
end

/-- A text that names a foreign grammar. -/
def isExternalScope (t : Text) : Bool := t.startsWith "source." || t.startsWith "text."

/-- What is known about one group, given what its includes stand for. -/
def Group.toCapture (groups : List Group) (patterns : Except Error (List RuleReference)) (g : Group) :
    Except Error Capture := do
  let name ←
    match g.tagAs with
    | none => pure none
    | some tag => do pure (some (← resolveTag groups g.number tag))
  return .mk name (← patterns)

/-- The captures of a table whose groups come with what their includes stand for. -/
def capturesWith (groups : List Group) :
    List (Group × Except Error (List RuleReference)) → Dictionary Capture →
      Except Error (Dictionary Capture)
  | [], captures => .ok captures
  | (g, patterns) :: rest, captures => do
      let capture ← g.toCapture groups patterns
      capturesWith groups rest (Dictionary.insert (Text.ofInt g.number) capture captures)

/-- The rule of a pattern, given what the includes of its groups stand for. The name of group zero
becomes the name of the rule, and captures of which nothing is known are left out. -/
def Pattern.ruleWith (p : Pattern) (patterns : List (Except Error (List RuleReference))) :
    Except Error Rule := do
  let expression ← p.evaluate
  let captures ← capturesWith p.groups (p.groups.zip patterns) []
  let zero : Text := "0"
  let lifted := if p.liftsOuterGroup then Dictionary.get? zero captures else none
  let captures :=
    match lifted with
    | some capture => Dictionary.insert zero (Capture.mk none capture.patterns) captures
    | none => captures
  return .mk expression (captures.filter fun (_, capture) => !capture.isEmpty)
    (lifted.bind (·.name))

/-- The rule of a text that is matched literally. -/
def literalRule (t : Text) : Except Error Rule :=
  Pattern.ruleWith (.last (.mk .plain (.literal t) none {} {})) []

mutual
/-- What an include stands for. -/
def Include.reference : Include → Except Error RuleReference
  | .pattern pattern => do return .inline (← pattern.ruleWith pattern.includeReferences)
  | .symbol name =>
      return if name = ("$self" : Text) || name = ("$base" : Text) then .scope name else .rule name
  | .text text =>
      if isExternalScope text then return .scope text
      else do return .inline (← literalRule text)

/-- What a list of includes stands for, in order. -/
def includeListReferences : List Include → Except Error (List RuleReference)
  | [] => .ok []
  | entry :: rest => do
      let first ← entry.reference
      return first :: (← includeListReferences rest)

/-- For every group of a pattern, in order, what its includes stand for. -/
def Pattern.includeReferences : Pattern → List (Except Error (List RuleReference))
  | .last node => node.includeReferences
  | .link node next => node.includeReferences ++ next.includeReferences

def Node.includeReferences : Node → List (Except Error (List RuleReference))
  | .mk kind matcher includes options quantity =>
      let own :=
        match includes with
        | some list => [includeListReferences list]
        | none => if (Node.mk kind matcher none options quantity).captures then [.ok []] else []
      own ++ matcher.includeReferences

def Matcher.includeReferences : Matcher → List (Except Error (List RuleReference))
  | .literal _ => []
  | .fragment _ => []
  | .nested pattern => pattern.includeReferences
end

/-- The rule of a pattern. -/
def Pattern.toRule (p : Pattern) : Except Error Rule := p.ruleWith p.includeReferences

/-- What the includes of a group stand for; a group without includes has none. -/
def Group.references (g : Group) : Except Error (List RuleReference) :=
  match g.includes with
  | some list => includeListReferences list
  | none => .ok []

/-- The captures that a table of groups describes. -/
def toCaptures (groups : List Group) : Except Error (Dictionary Capture) :=
  capturesWith groups (groups.map fun g => (g, g.references)) []

/-- Two patterns are the same when they make the same rule. The rule of the second one is made first, so
of two errors that one counts. -/
def Pattern.sameRule (p q : Pattern) : Except Error Bool := do
  let second ← q.toRule
  let first ← p.toRule
  return first.toJson == second.toJson

end PatternGrammar
