import PatternGrammar.Document

/-!
# Descriptions of patterns

Which values describe a pattern: a text, or an object with exactly one matcher, whose keys are all known, whose
values have the types that their keys declare, and whose repetition options fit the kind of the node. Matchers,
includes and the rest of a chain are described in the same way, to any depth.
-/

namespace PatternGrammar

/-! ## Options -/

/-- What the value of an option has to be. -/
inductive OptionType where
  | text
  | texts
  | count
  | flag
  | includes
  | chain
  deriving DecidableEq, Repr

/-- The options that an object may have, and what their values have to be. -/
def declaredTypes : List (Text × OptionType) :=
  [("tag_as", .text), ("reference", .text), ("includes", .includes), ("should_fully_match", .texts),
    ("should_not_fully_match", .texts), ("should_partially_match", .texts),
    ("should_not_partially_match", .texts), ("word_cannot_be_any_of", .texts), ("at_least", .count),
    ("at_most", .count), ("how_many_times", .count), ("dont_back_track", .flag),
    ("as_few_as_possible", .flag), ("possessive", .flag), ("lazy", .flag), ("greedy", .flag)]

/-- The keys that say what the node is and what follows it. -/
def structuralKeys : List Text :=
  ["kind", "match", "regex", "match_result_of", "recursively_match", "then"]

/-- The key belongs to the library or to a plugin. -/
def IsKnown (plugins : List Plugin) (key : Text) : Prop :=
  key ∈ structuralKeys ∨ (Dictionary.get? key declaredTypes).isSome ∨ recognizes plugins key

/-- The value under a key; of several values under one key, the last. -/
def latest? (key : Text) (members : Dictionary Json) : Option Json :=
  Dictionary.get? key members.reverse

def countUnder (key : Text) (members : Dictionary Json) : Option Int :=
  match latest? key members with
  | some (.int n) => some n
  | _ => none

def isOn (key : Text) (members : Dictionary Json) : Bool :=
  match latest? key members with
  | some (.bool b) => b
  | _ => false

/-- The repetition options that an object asks for. The short names stand for the modes, and greedy overrides
all of them. -/
def requestedOptions (members : Dictionary Json) : Options where
  atLeast := countUnder "at_least" members
  atMost := countUnder "at_most" members
  howManyTimes := countUnder "how_many_times" members
  dontBackTrack := !isOn "greedy" members && (isOn "dont_back_track" members || isOn "possessive" members)
  asFewAsPossible := !isOn "greedy" members && (isOn "as_few_as_possible" members || isOn "lazy" members)

/-! ## Matchers and kinds -/

/-- The reference to a group that a key asks for. -/
def MatcherKey.reference? : MatcherKey → Option ReferenceKind
  | .matchResultOf => some .backReference
  | .recursivelyMatch => some .subroutine
  | .literal | .regex => none

/-- The fragment that a text under a key stands for. -/
def MatcherKey.fragment? (key : MatcherKey) (t : Text) : Option Text :=
  match key with
  | .literal => none
  | .regex => some t
  | .matchResultOf => some (placeholder .backReference t)
  | .recursivelyMatch => some (placeholder .subroutine t)

/-- The kind of a node that does not name its kind. -/
def MatcherKey.defaultKind (key : MatcherKey) : Kind :=
  match key.reference? with
  | some reference => reference.nodeKind
  | none => .plain

/-- The object has this matcher and no other. -/
def OnlyMatcher (members : Dictionary Json) (key : MatcherKey) (value : Json) : Prop :=
  Dictionary.get? key.name members = some value ∧
    ∀ other : MatcherKey, (Dictionary.get? other.name members).isSome → other = key

/-- The object names this kind, or none. -/
def NamesKind (members : Dictionary Json) : Option Kind → Prop
  | none => Dictionary.get? "kind" members = none
  | some kind => ∃ name, Dictionary.get? "kind" members = some (.string name) ∧
      Kind.ofName? name = some kind

/-- The key can stand beside the kind that is named: that of a reference says itself what the kind is. -/
def MatcherKey.AgreesWith (key : MatcherKey) (kind : Option Kind) : Prop :=
  ∀ reference, key.reference? = some reference → ∀ k ∈ kind, k = reference.nodeKind

/-- The node of the object has this kind. -/
def HasKind (members : Dictionary Json) (key : MatcherKey) (kind : Kind) : Prop :=
  ∃ named, NamesKind members named ∧ key.AgreesWith named ∧ kind = named.getD key.defaultKind

/-! ## Descriptions -/

mutual
/-- The value describes a pattern. -/
inductive Describes (plugins : List Plugin) : Json → Prop where
  | text (t : Text) : Describes plugins (.string t)
  | object {members : Dictionary Json} {key : MatcherKey} {value : Json} {kind : Kind}
      (only : OnlyMatcher members key value)
      (kind_eq : HasKind members key kind)
      (matcher : DescribesMatcher plugins key value)
      (known : ∀ m ∈ members, IsKnown plugins m.1)
      (typed : ∀ m ∈ members, ∀ type, Dictionary.get? m.1 declaredTypes = some type →
        HasType plugins type m.2)
      (repeatable : ∃ q, Quantity.resolve (requestedOptions members) kind.isQuantifiable = .ok q)
      (chain : ∀ v, Dictionary.get? "then" members = some v → HasType plugins .chain v) :
      Describes plugins (.object members)

/-- The value under a matcher key describes a matcher. A fragment is one in which no back-reference to a first
group compiles. -/
inductive DescribesMatcher (plugins : List Plugin) : MatcherKey → Json → Prop where
  | literal (t : Text) : DescribesMatcher plugins .literal (.string t)
  | nested {members : Dictionary Json} : Describes plugins (.object members) →
      DescribesMatcher plugins .literal (.object members)
  | oneLiteral (t : Text) : DescribesMatcher plugins .literal (.array [.string t])
  | oneNested {members : Dictionary Json} : Describes plugins (.object members) →
      DescribesMatcher plugins .literal (.array [.object members])
  | fragment {key : MatcherKey} {t source : Text} : key.fragment? t = some source →
      Regex.compiles ("(?:" ++ source ++ ")\\1") = false → DescribesMatcher plugins key (.string t)

/-- The value is one of this type. A single text or include stands for a list of one. -/
inductive HasType (plugins : List Plugin) : OptionType → Json → Prop where
  | text (t : Text) : HasType plugins .text (.string t)
  | oneText (t : Text) : HasType plugins .texts (.string t)
  | texts {items : List Json} : (∀ v ∈ items, HasType plugins .text v) →
      HasType plugins .texts (.array items)
  | count {n : Int} : -2147483648 ≤ n → n ≤ 2147483647 → HasType plugins .count (.int n)
  | flag (b : Bool) : HasType plugins .flag (.bool b)
  | oneInclude {v : Json} : DescribesInclude plugins v → HasType plugins .includes v
  | includes {items : List Json} : (∀ v ∈ items, DescribesInclude plugins v) →
      HasType plugins .includes (.array items)
  | chain {items : List Json} : (∀ v ∈ items, Describes plugins v) → HasType plugins .chain (.array items)

/-- The value describes something to include. -/
inductive DescribesInclude (plugins : List Plugin) : Json → Prop where
  | text (t : Text) : DescribesInclude plugins (.string t)
  | pattern {members : Dictionary Json} : Describes plugins (.object members) →
      DescribesInclude plugins (.object members)
end

end PatternGrammar
