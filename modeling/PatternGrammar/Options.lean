import PatternGrammar.Json.Value

/-!
# Options of a node

Everything a node is told besides its kind, its matcher and its includes. An option that is absent is
different from an empty one.
-/

namespace PatternGrammar

/-- The four lists of example strings that a node can declare. -/
inductive ExampleCategory where
  | shouldFullyMatch
  | shouldNotFullyMatch
  | shouldPartiallyMatch
  | shouldNotPartiallyMatch
  deriving DecidableEq, Repr

namespace ExampleCategory

/-- The categories, in the order in which they are checked and shown. -/
def all : List ExampleCategory :=
  [.shouldFullyMatch, .shouldNotFullyMatch, .shouldPartiallyMatch, .shouldNotPartiallyMatch]

/-- The name of the option that declares the examples. -/
def name : ExampleCategory → Text
  | .shouldFullyMatch => "should_fully_match"
  | .shouldNotFullyMatch => "should_not_fully_match"
  | .shouldPartiallyMatch => "should_partially_match"
  | .shouldNotPartiallyMatch => "should_not_partially_match"

/-- The expression has to cover a whole example. -/
def isFullMatch : ExampleCategory → Bool
  | .shouldFullyMatch | .shouldNotFullyMatch => true
  | .shouldPartiallyMatch | .shouldNotPartiallyMatch => false

/-- The examples are meant to match. -/
def expectsMatch : ExampleCategory → Bool
  | .shouldFullyMatch | .shouldPartiallyMatch => true
  | .shouldNotFullyMatch | .shouldNotPartiallyMatch => false

end ExampleCategory

structure Options where
  tagAs : Option Text := none
  reference : Option Text := none
  shouldFullyMatch : Option (List Text) := none
  shouldNotFullyMatch : Option (List Text) := none
  shouldPartiallyMatch : Option (List Text) := none
  shouldNotPartiallyMatch : Option (List Text) := none
  atLeast : Option Int := none
  atMost : Option Int := none
  howManyTimes : Option Int := none
  dontBackTrack : Bool := false
  asFewAsPossible : Bool := false
  wordCannotBeAnyOf : Option (List Text) := none
  pluginOptions : List (Text × Json) := []

/-- The examples declared for a category. -/
def Options.examples (o : Options) : ExampleCategory → Option (List Text)
  | .shouldFullyMatch => o.shouldFullyMatch
  | .shouldNotFullyMatch => o.shouldNotFullyMatch
  | .shouldPartiallyMatch => o.shouldPartiallyMatch
  | .shouldNotPartiallyMatch => o.shouldNotPartiallyMatch

end PatternGrammar
