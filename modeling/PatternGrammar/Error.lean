import PatternGrammar.Pattern.Basic
import PatternGrammar.Json.Printer
import PatternGrammar.Regex.Compiled
import PatternGrammar.RegexText.Placeholder

/-!
# Errors

Everything that can go wrong, by cause. The words for a cause are written here once.
-/

namespace PatternGrammar

/-- Who asked for a group by its name. -/
inductive ReferenceRequest where
  | regex (kind : ReferenceKind)
  | tag
  deriving DecidableEq, Repr

/-- How a request is spoken of. -/
def ReferenceRequest.name : ReferenceRequest → Text
  | .regex .backReference => Kind.backReference.name
  | .regex .subroutine => Kind.subroutine.name
  | .tag => "$reference"

/-- Why no pattern can be made of a description. A path leads from the root to the place at fault. -/
inductive ConstructionFault where
  | capturingFragment (source : Text)
  | notText (path : Text) (value : Json)
  | notInteger (path : Text) (value : Json)
  | countOutOfRange (path : Text) (value : Json)
  | notBoolean (path : Text) (value : Json)
  | notTextList (path : Text) (value : Json)
  | notPattern (path : Text) (value : Json)
  | unknownKind (path name : Text)
  | severalMatchers (path : Text) (keys : List Text)
  | noMatcher (path : Text)
  | kindConflict (path key : Text) (kind : Kind)
  | matcherCount (path : Text) (count : Nat)
  | unknownOption (path key : Text)
  | notInclude (path : Text)
  | notChain (path : Text)
  | noRepository
  | repositoryNotObject
  | invalidJson

/-- What a value has to be to become a pattern. -/
def patternExpected : Text := "Pattern must be constructed with a String, Regexp, or Pattern; got "

/-- The words for a fault of construction. -/
def ConstructionFault.message : ConstructionFault → Text
  | .capturingFragment source =>
      "There is a pattern that is being constructed from a regular expression with a capturing group. This is not allowed, as the group cannot be tracked. The bad pattern is /"
        ++ source ++ "/"
  | .notText path value => path ++ ": expected a string, got " ++ value.compact
  | .notInteger path value => path ++ ": expected an integer, got " ++ value.compact
  | .countOutOfRange path value =>
      path ++ ": " ++ value.compact ++ " is out of range for a repetition count"
  | .notBoolean path value => path ++ ": expected true or false, got " ++ value.compact
  | .notTextList path value => path ++ ": expected a list of strings, got " ++ value.compact
  | .notPattern path value => path ++ ": " ++ patternExpected ++ value.compact
  | .unknownKind path name => path ++ ": unknown pattern kind " ++ Text.quote name
  | .severalMatchers path keys =>
      path ++ ": Pattern expects a single matcher, was provided with multiple: " ++
        Text.join ", " keys
  | .noMatcher path => path ++ ": Pattern has no matcher"
  | .kindConflict path key kind =>
      path ++ ": " ++ Text.quote key ++ " cannot be combined with kind " ++ Text.quote kind.name
  | .matcherCount path count =>
      path ++ ": Pattern expects a single matcher, was provided with " ++ Text.ofNat count
  | .unknownOption path key => path ++ ": unknown option " ++ Text.quote key
  | .notInclude path => path ++ ": an include must be a string or a pattern"
  | .notChain path => path ++ ": expected a list of patterns"
  | .noRepository => "A pattern document must be an object with a \"repository\""
  | .repositoryNotObject => "\"repository\" must map rule names to patterns"
  | .invalidJson => "Invalid JSON"

/-- How the numbering of groups and the text that was put together can differ. -/
inductive NumberingFault where
  /-- A node captures and no numbered group is left. -/
  | noneLeft (node : Pattern)
  /-- The next numbered group belongs to a different node. -/
  | otherNode (number : Int) (node : Pattern)
  /-- Numbered groups are left at the end. -/
  | left (count : Nat)

inductive Error where
  | construction (fault : ConstructionFault)
  | quantity (node : Text) (fault : QuantityFault)
  | unresolved (name : Text) (request : ReferenceRequest)
  | engine (fault : Regex.EngineFault)
  | numbering (fault : NumberingFault)
  | notLookAround (kind : Kind)

/-- The error is a contradiction inside the library and not a property of a pattern. -/
def Error.isInternal : Error → Bool
  | .numbering _ | .notLookAround _ => true
  | .construction _ | .quantity _ _ | .unresolved _ _ | .engine _ => false

/-- The words for a fault of numbering; `name` gives the name of a node. -/
def NumberingFault.message (name : Pattern → Text) : NumberingFault → Text
  | .noneLeft node =>
      "Capture group emitted for " ++ name node ++ " but every numbered group is already claimed"
  | .otherNode number node =>
      "Capture group " ++ Text.ofInt number ++ " was numbered for a different node than " ++ name node
  | .left count => Text.ofNat count ++ " numbered capture groups were never emitted"

/-- The words for an error in full; `name` gives the name of a node. -/
def Error.description (name : Pattern → Text) : Error → Text
  | .construction fault => fault.message
  | .quantity node fault => "Inside of the " ++ node ++ " pattern, " ++ fault.description
  | .unresolved reference request =>
      "When processing the " ++ request.name ++ ":" ++ reference ++ ", no pattern with reference " ++
        Text.quote reference ++ " could be found"
  | .engine fault => fault.message
  | .numbering fault => fault.message name
  | .notLookAround kind =>
      "lookAroundPrefix called on " ++ kind.name ++ ", which is not a lookaround"

/-- The message of an error: its words up to the first null byte, which ends a message. -/
def Error.message (name : Pattern → Text) (e : Error) : Text := (e.description name).takeWhile (· ≠ 0)

/-- How the group of a lookaround begins. -/
def Kind.lookAroundOpening (kind : Kind) : Except Error Text :=
  match kind.lookAroundOpening? with
  | some opening => .ok opening
  | none => .error (.notLookAround kind)

end PatternGrammar
