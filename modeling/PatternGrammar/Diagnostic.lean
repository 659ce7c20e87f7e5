import PatternGrammar.Options

/-!
# Diagnostics

A report on one list of example strings: what went wrong, for which expression and which pattern, and the
examples concerned.
-/

namespace PatternGrammar

inductive Severity where
  | error
  | warning
  | information
  | hint
  deriving DecidableEq, Repr

/-- The word that a report begins with. -/
def Severity.label : Severity → Text
  | .error => "Error"
  | .warning => "Warning"
  | .information => "Info"
  | .hint => "Hint"

structure Diagnostic where
  message : Text
  source : Text
  display : Text
  category : ExampleCategory
  examples : List Text
  severity : Severity := .error
  deriving DecidableEq, Repr

/-- The message, then every example on a line of its own. -/
def Diagnostic.toText (d : Diagnostic) : Text :=
  let line (e : Text) : Text := "\n    - " ++ e
  d.severity.label ++ ": " ++ d.message ++ d.examples.flatMap line

end PatternGrammar
