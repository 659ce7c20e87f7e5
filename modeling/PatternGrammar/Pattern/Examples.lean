import PatternGrammar.Diagnostic
import PatternGrammar.Pattern.Display
import PatternGrammar.Pattern.Emission

/-!
# Checking examples

Every node can declare strings that its own matcher should or should not match, as a whole or in part. A
category is reported when some of its examples turn out otherwise, or when its expression cannot be
built, compiled or searched; then all its examples are listed. Contradictions inside the library are no
reports and end the check.
-/

namespace PatternGrammar

/-- The expression of a matcher on its own. -/
def Matcher.source : Matcher → Except Error Text
  | .literal text => .ok (escapeRegex text)
  | .fragment source => .ok source
  | .nested pattern => pattern.evaluate

/-- The expression that the examples of a category are searched for. -/
def ExampleCategory.frame (category : ExampleCategory) (source : Text) : Text :=
  if category.isFullMatch then "\\A(?:" ++ source ++ ")\\z" else source

/-- The examples that the expression finds when it should not, or does not find when it should. -/
def offending (regex : Regex.Compiled) (expected : Bool) :
    List Text → Except Regex.EngineFault (List Text)
  | [] => .ok []
  | e :: rest => do
      let found ← regex.search e
      let others ← offending regex expected rest
      return if found = expected then others else e :: others

/-- The offending examples of a category, for a matcher with this expression. -/
def ExampleCategory.offending (category : ExampleCategory) (source : Text) (examples : List Text) :
    Except Regex.EngineFault (List Text) := do
  let regex ← Regex.compile (category.frame source)
  PatternGrammar.offending regex category.expectsMatch examples

/-- The report on a category that could not be checked. -/
def failureReport (plugins : List Plugin) (self : Pattern) (source : Text)
    (category : ExampleCategory) (examples : List Text) (e : Error) : Diagnostic :=
  { message :=
      "When testing the pattern " ++ self.name plugins ++ ". The unit test for " ++ category.name ++
        " could not run: " ++ e.message (Pattern.name plugins)
    source
    display := self.toText plugins
    category
    examples }

/-- The report on a category some of whose examples offend. -/
def offenceReport (plugins : List Plugin) (self : Pattern) (source : Text)
    (category : ExampleCategory) (examples : List Text) : Diagnostic :=
  { message :=
      "When testing the pattern /" ++ source ++ "/. The unit test for " ++ category.name ++ " failed."
    source
    display := self.toText plugins
    category
    examples }

/-- The report on one category of the node that `self` starts with, if there is anything to report. -/
def categoryReport? (plugins : List Plugin) (self : Pattern) (source : Except Error Text)
    (category : ExampleCategory) (examples : List Text) : Except Error (Option Diagnostic) :=
  match source with
  | .error e =>
      if e.isInternal then .error e else .ok (some (failureReport plugins self [] category examples e))
  | .ok source =>
      match category.offending source examples with
      | .error fault => .ok (some (failureReport plugins self source category examples (.engine fault)))
      | .ok [] => .ok none
      | .ok (e :: rest) => .ok (some (offenceReport plugins self source category (e :: rest)))

/-- How far a check has come: whether everything has passed so far, and the reports, those that were there
before the check in front. -/
structure TestRun where
  passed : Bool := true
  reports : List Diagnostic

/-- The check with another part of it done. That part passes or fails by itself, and its reports continue those
of the check. -/
def TestRun.with (run part : TestRun) : TestRun := ⟨part.passed && run.passed, part.reports⟩

/-- The check goes on with one more report. -/
def TestRun.fail (run : TestRun) (d : Diagnostic) : TestRun := ⟨false, run.reports ++ [d]⟩

/-- Checks some categories of a node, in order. -/
def testExamples (plugins : List Plugin) (self : Pattern) (source : Except Error Text) (o : Options) :
    List ExampleCategory → TestRun → Except Error TestRun
  | [], run => .ok run
  | category :: rest, run =>
      match o.examples category with
      | none => testExamples plugins self source o rest run
      | some examples => do
          let report? ← categoryReport? plugins self source category examples
          testExamples plugins self source o rest (report?.elim run run.fail)

mutual
/-- Checks a pattern, behind reports that are there already: the node itself, what is nested in it, the rest of
its chain, and its included patterns. -/
def Pattern.runTests (plugins : List Plugin) (reports : List Diagnostic) : Pattern → Except Error TestRun
  | .last node => do
      let run ← node.runTests plugins (.last node) reports
      node.runIncluded plugins run
  | .link node next => do
      let run ← node.runTests plugins (.link node next) reports
      let behind ← next.runTests plugins run.reports
      node.runIncluded plugins (run.with behind)

/-- Checks the node that `self` starts with and what is nested in it. -/
def Node.runTests (plugins : List Plugin) (self : Pattern) (reports : List Diagnostic) :
    Node → Except Error TestRun
  | .mk _ matcher _ options _ => do
      let run ← testExamples plugins self matcher.source options ExampleCategory.all { reports }
      matcher.runTests plugins run

def Matcher.runTests (plugins : List Plugin) (run : TestRun) : Matcher → Except Error TestRun
  | .literal _ => .ok run
  | .fragment _ => .ok run
  | .nested pattern => do return run.with (← pattern.runTests plugins run.reports)

/-- Checks the included patterns of a node. -/
def Node.runIncluded (plugins : List Plugin) (run : TestRun) : Node → Except Error TestRun
  | .mk _ _ includes _ _ =>
      match includes with
      | none => .ok run
      | some list => runIncludes plugins list run

def runIncludes (plugins : List Plugin) : List Include → TestRun → Except Error TestRun
  | [], run => .ok run
  | entry :: rest, run => do runIncludes plugins rest (← entry.runTests plugins run)

def Include.runTests (plugins : List Plugin) (run : TestRun) : Include → Except Error TestRun
  | .pattern pattern => do return run.with (← pattern.runTests plugins run.reports)
  | .symbol _ => .ok run
  | .text _ => .ok run
end

/-- All reports on a pattern. -/
def Pattern.diagnostics (plugins : List Plugin) (p : Pattern) : Except Error (List Diagnostic) := do
  return (← p.runTests plugins []).reports

/-- What is printed for a report. -/
def Diagnostic.print (d : Diagnostic) : Text :=
  "\n" ++ d.toText ++ "\nThe failing pattern is below:\n" ++ d.display ++ "\n"

/-- Whether a check passed, and what it printed. -/
structure Verdict where
  passed : Bool
  printed : Text
  deriving DecidableEq, Repr

/-- Checks every example of a pattern and prints the reports. -/
def Pattern.runExamples (plugins : List Plugin) (p : Pattern) : Except Error Verdict := do
  let run ← p.runTests plugins []
  return ⟨run.passed, run.reports.flatMap Diagnostic.print⟩

/-- The verdict of one plugin's check. -/
def Plugin.verdict (plugins : List Plugin) (plugin : Plugin) (p : Pattern) : Except Error Verdict :=
  match plugin.check with
  | .custom holds => .ok ⟨holds p, []⟩
  | .examples => p.runExamples plugins

/-- The checks of these plugins, all of them even after one fails. -/
def verdictOf (plugins : List Plugin) (p : Pattern) : List Plugin → Except Error Verdict
  | [] => .ok ⟨true, []⟩
  | plugin :: rest => do
      let first ← plugin.verdict plugins p
      let others ← verdictOf plugins p rest
      return ⟨first.passed && others.passed, first.printed ++ others.printed⟩

/-- The checks of every plugin. -/
def lint (plugins : List Plugin) (p : Pattern) : Except Error Verdict := verdictOf plugins p plugins

end PatternGrammar
