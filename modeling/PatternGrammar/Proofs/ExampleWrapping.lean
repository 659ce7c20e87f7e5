import PatternGrammar.Proofs.ExampleReferences
import PatternGrammar.Proofs.OuterGroup
import PatternGrammar.Proofs.RegroupedPrograms

/-!
# Examples of a wrapped pattern

Examples are checked with the expression of a matcher by itself, in which the whole match may take the place of the
group of the only node. With one node more around the matcher the expression has that group, and numbers one higher.
The same examples are reported as long as the expression does not speak of the whole match: if it calls group zero,
it calls the frame for full matches as well.
-/

namespace PatternGrammar

/-- What a report says, apart from how the pattern is written. -/
def Diagnostic.offence (d : Diagnostic) : ExampleCategory × List Text := (d.category, d.examples)

/-- Options with examples and nothing else. -/
def exampleOptions (lists : ExampleCategory → Option (List Text)) : Options :=
  { shouldFullyMatch := lists .shouldFullyMatch
    shouldNotFullyMatch := lists .shouldNotFullyMatch
    shouldPartiallyMatch := lists .shouldPartiallyMatch
    shouldNotPartiallyMatch := lists .shouldNotPartiallyMatch }

/-- The pattern in a node that declares examples. -/
def Pattern.testedWith (m : Pattern) (lists : ExampleCategory → Option (List Text)) : Pattern :=
  .last (.mk .plain (.nested m) none (exampleOptions lists) {})

/-- This is what the constructor makes of the pattern and the examples. -/
theorem Pattern.create_testedWith (m : Pattern) (lists : ExampleCategory → Option (List Text)) :
    Pattern.create .plain (.nested m) { toOptions := exampleOptions lists } = .ok (m.testedWith lists) := rfl

/-! ## What is reported -/

variable {plugins : List Plugin} {lists : ExampleCategory → Option (List Text)}

/-- Nested parentheses, with a call of the group that this name stands for. -/
def nestedParentheses (name : Text) : Pattern :=
  .link (.mk .plain (.literal "(") none {} {})
    (.link
      (.mk .plain (.nested (.last (.mk .subroutine (.fragment (placeholder .subroutine name)) none {} {}))) none {}
        ⟨some 0, some 1⟩)
      (.last (.mk .plain (.literal ")") none {} {})))

/-- Nested parentheses in a group that is called from within. It is the whole. -/
def calledWhole : Pattern :=
  .last (.mk .plain (.nested (nestedParentheses "whole")) none { reference := some "whole" } {})

/-- Two pairs of parentheses, which have to match as a whole. -/
def twoPairs : ExampleCategory → Option (List Text)
  | .shouldFullyMatch => some ["(())"]
  | _ => none

/-- By itself the expression calls the whole match, and with it the frame for full matches: within the outer
parentheses the frame asks for the beginning of the subject. With a node more around the pattern the call is one of
the group, and the example matches. -/
theorem calledWhole_tests :
    calledWhole.evaluate = .ok "\\(\\g<0>?\\)" ∧ calledWhole.toRegex.isOk ∧
      (∀ p ∈ calledWhole.tested, ∀ category ∈ ExampleCategory.all, p.head.options.examples category = none) ∧
      ∃ run run', (calledWhole.testedWith twoPairs).runTests [] [] = .ok run ∧
        (calledWhole.wrapped.testedWith twoPairs).runTests [] [] = .ok run' ∧
        run.passed = false ∧
        run.reports.map Diagnostic.offence = ([(.shouldFullyMatch, ["(())"])] : List (ExampleCategory × List Text)) ∧
        run'.passed = true ∧ run'.reports = [] := by
  have hfails : ((calledWhole.testedWith twoPairs).runTests [] []).toOption.map
      (fun run => (run.passed, run.reports.map Diagnostic.offence)) =
      some (false, ([(.shouldFullyMatch, ["(())"])] : List (ExampleCategory × List Text))) := by
    decide +kernel
  have hpasses : ((calledWhole.wrapped.testedWith twoPairs).runTests [] []).toOption.map
      (fun run => (run.passed, run.reports)) = some (true, []) := by
    decide +kernel
  refine ⟨rfl, by decide +kernel, by decide, ?_⟩
  generalize (calledWhole.testedWith twoPairs).runTests [] [] = found at hfails
  generalize (calledWhole.wrapped.testedWith twoPairs).runTests [] [] = found' at hpasses
  cases found with
  | error e => cases hfails
  | ok run =>
      cases found' with
      | error e => cases hpasses
      | ok run' =>
          have hfails := Prod.ext_iff.mp (Option.some.inj hfails)
          have hpasses := Prod.ext_iff.mp (Option.some.inj hpasses)
          exact ⟨run, run', rfl, rfl, hfails.1, hfails.2, hpasses.1, hpasses.2⟩

end PatternGrammar
