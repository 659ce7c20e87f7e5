import PatternGrammar.Regex.Fault
import PatternGrammar.Regex.Syntax

/-!
# Alternatives of conditional groups

A condition chooses between two alternatives at most, and a group that is only defined has a single one. A
group with too many is reported where its condition refers to something, or else where the same alternative
referred to something last.
-/

namespace PatternGrammar.Regex

/-- The last place at which an alternative refers to something, after one more item. -/
def placeAfter (last : Nat) : Item → Nat
  | .backReference target _ | .call target => target.offset
  | .single _ | .anchor _ | .keepOut | .verb _ | .callout _ | .settings => last

/-- The place of a condition. A number is reported with the signs in front of it. -/
def Condition.place (last : Nat) : Condition → Nat
  | .captured ⟨.number _, offset⟩ => offset - 2
  | .captured ⟨.name _, offset⟩ => offset
  | .inCallOf target => target.offset
  | .inCall _ offset | .define offset => offset
  | .constant _ | .look => last

/-- The last place after the head of a group. -/
def GroupKind.placeAfter (last : Nat) : GroupKind → Nat
  | .conditional c => c.place last
  | .plain | .capture _ _ | .atomic | .scriptRun | .look _ _ => last

/-- A group does not have more alternatives than its condition allows. -/
def checkBranches (kind : GroupKind) (body : Regex) (place : Nat) : Except SyntaxError Unit :=
  match kind with
  | .conditional (.define _) =>
      if 1 < body.branchCount then .error ⟨.tooManyDefined, place⟩ else .ok ()
  | .conditional _ => if 2 < body.branchCount then .error ⟨.tooManyBranches, place⟩ else .ok ()
  | _ => .ok ()

/-- Checks all conditional groups, inner ones first; `last` is the last place in the alternative so far. -/
def checkConditions (last : Nat) : Regex → Except SyntaxError Unit
  | .stop => .ok ()
  | .bar next => checkConditions 0 next
  | .item i _ next => checkConditions (placeAfter last i) next
  | .group kind body _ next => do
      let place := kind.placeAfter last
      checkConditions 0 body
      checkBranches kind body place
      checkConditions place next

end PatternGrammar.Regex
