import PatternGrammar.Regex.Assembly
import PatternGrammar.Regex.Branches
import PatternGrammar.Regex.Search

/-!
# Compiled expressions

A text is read, its lookbehinds get their widths, its extent and its references are checked, and its
conditional groups last. What is left can be put into code and searched for in any number of subjects.
-/

namespace PatternGrammar.Regex

structure Compiled where
  source : Text
  program : Program
  plan : Plan
  settings : Settings
  /-- Alternatives may be given up. -/
  hasLeave : Bool
  namesBreak : Bool

/-- Why an expression cannot be compiled, or a search not be carried through. -/
inductive EngineFault where
  | syntaxError (source : Text) (error : SyntaxError)
  | search (source subject : Text) (fault : SearchFault)
  deriving DecidableEq, Repr

/-- The words for a fault. -/
def EngineFault.message : EngineFault → Text
  | .syntaxError source error =>
      "Cannot compile /" ++ source ++ "/: " ++ error.fault.message ++ " at offset " ++
        Text.ofNat error.offset
  | .search source subject fault =>
      "Matching /" ++ source ++ "/ against \"" ++ subject ++ "\" failed: " ++ fault.message

/-- The code of an expression. -/
def programOf (groups : Groups) (widths : List (Nat × List Nat)) (settings : Settings) (regex : Regex) :
    Program :=
  let (code, leaves) := Assembler.assemble { groups, widths } regex
  let code := if settings.possessify then code.possessified (hasItem Item.isCall regex) else code
  { code
    leaves
    groupCount := groups.count
    definitions := definitionsInto [] (Array.replicate (groups.count + 1) none) code }

/-- What a text says, its groups, and the widths of its lookbehinds, if nothing is wrong with it. -/
def checked (t : Text) : Except SyntaxError (Reading.Result × Groups × List (Nat × List Nat)) := do
  let result ← readWhole t
  let groups := Groups.ofResult result
  let widths ← lookBehindWidths groups result.regex
  checkExtent { groups, widths, size := t.length } result.regex
  checkConditions 0 result.regex
  return (result, groups, widths)

/-- Compiles a text. -/
def compile (t : Text) : Except EngineFault Compiled :=
  match checked t with
  | .error e => .error (.syntaxError t e)
  | .ok (result, groups, widths) =>
      let program := programOf groups widths result.settings result.regex
      .ok {
        source := t
        program
        plan := program.plan groups result.settings result.regex
        settings := result.settings
        hasLeave := hasItem Item.leaves result.regex
        namesBreak := result.namesBreak }

/-- The text is a regular expression. -/
def compiles (t : Text) : Bool :=
  match checked t with
  | .ok _ => true
  | .error _ => false

/-- The number of numbered groups. -/
def Compiled.captureCount (c : Compiled) : Nat := c.program.groupCount

/-- The search for an expression through a subject. -/
def Compiled.searchIn (c : Compiled) (subject : Text) : Search :=
  let s := Subject.ofText subject c.settings
  { engine := { program := c.program, subject := s, settings := c.settings, hasLeave := c.hasLeave }
    plan := c.plan
    namesBreak := c.namesBreak
    lastNeeded := c.plan.later.bind fun b => s.lastByte? b.accepts s.size }

/-- The expression matches somewhere in the subject. -/
def Compiled.search (c : Compiled) (subject : Text) : Except EngineFault Bool :=
  let x := c.searchIn subject
  (x.run x.fuel 0 0).mapError (.search c.source subject)

end PatternGrammar.Regex
