import PatternGrammar.CommandLine
import PatternGrammar.Proofs.ExampleTests

/-!
# A grammar or nothing

A run of the tool prints the grammar of the file that its arguments name last, or it prints nothing and says on the
error channel why. The arguments decide in their order only about help, unknown options and the file; what they
switch on they switch on from anywhere and as often as they like.
-/

namespace PatternGrammar.CommandLine

/-! ## Arguments -/

/-- The argument switches something on. -/
def isSwitch (a : Text) : Bool := a = ("--test" : Text) || a = ("--compact" : Text) || a = ("--debug" : Text)

def isHelp (a : Text) : Bool := a = ("--help" : Text) || a = ("-h" : Text)

/-- The argument is written like an option, and there is no such option. -/
def isUnknown (a : Text) : Bool := a.startsWith "--" && !isSwitch a && !isHelp a

/-- The argument names a file. -/
def isFile (a : Text) : Bool := !isSwitch a && !isHelp a && !isUnknown a

/-- The argument ends the run before any file is read. -/
def isFinal (a : Text) : Bool := isHelp a || isUnknown a

/-- The last file that the arguments name; empty if they name none. -/
def lastFile (arguments : List Text) : Text := (arguments.filter isFile).getLast?.getD []

/-- What the arguments ask for if none of them ends the run. -/
def requestOf (arguments : List Text) : Request where
  runTests := arguments.contains "--test"
  compact := arguments.contains "--compact"
  debug := arguments.contains "--debug"
  file := lastFile arguments

/-- The request with more arguments behind it. -/
def Request.extended (r : Request) (arguments : List Text) : Request where
  runTests := r.runTests || arguments.contains "--test"
  compact := r.compact || arguments.contains "--compact"
  debug := r.debug || arguments.contains "--debug"
  file := (arguments.filter isFile).getLast?.getD r.file

/-- The arguments have a file read that holds this content. A file whose name is empty cannot be read. -/
structure Reads (arguments : List Text) (readFile : Text → Option Text) (content : Text) : Prop where
  goes_on : ∀ a ∈ arguments, isHelp a = false ∧ isUnknown a = false
  named : lastFile arguments ≠ []
  readable : readFile (lastFile arguments) = some content

/-- The examples of the pattern are checked and all of them are as they should be. -/
def PassesTests (p : Pattern) : Prop := ∃ run, p.runTests [.exampleTests] [] = .ok run ∧ run.passed = true

/-- The file loads, its rules pass the checks that are asked for, and this document is its export. -/
def Delivers (arguments : List Text) (readFile : Text → Option Text) (document : Json) : Prop :=
  ∃ content g, Reads arguments readFile content ∧
    (loadText (requestOf arguments).plugins content).result = .ok g ∧
    (("--test" : Text) ∈ arguments → ∀ rule ∈ g.rules, PassesTests rule.2) ∧ g.export = .ok document

theorem Delivers.unique {arguments : List Text} {readFile : Text → Option Text} {document other : Json}
    (h : Delivers arguments readFile document) (h' : Delivers arguments readFile other) : document = other := by
  obtain ⟨content, g, hr, hl, -, he⟩ := h
  obtain ⟨content', g', hr', hl', -, he'⟩ := h'
  obtain rfl := Option.some.inj (hr.readable.symm.trans hr'.readable)
  obtain rfl := Except.ok.inj (hl.symm.trans hl')
  exact Except.ok.inj (he.symm.trans he')

/-! ## The checks of the rules -/

/-- The status of a run and what it prints. -/
def Output.answer (o : Output) : UInt32 × Text := (o.status, o.stdout)

/-- A request that has read this content leads to this document. -/
def Request.Yields (r : Request) (content : Text) (document : Json) : Prop :=
  ∃ g, (loadText r.plugins content).result = .ok g ∧
    (r.runTests = true → ∀ rule ∈ g.rules, PassesTests rule.2) ∧ g.export = .ok document

variable {program : Text} {arguments : List Text} {readFile : Text → Option Text}

/-- The two lists of arguments differ in their switches only: in where the switches stand, in how often, and in
whether logging is switched on. -/
structure AlikeButSwitches (arguments other : List Text) : Prop where
  others : other.filter (!isSwitch ·) = arguments.filter (!isSwitch ·)
  test : ("--test" : Text) ∈ other ↔ ("--test" : Text) ∈ arguments
  compact : ("--compact" : Text) ∈ other ↔ ("--compact" : Text) ∈ arguments

theorem AlikeButSwitches.symm {other : List Text} (h : AlikeButSwitches arguments other) :
    AlikeButSwitches other arguments := ⟨h.others.symm, h.test.symm, h.compact.symm⟩

end PatternGrammar.CommandLine
