import PatternGrammar.Document
import PatternGrammar.Pattern.Examples

/-!
# The command line tool

The tool reads a document from a file and prints its grammar rules, or says on the error channel why it
does not. The arguments are read from left to right; the last file named counts.
-/

namespace PatternGrammar.CommandLine

/-- What the tool leaves behind: an exit status and the two channels. -/
structure Output where
  status : UInt32
  stdout : Text := []
  stderr : Text := []
  deriving DecidableEq, Repr

/-- What the arguments ask for. -/
structure Request where
  runTests : Bool := false
  compact : Bool := false
  debug : Bool := false
  file : Text := []
  deriving DecidableEq, Repr

/-- How the arguments are read: a request, or the end of the run before any file is read. -/
inductive Reading where
  | request (r : Request)
  | help
  | unknownOption (argument : Text)
  deriving DecidableEq, Repr

/-- Reads the arguments that are left. -/
def readArguments (r : Request) : List Text → Reading
  | [] => .request r
  | argument :: rest =>
      if argument = ("--test" : Text) then readArguments { r with runTests := true } rest
      else if argument = ("--compact" : Text) then readArguments { r with compact := true } rest
      else if argument = ("--debug" : Text) then readArguments { r with debug := true } rest
      else if argument = ("--help" : Text) || argument = ("-h" : Text) then .help
      else if argument.startsWith "--" then .unknownOption argument
      else readArguments { r with file := argument } rest

/-- How the tool is used. -/
def usage (program : Text) : Text :=
  "Usage: " ++ program ++ " [options] <patterns.json>\n" ++
    "\nReads a repository of patterns and prints the grammar rules built from them.\n" ++
    "\nOptions:\n" ++
    "  --test       Check the example strings of every pattern\n" ++
    "  --compact    Print the rules on a single line\n" ++
    "  --debug      Enable debug logging\n" ++
    "  --help, -h   Show this message\n"

/-- The plugins that are installed for a request. -/
def Request.plugins (r : Request) : List Plugin := if r.runTests then [.exampleTests] else []

/-- A line on the error channel. -/
def errorLine (message : Text) : Text := "Error: " ++ message ++ "\n"

/-- The line for an error of the library. -/
def describeError (plugins : List Plugin) (e : Error) : Text :=
  errorLine (e.message (Pattern.name plugins))

/-- The checks of every rule, each one even after another has failed. -/
def lintRules (plugins : List Plugin) : List (Text × Pattern) → Text × Except Error Bool
  | [] => ([], .ok true)
  | (name, p) :: rest =>
      match lint plugins p with
      | .error e => ([], .error e)
      | .ok verdict =>
          let (printed, passed) := lintRules plugins rest
          let complaint : Text :=
            if verdict.passed then [] else "Rule " ++ name ++ " failed its checks\n"
          (verdict.printed ++ complaint ++ printed, passed.map (verdict.passed && ·))

/-- The document as text, on one line or indented. -/
def Request.print (r : Request) (document : Json) : Text :=
  (if r.compact then document.compact else document.indented 0) ++ "\n"

/-- The run over a grammar that has been loaded; `printed` is what the error channel holds already. -/
def Request.finish (r : Request) (printed : Text) (g : Grammar) : Output :=
  let (complaints, checked) := lintRules r.plugins g.rules
  let printed := printed ++ complaints
  match checked with
  | .error e => { status := 1, stderr := printed ++ describeError r.plugins e }
  | .ok false => { status := 1, stderr := printed }
  | .ok true =>
      match g.export with
      | .error e => { status := 1, stderr := printed ++ describeError r.plugins e }
      | .ok document => { status := 0, stdout := r.print document, stderr := printed }

/-- The run over the content of the file. -/
def Request.runOn (r : Request) (content : Text) : Output :=
  let loading := loadText r.plugins content
  let log := if r.debug then loading.printedLog else []
  match loading.result with
  | .error e => { status := 1, stderr := log ++ describeError r.plugins e }
  | .ok g => r.finish log g

/-- A whole run. `readFile` gives the content of a file that can be opened. -/
def run (program : Text) (arguments : List Text) (readFile : Text → Option Text) : Output :=
  if arguments.isEmpty then { status := 1, stderr := usage program }
  else
    match readArguments {} arguments with
    | .help => { status := 0, stderr := usage program }
    | .unknownOption argument => { status := 1, stderr := errorLine ("Unknown option " ++ argument) }
    | .request r =>
        if r.file.isEmpty then { status := 1, stderr := errorLine "No pattern file specified" }
        else
          match readFile r.file with
          | none => { status := 1, stderr := errorLine ("Cannot open file: " ++ r.file) }
          | some content => r.runOn content

end PatternGrammar.CommandLine
