import PatternGrammar.CommandLine

/-!
# The program

Reads the file that the arguments name, lets the command line tool run on it, and prints what it leaves.
-/

open PatternGrammar

/-- The bytes of a file, if it can be read. -/
def readFileBytes (path : Text) : IO (Option Text) := do
  try
    return some (← IO.FS.readBinFile path.toString).data.toList
  catch _ => return none

/-- Writes bytes and nothing else. -/
def writeBytes (stream : IO.FS.Stream) (t : Text) : IO Unit := do
  stream.write ⟨t.toArray⟩
  stream.flush

def main (arguments : List String) : IO UInt32 := do
  let arguments := arguments.map Text.ofString
  let content ←
    match CommandLine.readArguments {} arguments with
    | .request r => readFileBytes r.file
    | _ => pure none
  let output := CommandLine.run "tmgrammar" arguments fun _ => content
  writeBytes (← IO.getStdout) output.stdout
  writeBytes (← IO.getStderr) output.stderr
  return output.status
