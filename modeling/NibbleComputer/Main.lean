import NibbleComputer.CommandLine.Commands

/-!
# The program

Reads the file that the arguments name, computes the outcome, and carries it out.
-/

namespace NibbleComputer.CommandLine

/-- The content of a file, if it can be read. -/
def readFile? (name : String) : IO (Option ByteArray) := do
  try
    return some (← IO.FS.readBinFile name)
  catch _ =>
    return none

/-- Writes a file; the result tells whether that was possible. -/
def writeFile (name : String) (content : ByteArray) : IO Bool := do
  try
    IO.FS.writeBinFile name content
    return true
  catch _ =>
    return false

/-- The files that the arguments give access to. -/
def filesFor (arguments : List String) : IO Files := do
  let .ok command := parse arguments | return .ofContents []
  let some name := command.input? | return .ofContents []
  let content? ← readFile? name
  return {
    content? := fun other => if other = name then content? else none
    writable := fun _ => true }

/-- Prints what an outcome says and gives its exit code. -/
def finish (outcome : Outcome) : IO UInt32 := do
  IO.print outcome.stdout
  IO.eprint outcome.stderr
  return outcome.exit.toUInt32

/-- Carries out the outcome of the arguments. If its file cannot be written, that is the outcome
of a place where no file can be. -/
def carryOut (arguments : List String) : IO UInt32 := do
  let files ← filesFor arguments
  let outcome := run arguments files
  match outcome.saved? with
  | none => finish outcome
  | some (name, content) =>
    if ← writeFile name content then finish outcome
    else finish (run arguments { files with writable := fun _ => false })

end NibbleComputer.CommandLine

/-- The entry point of the program. -/
def main (arguments : List String) : IO UInt32 :=
  NibbleComputer.CommandLine.carryOut arguments
