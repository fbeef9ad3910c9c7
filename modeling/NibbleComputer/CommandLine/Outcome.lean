import NibbleComputer.Assembly.Program
import NibbleComputer.Image

/-!
# Outcomes

What a command leaves behind: an exit code, what it has printed, and the file it has written. The
log is left out: with `-vv` or more the messages of the machine and of the assembler are printed on
standard output too, each with the time.

- `CommandLine.Failure`: why a command cannot be carried out.
- `CommandLine.Outcome`: the outcome.
- `CommandLine.Outcome.success`, `CommandLine.Outcome.failure`: its two common forms.
-/

namespace NibbleComputer.CommandLine

/-- Why a command cannot be carried out. -/
inductive Failure where
  /-- A source could not be read. -/
  | readSource (error : Files.Error)
  /-- A source could not be assembled. -/
  | assemble (error : Assembly.Error)
  /-- An image could not be read. -/
  | loadImage (error : Image.Error)
  /-- A program did not fit into memory. -/
  | loadProgram (error : MemoryError)
  /-- An image could not be written. -/
  | saveImage (error : Image.Error)
deriving DecidableEq

/-- The failure in words. -/
def Failure.message : Failure → String
  | readSource error => "Failed to read file: " ++ error.message
  | assemble error => "Assembly error: " ++ error.message
  | loadImage error => "Failed to load image: " ++ error.message
  | loadProgram error => "Failed to load program: " ++ error.message
  | saveImage error => "Failed to save image: " ++ error.message

/-- What a command leaves behind. -/
structure Outcome where
  exit : Nat
  /-- What has been printed on standard output, but for the log. -/
  stdout : String := ""
  /-- What has been printed on standard error. -/
  stderr : String := ""
  /-- The file that has been written, with its content. -/
  saved? : Option (String × ByteArray) := none

namespace Outcome

/-- The outcome of a command that has printed some lines. -/
def success (lines : List String) : Outcome :=
  { exit := 0, stdout := Text.unlines lines }

/-- The outcome of a command that has printed some lines and then failed. -/
def failure (lines : List String) (failure : Failure) : Outcome :=
  { exit := 1, stdout := Text.unlines lines, stderr := Text.unlines ["❌ " ++ failure.message] }

/-- The content of a file afterwards. -/
def content? (outcome : Outcome) (files : Files) (name : String) : Option ByteArray :=
  match outcome.saved? with
  | some (saved, content) => if name = saved then some content else files.content? name
  | none => files.content? name

end Outcome

end NibbleComputer.CommandLine
