import NibbleComputer.Files
import NibbleComputer.Memory
import NibbleComputer.Text.Blank
import NibbleComputer.Text.Lines

/-!
# Memory images

An image file holds one hexadecimal nibble a line, for the cells from address zero on. A
semicolon starts a comment, and lines without a number are skipped.

- `Image.Error`: why an image is refused.
- `Image.readNibble`: the nibble that a line without its comment denotes.
- `Image.parse`: the nibbles of an image text.
- `Image.render`: the image text of some nibbles.
- `Image.load`, `Image.store`, `Image.save`: image files.
-/

namespace NibbleComputer.Image

/-- What is wrong with a line of an image. -/
inductive Fault where
  /-- The line is no hexadecimal number of at most eight bits. -/
  | noNibble (text : String)
  /-- The number needs more than four bits. -/
  | tooWide (value : UInt8)
deriving DecidableEq

/-- Why an image is refused. -/
inductive Error where
  /-- The file could not be read or written. -/
  | io (reason : Files.Error)
  /-- A line is wrong; lines count from one. -/
  | parse (line : Nat) (fault : Fault)
  /-- There are more nibbles than memory has cells. -/
  | tooLarge (size : Nat)
deriving DecidableEq

/-- The fault in words. -/
def Fault.message : Fault → String
  | noNibble text => "expected a hex nibble, found '" ++ text ++ "'"
  | tooWide value => "value 0x" ++ Text.hexadecimal value.toNat ++ " does not fit in 4 bits"

/-- The error in words. -/
def Error.message : Error → String
  | io reason => "I/O error: " ++ reason.message
  | parse line fault =>
    "parse error on line " ++ Text.decimal line ++ ": " ++ fault.message
  | tooLarge size =>
    "image has " ++ Text.decimal size ++ " nibbles, memory holds 16"

/-! ## Reading -/

/-- A line up to its comment, without blanks at its ends. -/
def stripComment (line : List Char) : List Char :=
  Text.trim (line.takeWhile (· != ';'))

/-- A number without the mark `0x`, if it starts with it. -/
def dropMark : List Char → List Char
  | '0' :: 'x' :: digits => digits
  | '0' :: 'X' :: digits => digits
  | digits => digits

/-- The nibble of a number in hexadecimal digits, with an optional mark before them. -/
def readNibble (text : List Char) : Except Fault Nibble :=
  match Text.readByte? 16 (dropMark text) with
  | none => .error (.noNibble (String.ofList text))
  | some value => if value < 16 then .ok (.ofByte value) else .error (.tooWide value)

/-- The nibbles of some lines, or the fault of the first wrong line. -/
def parseLines : List (List Char × Nat) → Except Error (List Nibble)
  | [] => .ok []
  | (line, number) :: others =>
    let text := stripComment line
    if text.isEmpty then parseLines others
    else match readNibble text with
      | .error fault => .error (.parse number fault)
      | .ok nibble => (parseLines others).map (nibble :: ·)

/-- The nibbles of an image text. The lines are looked at before their number is. -/
def parse (text : String) : Except Error (List Nibble) :=
  match parseLines (Text.numberedLines text.toList) with
  | .error error => .error error
  | .ok nibbles =>
    if memorySize < nibbles.length then .error (.tooLarge nibbles.length) else .ok nibbles

/-! ## Writing -/

/-- The line of a nibble: the digit, and the address as a comment. -/
def renderLine (nibble : Nibble) (address : Nat) : String :=
  nibble.hex ++ " ; " ++ Text.hexadecimal address

/-- The image text of some nibbles, if memory has a cell for each. -/
def render (nibbles : List Nibble) : Except Error String :=
  if memorySize < nibbles.length then .error (.tooLarge nibbles.length)
  else .ok (Text.unlines
    (["; SAP-1 memory image", "; " ++ Text.decimal nibbles.length ++ " nibbles", ""] ++
      nibbles.zipIdx.map fun entry => renderLine entry.1 entry.2))

/-! ## Files -/

/-- The nibbles of an image file. -/
def load (files : Files) (name : String) : Except Error (List Nibble) :=
  match files.readText name with
  | .error reason => .error (.io reason)
  | .ok text => parse text

/-- Saves nibbles as an image: the files afterwards, and whether that was possible. The number of
nibbles is looked at before the file is. -/
def store (files : Files) (name : String) (nibbles : List Nibble) : Files × Except Error Unit :=
  match render nibbles with
  | .error error => (files, .error error)
  | .ok text =>
    match files.write name text.toUTF8 with
    | .error reason => (files, .error (.io reason))
    | .ok after => (after, .ok ())

/-- The files after the nibbles have been saved as an image, if that was possible. -/
def save (files : Files) (name : String) (nibbles : List Nibble) : Except Error Files :=
  (store files name nibbles).2.map fun _ => (store files name nibbles).1

end NibbleComputer.Image
