import NibbleComputer.Opcode
import NibbleComputer.Text.Blank
import NibbleComputer.Text.Lines

/-!
# Assembly source

A source line holds an optional label, an optional statement and an optional comment. The
comment starts at the first `//` or `;`. The label is a word of ASCII letters, digits and
underscores, directly followed by a colon. The statement is what remains, as words.

- `Assembly.stripComment`, `Assembly.splitLabel?`: the parts of a line.
- `Assembly.Line`: a line taken apart; `Assembly.Line.width` is the size of its statement.
- `Assembly.sourceLines`: the lines of a source.
- `Assembly.Statement`, `Assembly.statements`: the lines that have a statement.
-/

namespace NibbleComputer.Assembly

/-- A line up to its first comment mark. -/
def stripComment : List Char → List Char
  | [] => []
  | ';' :: _ => []
  | '/' :: '/' :: _ => []
  | c :: rest => c :: stripComment rest

/-- Whether a character may stand in a label. -/
def isLabelChar (c : Char) : Bool :=
  c.isAlphanum || c == '_'

/-- The label at the start of a text and the text after its colon. -/
def splitLabel? (text : List Char) : Option (List Char × List Char) :=
  let label := text.takeWhile (· != ':')
  match text.dropWhile (· != ':') with
  | [] => none
  | _ :: rest => if !label.isEmpty && label.all isLabelChar then some (label, rest) else none

/-- A source line taken apart. -/
structure Line where
  /-- The number of the line in the source, counted from one. -/
  number : Nat
  /-- The label that the line defines, as written. -/
  label? : Option (List Char)
  /-- The words of the statement. -/
  words : List (List Char)
deriving DecidableEq

/-- Takes a line of the source apart. -/
def Line.read (text : List Char) (number : Nat) : Line :=
  let text := Text.trim (stripComment text)
  match splitLabel? text with
  | some (label, rest) => { number, label? := some label, words := Text.words rest }
  | none => { number, label? := none, words := Text.words text }

/-- The lines of a source. -/
def sourceLines (source : List Char) : List Line :=
  (Text.numberedLines source).map fun line => .read line.1 line.2

/-- The number of nibbles that a statement with the given first word takes. A word that is no
mnemonic counts as one nibble. -/
def wordWidth (word : List Char) : Nat :=
  match Opcode.ofMnemonic? word with
  | some opcode => opcode.width
  | none => 1

/-- The number of nibbles that the statement of a line takes. -/
def Line.width (line : Line) : Nat :=
  match line.words with
  | [] => 0
  | word :: _ => wordWidth word

/-- The statement of a line: its first word and the word after it. Further words have no
meaning. -/
structure Statement where
  /-- The number of the line in the source. -/
  line : Nat
  /-- The first word, as written. -/
  mnemonic : List Char
  /-- The second word, as written. -/
  operand? : Option (List Char)
deriving DecidableEq

/-- The statement of a line, if it has one. -/
def Line.statement? (line : Line) : Option Statement :=
  match line.words with
  | [] => none
  | mnemonic :: others => some { line := line.number, mnemonic, operand? := others.head? }

/-- The number of nibbles that a statement takes. -/
def Statement.width (statement : Statement) : Nat :=
  wordWidth statement.mnemonic

/-- The statements of some lines, in order. -/
def statements (lines : List Line) : List Statement :=
  lines.filterMap Line.statement?

/-- A line takes as many nibbles as its statement. -/
theorem Line.width_eq (line : Line) :
    line.width = (line.statement?.map Statement.width).getD 0 := by
  unfold width statement? Statement.width
  split <;> rfl

end NibbleComputer.Assembly
