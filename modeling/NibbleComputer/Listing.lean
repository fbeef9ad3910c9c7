import NibbleComputer.Opcode

/-!
# Listings

A listing shows memory as instructions, read one after the other from the first cell. Code and
data look alike, and an operand beyond the last cell shows as a question mark.

- `Instruction`: an opcode nibble with its operand, if there is a cell for it.
- `Instruction.at?`: the instruction at an address, `Instruction.describeAt` its text and width.
- `Listing.rows`, `Listing.render`: all instructions with their addresses, and the listing.
- `Listing.flatMap_raw_rows`: the rows show every cell once.
-/

namespace NibbleComputer

/-- An instruction as memory shows it. -/
structure Instruction where
  /-- The cell that holds the opcode. -/
  head : Nibble
  /-- The cell that holds the operand, if the opcode takes one and there is such a cell. -/
  operand? : Option Nibble
deriving DecidableEq

namespace Instruction

/-- The opcode. -/
def opcode (instruction : Instruction) : Opcode :=
  .ofNibble instruction.head

/-- The cells of the instruction. -/
def raw (instruction : Instruction) : List Nibble :=
  instruction.head :: instruction.operand?.toList

/-- The number of cells of the instruction. -/
def width (instruction : Instruction) : Nat :=
  instruction.raw.length

/-- The mnemonic and the operand. -/
def text (instruction : Instruction) : String :=
  let mnemonic := instruction.opcode.mnemonic
  if instruction.opcode.takesOperand then
    match instruction.operand? with
    | some operand => mnemonic ++ " " ++ operand.decimal
    | none => mnemonic ++ " ?"
  else mnemonic

/-- The instruction at the start of some cells, if there is a cell. -/
def first? : List Nibble → Option Instruction
  | [] => none
  | head :: rest =>
    some { head, operand? := if (Opcode.ofNibble head).takesOperand then rest.head? else none }

/-- The instruction at an address, if there is a cell. -/
def at? (cells : List Nibble) (address : Nat) : Option Instruction :=
  first? (cells.drop address)

/-- The text at an address and the number of cells it covers. An address without a cell shows as
question marks and counts as one cell. -/
def describeAt (cells : List Nibble) (address : Nat) : String × Nat :=
  match at? cells address with
  | some instruction => (instruction.text, instruction.width)
  | none => ("???", 1)

/-- An instruction shows the cells that it starts with. -/
theorem raw_of_first? {cells : List Nibble} {instruction : Instruction}
    (h : first? cells = some instruction) :
    instruction.raw = cells.take instruction.width := by
  cases cells with
  | nil => simp [first?] at h
  | cons head rest =>
    obtain rfl := Option.some.inj h
    cases rest <;> simp only [raw, width] <;> split <;> simp

end Instruction

namespace Listing

/-- A line of a listing. -/
structure Row where
  address : Nat
  instruction : Instruction
deriving DecidableEq

/-- The instructions of some cells, the first of them at the given address. -/
def rows (address : Nat) : List Nibble → List Row
  | [] => []
  | head :: rest =>
    if (Opcode.ofNibble head).takesOperand then
      match rest with
      | [] => [{ address, instruction := { head, operand? := none } }]
      | operand :: rest =>
        { address, instruction := { head, operand? := some operand } } :: rows (address + 2) rest
    else { address, instruction := { head, operand? := none } } :: rows (address + 1) rest

/-- The address, the text in a column of eight, and the cells. -/
def Row.display (row : Row) : String :=
  Text.hexadecimal row.address ++ ": " ++ Text.padEnd 8 row.instruction.text ++ " ; " ++
    " ".intercalate (row.instruction.raw.map Nibble.hex)

/-- The lines at the top of a listing. -/
def header : List String := ["; SAP-1 Disassembly", "; -----------------", ""]

/-- The listing of some cells. -/
def render (cells : List Nibble) : String :=
  Text.unlines (header ++ (rows 0 cells).map Row.display)

/-- The rows of a listing show every cell once and in order. -/
theorem flatMap_raw_rows (address : Nat) (cells : List Nibble) :
    (rows address cells).flatMap (fun row => row.instruction.raw) = cells := by
  fun_induction rows address cells with
  | case1 => rfl
  | case2 => rfl
  | case3 address head h operand rest ih =>
    rw [List.flatMap_cons, ih]
    rfl
  | case4 address head rest h ih =>
    rw [List.flatMap_cons, ih]
    rfl

end Listing

end NibbleComputer
