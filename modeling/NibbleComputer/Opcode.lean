import NibbleComputer.Nibble
import NibbleComputer.Text.Uppercase

/-!
# Opcodes

Every nibble is an opcode. Eleven have a meaning of their own; those from 9 to 13 are reserved
and do nothing.

- `Opcode`: the opcodes, `Opcode.assigned` those with a mnemonic.
- `Opcode.ofNibble`, `Opcode.code`: decoding and encoding.
- `Opcode.mnemonic`, `Opcode.ofMnemonic?`: the name in assembly text and its look-up.
- `Opcode.takesOperand`, `Opcode.width`: the size of an instruction.
-/

namespace NibbleComputer

/-- What an instruction does. -/
inductive Opcode where
  /-- Nothing. -/
  | nop
  /-- The accumulator takes the addressed cell. -/
  | lda
  /-- The addressed cell is added to the accumulator. -/
  | add
  /-- The addressed cell is subtracted from the accumulator. -/
  | sub
  /-- The addressed cell takes the accumulator. -/
  | sta
  /-- The accumulator takes the operand. -/
  | ldi
  /-- The program counter takes the operand. -/
  | jmp
  /-- The program counter takes the operand if the carry flag is set. -/
  | jc
  /-- The program counter takes the operand if the zero flag is set. -/
  | jz
  /-- Nothing; the nibble has no meaning assigned. -/
  | reserved (nibble : Nibble)
  /-- The output register takes the accumulator. -/
  | out
  /-- The clock stops. -/
  | hlt
deriving DecidableEq

namespace Opcode

/-- The opcodes with a meaning, in the order of their codes. -/
def assigned : List Opcode := [nop, lda, add, sub, sta, ldi, jmp, jc, jz, out, hlt]

/-- The opcode that a nibble stands for. -/
def ofNibble (n : Nibble) : Opcode :=
  match n with
  | 0 => nop
  | 1 => lda
  | 2 => add
  | 3 => sub
  | 4 => sta
  | 5 => ldi
  | 6 => jmp
  | 7 => jc
  | 8 => jz
  | 14 => out
  | 15 => hlt
  | n => reserved n

/-- The nibble that an opcode is stored as. -/
def code : Opcode → Nibble
  | nop => 0
  | lda => 1
  | add => 2
  | sub => 3
  | sta => 4
  | ldi => 5
  | jmp => 6
  | jc => 7
  | jz => 8
  | reserved n => n
  | out => 14
  | hlt => 15

/-- The name in assembly text; a reserved opcode shows as the one that does nothing. -/
def mnemonic : Opcode → String
  | nop | reserved _ => "NOP"
  | lda => "LDA"
  | add => "ADD"
  | sub => "SUB"
  | sta => "STA"
  | ldi => "LDI"
  | jmp => "JMP"
  | jc => "JC"
  | jz => "JZ"
  | out => "OUT"
  | hlt => "HLT"

/-- The full name; a reserved opcode has none of its own. -/
def name : Opcode → String
  | nop => "Nop"
  | lda => "Lda"
  | add => "Add"
  | sub => "Sub"
  | sta => "Sta"
  | ldi => "Ldi"
  | jmp => "Jmp"
  | jc => "Jc"
  | jz => "Jz"
  | reserved _ => "Reserved"
  | out => "Out"
  | hlt => "Hlt"

/-- The full name, with the nibble of a reserved opcode. -/
def inspect : Opcode → String
  | reserved n => "Reserved(" ++ n.inspect ++ ")"
  | opcode => opcode.name

/-- The assigned opcode with the given mnemonic, in letters of either case. -/
def ofMnemonic? (word : List Char) : Option Opcode :=
  assigned.find? fun opcode => Text.sameIgnoringCase opcode.mnemonic.toList word

/-- The assigned opcode with the given full name. -/
def ofName? (name : String) : Option Opcode :=
  assigned.find? fun opcode => opcode.name == name

/-- Whether an operand nibble follows the opcode. -/
def takesOperand : Opcode → Bool
  | lda | add | sub | sta | ldi | jmp | jc | jz => true
  | nop | reserved _ | out | hlt => false

/-- The number of nibbles of an instruction. -/
def width (opcode : Opcode) : Nat :=
  if opcode.takesOperand then 2 else 1

/-- Decoding and encoding a nibble gives it back. -/
@[simp] theorem code_ofNibble (n : Nibble) : (ofNibble n).code = n := by
  revert n
  decide

/-- An assigned opcode is decoded from its code. -/
theorem ofNibble_code {opcode : Opcode} (h : opcode ∈ assigned) :
    ofNibble opcode.code = opcode := by
  revert opcode
  decide

/-- An assigned opcode is found by its mnemonic. -/
theorem ofMnemonic?_mnemonic {opcode : Opcode} (h : opcode ∈ assigned) :
    ofMnemonic? opcode.mnemonic.toList = some opcode := by
  revert opcode
  decide

theorem mem_assigned_of_ofMnemonic? {word : List Char} {opcode : Opcode}
    (h : ofMnemonic? word = some opcode) : opcode ∈ assigned :=
  List.mem_of_find?_eq_some h

theorem width_pos (opcode : Opcode) : 0 < opcode.width := by
  unfold width
  split <;> decide

end Opcode

end NibbleComputer
