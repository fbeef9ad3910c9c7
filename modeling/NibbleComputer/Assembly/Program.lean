import NibbleComputer.Assembly.Labels
import NibbleComputer.Assembly.Literal
import NibbleComputer.Log
import NibbleComputer.Memory

/-!
# Programs

Assembly in two passes: the first gives every label its address, the second encodes the
statements one after the other, so that an operand may name a label defined further down.

- `Assembly.Fault`, `Assembly.Error`: what can be wrong with a statement, and on which line.
- `Assembly.encode`: the nibbles of a statement.
- `Assembly.encodeFrom`: the nibbles of all statements, or the first error.
- `Assembly.Program`, `Assembly.assemble`: the memory image of a source, its size and labels.
-/

namespace NibbleComputer.Assembly

/-- What is wrong with a statement. -/
inductive Fault where
  /-- The statement does not fit into memory. -/
  | programTooLarge
  /-- The first word is no mnemonic. -/
  | unknownInstruction (mnemonic : String)
  /-- The operand is missing. -/
  | missingOperand (opcode : Opcode)
  /-- The operand is neither a label nor a literal. -/
  | invalidOperand (operand : String)
  /-- The value of a `DATA` statement is missing or no literal. -/
  | invalidData (value : String)
deriving DecidableEq

/-- The first error of a source. -/
structure Error where
  /-- The number of the line, counted from one. -/
  line : Nat
  fault : Fault
deriving DecidableEq

/-- The error in words. -/
def Error.message (error : Error) : String :=
  let place := " at line " ++ Text.decimal error.line
  match error.fault with
  | .programTooLarge => "program too large: exceeded 16 nibbles" ++ place
  | .unknownInstruction mnemonic => "unknown instruction '" ++ mnemonic ++ "'" ++ place
  | .missingOperand opcode => "missing operand for " ++ opcode.mnemonic ++ place
  | .invalidOperand operand => "invalid operand '" ++ operand ++ "'" ++ place
  | .invalidData value => "invalid DATA value '" ++ value ++ "'" ++ place

/-- The word that places a raw nibble. -/
def dataWord : List Char := "DATA".toList

/-- The value of an operand: the address of the label it names, else the literal it is. -/
def resolve? (labels : LabelTable) (word : List Char) : Option Nibble :=
  match labels.find? (labelKey word) with
  | some address => some (.ofNat address)
  | none => readLiteral? word

/-- The nibble of a `DATA` statement. -/
def encodeData (operand? : Option (List Char)) : Except Fault (List Nibble) :=
  match operand?.bind readLiteral? with
  | some value => .ok [value]
  | none => .error (.invalidData (String.ofList (operand?.getD [])))

/-- The nibbles of an instruction at the given address. Room for the operand is looked for
before the operand itself. -/
def encodeInstruction (labels : LabelTable) (address : Nat) (opcode : Opcode)
    (operand? : Option (List Char)) : Except Fault (List Nibble) :=
  if !opcode.takesOperand then .ok [opcode.code]
  else if memorySize ≤ address + 1 then .error .programTooLarge
  else match operand? with
    | none => .error (.missingOperand opcode)
    | some word =>
      match resolve? labels word with
      | some value => .ok [opcode.code, value]
      | none => .error (.invalidOperand (String.ofList word))

/-- The nibbles of a statement at the given address. -/
def encode (labels : LabelTable) (address : Nat) (statement : Statement) :
    Except Fault (List Nibble) :=
  if memorySize ≤ address then .error .programTooLarge
  else if Text.sameIgnoringCase statement.mnemonic dataWord then encodeData statement.operand?
  else match Opcode.ofMnemonic? statement.mnemonic with
    | some opcode => encodeInstruction labels address opcode statement.operand?
    | none => .error (.unknownInstruction (String.ofList (Text.upper statement.mnemonic)))

/-- The nibbles of some statements, the first of them at the given address, or the first error
among them. -/
def encodeFrom (labels : LabelTable) (address : Nat) :
    List Statement → Except Error (List Nibble)
  | [] => .ok []
  | statement :: others =>
    match encode labels address statement with
    | .error fault => .error { line := statement.line, fault }
    | .ok nibbles =>
      match encodeFrom labels (address + nibbles.length) others with
      | .error error => .error error
      | .ok rest => .ok (nibbles ++ rest)

/-- An assembled program. -/
structure Program where
  /-- The memory image; cells without a nibble are zero. -/
  code : Memory
  /-- The number of nibbles. -/
  size : Nat
  /-- The addresses of the labels. -/
  labels : LabelTable
deriving DecidableEq

/-- The program of some source lines. -/
def assembleLines (lines : List Line) : Except Error Program :=
  let labels := labels lines
  (encodeFrom labels 0 (statements lines)).map fun nibbles =>
    { code := Memory.blank.fill nibbles, size := nibbles.length, labels }

/-- The program of a source, or its first error. -/
def assemble (source : String) : Except Error Program :=
  assembleLines (sourceLines source.toList)

namespace Program

/-- The memory image as bytes. -/
def words (program : Program) : List UInt8 :=
  program.code.toList.map Nibble.toByte

/-- What assembling the program reports to a log. -/
def message (program : Program) : Log.Message :=
  ⟨.debug, "assembled " ++ Text.decimal program.size ++ " nibbles, labels: " ++
    program.labels.inspect⟩

end Program

end NibbleComputer.Assembly
