import NibbleComputer.Nibble

/-!
# Registers and the bus

Six registers of one nibble each share a bus of one nibble.

- `Register`: the names of the registers.
- `Registers`: their contents, with `read`, `load`, `increment` and `clear` by name.
- `Registers.read_load_self`, `Registers.read_load_of_ne`: a load changes one register only.
- `Registers.reset_eq`: a reset leaves no register out.
- `Bus`: the value on the bus.
-/

namespace NibbleComputer

/-- The name of a register. -/
inductive Register where
  /-- The program counter. -/
  | pc
  /-- The memory address register. -/
  | mar
  /-- The instruction register. -/
  | ir
  /-- The accumulator. -/
  | a
  /-- The second operand of the arithmetic unit. -/
  | b
  /-- The output register. -/
  | out
deriving DecidableEq

/-- The contents of the registers. -/
structure Registers where
  pc : Nibble := 0
  mar : Nibble := 0
  ir : Nibble := 0
  a : Nibble := 0
  b : Nibble := 0
  out : Nibble := 0
deriving DecidableEq

namespace Register

/-- The registers in the order of the panel. -/
def all : List Register := [pc, mar, ir, a, b, out]

/-- The name in lower case. -/
def name : Register → String
  | pc => "pc"
  | mar => "mar"
  | ir => "ir"
  | a => "a"
  | b => "b"
  | out => "out"

/-- The label on the panel. -/
def label : Register → String
  | pc => "PC"
  | mar => "MAR"
  | ir => "IR"
  | a => "A"
  | b => "B"
  | out => "OUT"

/-- The register with the given name in lower case. -/
def ofName? (name : String) : Option Register :=
  all.find? fun register => register.name == name

end Register

namespace Registers

/-- The content of a register. -/
def read (registers : Registers) : Register → Nibble
  | .pc => registers.pc
  | .mar => registers.mar
  | .ir => registers.ir
  | .a => registers.a
  | .b => registers.b
  | .out => registers.out

/-- The registers after one of them has taken a value. -/
def load (registers : Registers) (register : Register) (value : Nibble) : Registers :=
  match register with
  | .pc => { registers with pc := value }
  | .mar => { registers with mar := value }
  | .ir => { registers with ir := value }
  | .a => { registers with a := value }
  | .b => { registers with b := value }
  | .out => { registers with out := value }

/-- The registers after one of them has counted up, from 15 to 0. -/
def increment (registers : Registers) (register : Register) : Registers :=
  registers.load register (registers.read register + 1)

/-- The registers after one of them has been set to zero. -/
def clear (registers : Registers) (register : Register) : Registers :=
  registers.load register 0

/-- The registers after each of them has been set to zero in turn. -/
def reset (registers : Registers) : Registers :=
  Register.all.foldl clear registers

/-! ## Texts -/

/-- Labels and hexadecimal digits, as on the panel. -/
def display (registers : Registers) : String :=
  " ".intercalate
    (Register.all.map fun register => register.label ++ "=" ++ (registers.read register).hex)

/-- The fields in notation. -/
def inspect (registers : Registers) : String :=
  Text.record "Registers"
    (Register.all.map fun register => (register.name, (registers.read register).hex))

/-! ## What a load changes -/

@[simp] theorem read_load_self (registers : Registers) (register : Register) (value : Nibble) :
    (registers.load register value).read register = value := by
  cases register <;> rfl

theorem read_load_of_ne (registers : Registers) {r s : Register} (value : Nibble) (h : s ≠ r) :
    (registers.load r value).read s = registers.read s := by
  cases r <;> cases s <;> first | rfl | exact absurd rfl h

/-- No register is left out of a reset. -/
@[simp] theorem reset_eq (registers : Registers) : registers.reset = {} := rfl

end Registers

/-- The bus with the value last driven onto it. -/
structure Bus where
  value : Nibble := 0
deriving DecidableEq

/-- The fields in notation. -/
def Bus.inspect (bus : Bus) : String :=
  Text.record "Bus" [("value", bus.value.inspect)]

end NibbleComputer
