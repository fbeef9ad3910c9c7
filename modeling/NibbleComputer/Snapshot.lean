import NibbleComputer.Json.Reader
import NibbleComputer.Json.Writer
import NibbleComputer.Machine.Basic

/-!
# Snapshots

Every part of a machine as a JSON value, and back. What reads a value accepts more than what
writes one: numbers beyond a nibble lose their high bits, signals come in any order, and unknown
fields are skipped.

- `toJson` and `ofJson?` in the namespaces of the parts.
- `Machine.snapshot`: the text of a whole machine.
- `Machine.restore?`: the machine that a text describes.
-/

namespace NibbleComputer

namespace Nibble

/-- A nibble is written as a number. -/
def toJson (n : Nibble) : Json := .ofNat n.val

/-- The low four bits of a number that fits in a byte. -/
def ofJson? (value : Json) : Option Nibble := value.byte?.map ofByte

@[simp] theorem ofJson?_toJson (n : Nibble) : ofJson? n.toJson = some n := by
  revert n
  decide

end Nibble

namespace Flags

/-- Flags are written as an object. -/
def toJson (flags : Flags) : Json :=
  .object [("zero", .bool flags.zero), ("carry", .bool flags.carry)]

/-- The flags that a value describes. -/
def ofJson? (value : Json) : Option Flags := do
  let [zero, carry] ← value.fields? ["zero", "carry"] | none
  return { zero := ← zero.bool?, carry := ← carry.bool? }

end Flags

namespace Alu

/-- The arithmetic unit is written as an object. -/
def toJson (alu : Alu) : Json :=
  .object [("flags", alu.flags.toJson), ("result", alu.result.toJson)]

/-- The arithmetic unit that a value describes. -/
def ofJson? (value : Json) : Option Alu := do
  let [flags, result] ← value.fields? ["flags", "result"] | none
  return { flags := ← Flags.ofJson? flags, result := ← Nibble.ofJson? result }

end Alu

/-- A cell that holds a nibble is written as an object with one field. -/
def cellToJson (n : Nibble) : Json :=
  .object [("value", n.toJson)]

/-- The nibble in the cell that a value describes. -/
def cellOfJson? (value : Json) : Option Nibble := do
  let [content] ← value.fields? ["value"] | none
  Nibble.ofJson? content

namespace Bus

/-- The bus is written as a cell. -/
def toJson (bus : Bus) : Json := cellToJson bus.value

/-- The bus that a value describes. -/
def ofJson? (value : Json) : Option Bus := (cellOfJson? value).map Bus.mk

end Bus

namespace Registers

/-- Registers are written as an object of cells. -/
def toJson (registers : Registers) : Json :=
  .object (Register.all.map fun register =>
    (register.name, cellToJson (registers.read register)))

/-- The registers that a value describes. -/
def ofJson? (value : Json) : Option Registers := do
  let cells ← value.fields? (Register.all.map Register.name)
  let [pc, mar, ir, a, b, out] ← cells.mapM cellOfJson? | none
  return { pc, mar, ir, a, b, out }

end Registers

namespace Memory

/-- Memory is written as an object with the list of its cells. -/
def toJson (memory : Memory) : Json :=
  .object [("cells", .array (memory.toList.map Nibble.toJson))]

/-- The memory that a value describes, with exactly sixteen cells. -/
def ofJson? (value : Json) : Option Memory := do
  let [cells] ← value.fields? ["cells"] | none
  let nibbles ← (← cells.items?).mapM Nibble.ofJson?
  if h : nibbles.length = 16 then some ⟨⟨nibbles.toArray, by simpa using h⟩⟩ else none

end Memory

namespace Signal

/-- A signal is written as its name. -/
def toJson (signal : Signal) : Json := .string signal.name

/-- The signal that a value names. -/
def ofJson? (value : Json) : Option Signal := value.name?.bind ofName?

end Signal

namespace SignalSet

/-- A set of signals is written as the list of its members in panel order. -/
def toJson (set : SignalSet) : Json :=
  .array (set.toList.map Signal.toJson)

/-- The set of the signals in a list, in any order and with repetitions. -/
def ofJson? (value : Json) : Option SignalSet := do
  let signals ← (← value.items?).mapM Signal.ofJson?
  return ofList signals

end SignalSet

namespace Opcode

/-- An opcode is written as its name, a reserved one with its nibble. -/
def toJson : Opcode → Json
  | reserved n => .object [("Reserved", n.toJson)]
  | opcode => .string opcode.name

/-- The opcode that a value describes. -/
def ofJson? : Json → Option Opcode
  | .object [("Reserved", value)] => (Nibble.ofJson? value).map reserved
  | value => value.name?.bind ofName?

end Opcode

namespace Machine

/-- A machine is written as an object of its parts. -/
def toJson (m : Machine) : Json :=
  .object
    [("bus", m.bus.toJson), ("regs", m.registers.toJson), ("ram", m.memory.toJson),
     ("alu", m.alu.toJson), ("step", .ofNat m.step.toNat), ("halted", .bool m.halted),
     ("signals", m.signals.toJson), ("ticks", .ofNat m.ticks.toNat)]

/-- The machine that a value describes. -/
def ofJson? (value : Json) : Option Machine := do
  let [bus, registers, memory, alu, step, halted, signals, ticks] ←
    value.fields? ["bus", "regs", "ram", "alu", "step", "halted", "signals", "ticks"] | none
  return {
    bus := ← Bus.ofJson? bus
    registers := ← Registers.ofJson? registers
    memory := ← Memory.ofJson? memory
    alu := ← Alu.ofJson? alu
    step := ← step.byte?
    halted := ← halted.bool?
    signals := ← SignalSet.ofJson? signals
    ticks := ← ticks.uint64? }

/-- The text of a machine in a style. -/
def snapshot (style : Json.Style) (m : Machine) : String :=
  m.toJson.write style

/-- The machine that a text describes. -/
def restore? (text : String) : Option Machine :=
  (Json.parse? text).bind ofJson?

end Machine

end NibbleComputer
