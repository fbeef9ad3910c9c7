/-!
# Control signals

The fifteen control lines of the machine. A line lets one component drive the shared bus, lets
a component take the value on the bus, or moves the counter and the clock.

- `Signal`: the lines.
- `Signal.all`: the lines in panel order.
- `Signal.producers`: the lines that drive the bus, the one with the highest priority first.
- `Signal.label`, `Signal.name`: the short name on the panel and the full name.
-/

namespace NibbleComputer

/-- A control line. -/
inductive Signal where
  /-- The program counter drives the bus. -/
  | counterOut
  /-- The program counter increments. -/
  | counterEnable
  /-- The program counter takes the bus value. -/
  | jump
  /-- The memory address register takes the bus value. -/
  | loadMar
  /-- The addressed memory cell drives the bus. -/
  | ramOut
  /-- The addressed memory cell takes the bus value. -/
  | ramIn
  /-- The instruction register drives the bus. -/
  | irOut
  /-- The instruction register takes the bus value. -/
  | irIn
  /-- The accumulator drives the bus. -/
  | aOut
  /-- The accumulator takes the bus value. -/
  | aIn
  /-- The second operand register takes the bus value. -/
  | bIn
  /-- The output register takes the bus value. -/
  | outIn
  /-- The arithmetic unit computes and drives the bus. -/
  | aluOut
  /-- The arithmetic unit subtracts instead of adding. -/
  | subtract
  /-- The clock stops. -/
  | halt
deriving DecidableEq

namespace Signal

/-- The lines in panel order. -/
def all : List Signal :=
  [counterOut, counterEnable, jump, loadMar, ramOut, ramIn, irOut, irIn, aOut, aIn, bIn, outIn,
   aluOut, subtract, halt]

/-- The lines that drive the bus, the highest priority first. -/
def producers : List Signal :=
  [counterOut, ramOut, irOut, aOut, aluOut]

/-- The position of a line on the panel. -/
def index : Signal → Fin 15
  | counterOut => 0
  | counterEnable => 1
  | jump => 2
  | loadMar => 3
  | ramOut => 4
  | ramIn => 5
  | irOut => 6
  | irIn => 7
  | aOut => 8
  | aIn => 9
  | bIn => 10
  | outIn => 11
  | aluOut => 12
  | subtract => 13
  | halt => 14

/-- The short name on the panel. -/
def label : Signal → String
  | counterOut => "CO"
  | counterEnable => "CE"
  | jump => "J"
  | loadMar => "LM"
  | ramOut => "RO"
  | ramIn => "RI"
  | irOut => "IO"
  | irIn => "II"
  | aOut => "AO"
  | aIn => "AI"
  | bIn => "BI"
  | outIn => "OI"
  | aluOut => "EO"
  | subtract => "SU"
  | halt => "HLT"

/-- The full name. -/
def name : Signal → String
  | counterOut => "CounterOut"
  | counterEnable => "CounterEnable"
  | jump => "Jump"
  | loadMar => "LoadMar"
  | ramOut => "RamOut"
  | ramIn => "RamIn"
  | irOut => "IrOut"
  | irIn => "IrIn"
  | aOut => "AOut"
  | aIn => "AIn"
  | bIn => "BIn"
  | outIn => "OutIn"
  | aluOut => "AluOut"
  | subtract => "Subtract"
  | halt => "Halt"

/-- The line with the given full name. -/
def ofName? (name : String) : Option Signal :=
  all.find? fun signal => signal.name == name

@[simp] theorem mem_all (signal : Signal) : signal ∈ all := by
  cases signal <;> decide

/-- Each line has its own position. -/
@[simp] theorem index_inj {s t : Signal} : s.index = t.index ↔ s = t := by
  constructor
  · intro h
    cases s <;> cases t <;> first | rfl | exact absurd h (by decide)
  · exact congrArg index

/-- Every position belongs to a line. -/
theorem exists_index (i : Fin 15) : ∃ signal : Signal, signal.index = i := by
  have h : ∀ i : Fin 15, ∃ signal ∈ all, signal.index = i := by decide
  obtain ⟨signal, -, hs⟩ := h i
  exact ⟨signal, hs⟩

/-- A line is found by its name. -/
@[simp] theorem ofName?_name (signal : Signal) : ofName? signal.name = some signal := by
  cases signal <;> decide

end Signal

end NibbleComputer
