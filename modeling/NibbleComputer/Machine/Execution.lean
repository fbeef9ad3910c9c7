import NibbleComputer.Listing
import NibbleComputer.Machine.Basic

/-!
# Runs with reports

A run up to a limit on the tick counter, instruction by instruction, with a report of every
instruction that was completed.

- `Machine.Report`: what is reported of an instruction.
- `Machine.runTo`: the machine after the run.
- `Machine.reportsTo`: the reports of the run.
-/

namespace NibbleComputer.Machine

/-- A completed instruction. -/
structure Report where
  /-- The address of the opcode. -/
  address : Nibble
  /-- The instruction as memory showed it before it ran. -/
  text : String
  opcode : Opcode
  /-- The machine after the instruction. -/
  after : Machine

/-- The report of the instruction that the machine is about to carry out. -/
def report (m : Machine) : Report where
  address := m.registers.pc
  text := (Instruction.describeAt m.memory.toList m.registers.pc.val).1
  opcode := .ofNibble (m.memory.read m.registers.pc)
  after := m.instruction

/-- Whether the tick counter may still grow. -/
def below (m : Machine) (limit : UInt64) : Bool :=
  !m.halted && m.ticks < limit

/-- Whether the limit leaves room for the remaining steps of the instruction. -/
def fits (m : Machine) (limit : UInt64) : Bool :=
  (Microcode.stepCount - m.step).toUInt64 ≤ limit - m.ticks

/-- The machine after at most so many rounds, each of them an instruction or, where the limit
leaves no room for one, the ticks up to the limit. -/
def roundsTo (limit : UInt64) : (rounds : Nat) → Machine → Machine
  | 0, m => m
  | rounds + 1, m =>
    if !m.below limit then m
    else if !m.fits limit then m.run (limit - m.ticks).toNat
    else roundsTo limit rounds m.instruction

/-- The reports of at most so many rounds. An instruction that the limit cuts off has none. -/
def roundReportsTo (limit : UInt64) : (rounds : Nat) → Machine → List Report
  | 0, _ => []
  | rounds + 1, m =>
    if !m.below limit || !m.fits limit then []
    else m.report :: roundReportsTo limit rounds m.instruction

/-- The machine after whole instructions, up to the halt or to a limit on the tick counter. A
round takes at least one tick, so there are no more rounds than the limit. -/
def runTo (limit : UInt64) (m : Machine) : Machine :=
  roundsTo limit limit.toNat m

/-- The reports of the instructions completed up to the halt or the limit. -/
def reportsTo (limit : UInt64) (m : Machine) : List Report :=
  roundReportsTo limit limit.toNat m

end NibbleComputer.Machine
