import NibbleComputer.Alu
import NibbleComputer.Control.SignalSet
import NibbleComputer.Opcode

/-!
# Microcode

Every instruction takes up to eight steps. The first three fetch the opcode into the instruction
register; the steps from the fourth on depend on the opcode and, for a conditional jump, on a
flag.

- `Microcode.fetch`: the three common steps.
- `Microcode.routine`: the further steps of each opcode.
- `Microcode.signals`: the lines asserted at a step; none after the routine has ended.
-/

namespace NibbleComputer.Microcode

open Signal

/-- The number of steps of an instruction that does not stop the clock. -/
def stepCount : UInt8 := 8

/-- The steps that fetch an opcode: the counter addresses memory, then counts up, and the
addressed cell goes to the instruction register. -/
def fetch : List (List Signal) :=
  [[counterOut, loadMar], [counterEnable], [ramOut, irIn]]

/-- The step that addresses the operand. -/
def addressOperand : List Signal := [counterOut, loadMar]

/-- The step that takes the operand as an address and moves on past it. -/
def followOperand : List Signal := [ramOut, counterEnable, loadMar]

/-- The step that jumps to the operand, or moves on past it. -/
def branch (taken : Bool) : List Signal :=
  if taken then [ramOut, jump] else [ramOut, counterEnable]

/-- The steps of an opcode after it has been fetched. -/
def routine (flags : Flags) : Opcode → List (List Signal)
  | .nop | .reserved _ => []
  | .lda => [addressOperand, followOperand, [ramOut, aIn]]
  | .add => [addressOperand, followOperand, [ramOut, bIn], [aluOut, aIn]]
  | .sub => [addressOperand, followOperand, [ramOut, bIn, subtract], [aluOut, aIn, subtract]]
  | .sta => [addressOperand, followOperand, [aOut, ramIn]]
  | .ldi => [addressOperand, [ramOut, counterEnable, aIn]]
  | .jmp => [addressOperand, branch true]
  | .jc => [addressOperand, branch flags.carry]
  | .jz => [addressOperand, branch flags.zero]
  | .out => [[aOut, outIn]]
  | .hlt => [[halt]]

/-- The lines asserted at a step while the given nibble is in the instruction register. -/
def signals (opcode : Nibble) (step : UInt8) (flags : Flags) : SignalSet :=
  .ofList ((fetch ++ routine flags (.ofNibble opcode))[step.toNat]?.getD [])

end NibbleComputer.Microcode
