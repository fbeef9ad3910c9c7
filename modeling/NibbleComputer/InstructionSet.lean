import NibbleComputer.Machine.Basic

/-!
# The instruction set

What a program can observe of the machine, and what each instruction does to it in one step. The
microcode does not occur here: an instruction reads its operand, acts, and moves the counter.

- `Visible`: the state that a program can observe; `Machine.visible` is that of a machine.
- `Visible.step`, `Visible.steps`: the effect of one instruction and of several.
- `Visible.step_of_halted`: a halted machine makes no more steps.
-/

namespace NibbleComputer

/-- The state that a program can observe. -/
structure Visible where
  pc : Nibble
  a : Nibble
  out : Nibble
  flags : Flags
  memory : Memory
  halted : Bool
deriving DecidableEq

/-- What a program can observe of a machine. -/
def Machine.visible (m : Machine) : Visible where
  pc := m.registers.pc
  a := m.registers.a
  out := m.registers.out
  flags := m.alu.flags
  memory := m.memory
  halted := m.halted

namespace Visible

/-- The opcode of the next instruction. -/
def opcode (s : Visible) : Opcode :=
  .ofNibble (s.memory.read s.pc)

/-- The operand of the next instruction, in the cell after its opcode. -/
def operand (s : Visible) : Nibble :=
  s.memory.read (s.pc + 1)

/-- The accumulator and the flags after a computation with the addressed cell. -/
def compute (s : Visible) (subtract : Bool) : Visible :=
  let alu := Alu.compute s.a (s.memory.read s.operand) subtract
  { s with a := alu.result, flags := alu.flags }

/-- The counter at the operand or past it. -/
def branch (s : Visible) (taken : Bool) : Visible :=
  { s with pc := if taken then s.operand else s.pc + 2 }

/-- The effect of an instruction with the given opcode at the counter. -/
def execute (s : Visible) : Opcode → Visible
  | .nop | .reserved _ => { s with pc := s.pc + 1 }
  | .lda => { s with a := s.memory.read s.operand, pc := s.pc + 2 }
  | .add => { s.compute false with pc := s.pc + 2 }
  | .sub => { s.compute true with pc := s.pc + 2 }
  | .sta => { s with memory := s.memory.write s.operand s.a, pc := s.pc + 2 }
  | .ldi => { s with a := s.operand, pc := s.pc + 2 }
  | .jmp => s.branch true
  | .jc => s.branch s.flags.carry
  | .jz => s.branch s.flags.zero
  | .out => { s with out := s.a, pc := s.pc + 1 }
  | .hlt => { s with halted := true, pc := s.pc + 1 }

/-- The effect of the next instruction; a halted machine has none. -/
def step (s : Visible) : Visible :=
  if s.halted then s else s.execute s.opcode

/-- The effect of a number of instructions. -/
def steps : Nat → Visible → Visible
  | 0, s => s
  | n + 1, s => steps n s.step

@[simp] theorem step_of_halted {s : Visible} (h : s.halted = true) : s.step = s := by
  simp [step, h]

theorem steps_add (n k : Nat) (s : Visible) : steps (n + k) s = steps k (steps n s) := by
  induction n generalizing s with
  | zero => simp [steps]
  | succ n ih => rw [Nat.add_right_comm, steps, steps, ih]

end Visible

end NibbleComputer
