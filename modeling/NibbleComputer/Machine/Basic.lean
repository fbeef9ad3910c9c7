import NibbleComputer.Control.Microcode
import NibbleComputer.Memory
import NibbleComputer.Registers

/-!
# The machine

A machine is its bus, registers, memory and arithmetic unit together with the state of its
clock. A tick asserts the lines that the microcode gives for the current step and carries them
out in three phases: one component drives the bus, others take the value from it, and the
counter and the clock move.

- `Machine`: the state; `Machine.initial` has every part at zero.
- `Machine.tick`: one tick of the clock.
- `Machine.after`, `Machine.states`: a number of ticks, and the machine after each of them.
- `Machine.run`: ticks up to a limit or to the halt.
- `Machine.instruction`: ticks to the end of the current instruction.
- `Machine.reset`, `Machine.load`: everything but memory to zero, and a program into memory.
-/

namespace NibbleComputer

/-- The state of the machine. -/
structure Machine where
  bus : Bus := {}
  registers : Registers := {}
  memory : Memory := .blank
  alu : Alu := {}
  /-- The step of the instruction that the next tick carries out. -/
  step : UInt8 := 0
  halted : Bool := false
  /-- The lines asserted by the last tick. -/
  signals : SignalSet := .empty
  /-- The ticks since the last reset. -/
  ticks : UInt64 := 0
deriving DecidableEq

namespace Machine

/-- The machine with every part at zero. -/
def initial : Machine := {}

instance : Inhabited Machine := ⟨initial⟩

/-! ## The phases of a tick -/

/-- The lines that the microcode gives for the current step. -/
def asserted (m : Machine) : SignalSet :=
  Microcode.signals m.registers.ir m.step m.alu.flags

/-- The first phase: the producer, if there is one, drives the bus. The arithmetic unit computes
only when it is the producer. -/
def drive (m : Machine) (signals : SignalSet) : Machine :=
  match signals.producer? with
  | some .counterOut => { m with bus := ⟨m.registers.pc⟩ }
  | some .ramOut => { m with bus := ⟨m.memory.read m.registers.mar⟩ }
  | some .irOut => { m with bus := ⟨m.registers.ir⟩ }
  | some .aOut => { m with bus := ⟨m.registers.a⟩ }
  | some .aluOut =>
    let alu := Alu.compute m.registers.a m.registers.b (signals.contains .subtract)
    { m with alu := alu, bus := ⟨alu.result⟩ }
  | _ => m

/-- The registers after those that the lines name have taken the bus value. -/
def latchRegisters (registers : Registers) (signals : SignalSet) (value : Nibble) : Registers where
  pc := if signals.contains .jump then value else registers.pc
  mar := if signals.contains .loadMar then value else registers.mar
  ir := if signals.contains .irIn then value else registers.ir
  a := if signals.contains .aIn then value else registers.a
  b := if signals.contains .bIn then value else registers.b
  out := if signals.contains .outIn then value else registers.out

/-- The second phase: registers take the bus value, and then the memory cell that the address
register names. -/
def latch (m : Machine) (signals : SignalSet) : Machine :=
  let registers := latchRegisters m.registers signals m.bus.value
  { m with
    registers := registers
    memory :=
      if signals.contains .ramIn then m.memory.write registers.mar m.bus.value else m.memory }

/-- The third phase: the counter counts, and the clock stops. -/
def settle (m : Machine) (signals : SignalSet) : Machine :=
  { m with
    registers :=
      if signals.contains .counterEnable then m.registers.increment .pc else m.registers
    halted := m.halted || signals.contains .halt }

/-! ## Running -/

/-- One tick of the clock; a halted machine stays as it is. -/
def tick (m : Machine) : Machine :=
  if m.halted then m
  else
    let signals := m.asserted
    let m := ((m.drive signals).latch signals).settle signals
    { m with
      signals := signals
      step := (m.step + 1) % Microcode.stepCount
      ticks := m.ticks + 1 }

/-- The machine after a number of ticks. -/
def after : Nat → Machine → Machine
  | 0, m => m
  | n + 1, m => after n m.tick

/-- The machine after each of a number of ticks. -/
def states : Nat → Machine → List Machine
  | 0, _ => []
  | n + 1, m => m.tick :: states n m.tick

/-- The machine after at most `limit` ticks, fewer if it halts. -/
def run : (limit : Nat) → Machine → Machine
  | 0, m => m
  | limit + 1, m => if m.halted then m else run limit m.tick

/-- The machine after at least one and at most `limit` ticks, up to the halt or to the first
step of an instruction. -/
def finish : (limit : Nat) → Machine → Machine
  | 0, m => m
  | limit + 1, m =>
    let next := m.tick
    if next.halted || next.step == 0 then next else finish limit next

/-- The machine after its current instruction. An instruction has eight steps, so the first step
of the next one or the halt is at most eight ticks away. -/
def instruction (m : Machine) : Machine :=
  finish Microcode.stepCount.toNat m

/-! ## Setting up -/

/-- The machine after every part but its memory has been set to zero. -/
def reset (m : Machine) : Machine :=
  { m with
    bus := {}
    registers := m.registers.reset
    alu := {}
    step := 0
    halted := false
    signals := .empty
    ticks := 0 }

/-- The machine with a program loaded into its memory from address zero on. -/
def load (m : Machine) (words : List UInt8) : Except MemoryError Machine :=
  (m.memory.load words).map fun memory => { m with memory := memory }

/-! ## Texts -/

/-- The fields in notation. -/
def inspect (m : Machine) : String :=
  Text.record "Computer"
    [("step", toString m.step), ("halted", toString m.halted), ("ticks", toString m.ticks),
     ("regs", m.registers.inspect), ("flags", m.alu.flags.inspect)]

/-! ## Basic facts -/

@[simp] theorem tick_of_halted {m : Machine} (h : m.halted = true) : m.tick = m := by
  simp [tick, h]

@[simp] theorem after_zero (m : Machine) : after 0 m = m := rfl

theorem after_succ (n : Nat) (m : Machine) : after (n + 1) m = after n m.tick := rfl

theorem after_add (n k : Nat) (m : Machine) : after (n + k) m = after k (after n m) := by
  induction n generalizing m with
  | zero => simp
  | succ n ih => rw [Nat.add_right_comm, after_succ, after_succ, ih]

@[simp] theorem after_of_halted {m : Machine} (h : m.halted = true) (n : Nat) :
    after n m = m := by
  induction n with
  | zero => rfl
  | succ n ih => rw [after_succ, tick_of_halted h, ih]

/-- The states after some ticks are those after one tick, after two, and so on. -/
theorem states_eq_map (n : Nat) (m : Machine) :
    states n m = (List.range n).map fun i => after (i + 1) m := by
  induction n generalizing m with
  | zero => rfl
  | succ n ih =>
    rw [states, ih, List.range_succ_eq_map, List.map_cons, List.map_map]
    rfl

/-- A limited run makes all its ticks, since those after the halt change nothing. -/
theorem run_eq_after (limit : Nat) (m : Machine) : run limit m = after limit m := by
  induction limit generalizing m with
  | zero => rfl
  | succ limit ih =>
    by_cases h : m.halted = true
    · rw [after_of_halted h]
      simp [run, h]
    · rw [after_succ, ← ih]
      simp [run, h]

end Machine

end NibbleComputer
