import NibbleComputer.Machine.Basic
import NibbleComputer.Proofs.Control.Timing

/-!
# What a tick does

A tick is three phases over a set of lines. Here it is taken apart once, so that no later proof
opens the phases again.

- `Machine.lines`: the lines of the current step as a list.
- `Machine.carryOut`, `Machine.advance`: what a tick makes of the parts, and of the clock.
- `Machine.tick_eq`: a tick carries out the lines of its step and advances the clock.
- `Machine.carryOut_address` and its siblings: the effect of every combination of lines that the
  microcode uses.
- `Machine.mem_lines`: the lines of a step by their timing.
- `Machine.halted_tick_eq`, `Machine.halted_tick`: a tick stops the clock by a line that only the
  fourth step of an instruction asserts.
-/

namespace NibbleComputer.Machine

open Signal

variable {m : Machine}

/-! ## A tick in two parts -/

/-- The lines that the microcode gives for the current step. -/
def lines (m : Machine) : List Signal :=
  (Microcode.fetch ++ Microcode.routine m.alu.flags (.ofNibble m.registers.ir))[m.step.toNat]?.getD
    []

/-- The machine after the three phases with the given lines. -/
def carryOut (m : Machine) (lines : List Signal) : Machine :=
  ((m.drive (.ofList lines)).latch (.ofList lines)).settle (.ofList lines)

/-- The machine with its clock advanced past a step that asserted the given lines. -/
def advance (m : Machine) (lines : List Signal) : Machine :=
  { m with
    signals := .ofList lines
    step := (m.step + 1) % Microcode.stepCount
    ticks := m.ticks + 1 }

/-- The first phase changes the bus and the arithmetic unit only. -/
theorem drive_eq (signals : SignalSet) : m.drive signals =
    { m with bus := (m.drive signals).bus, alu := (m.drive signals).alu } := by
  unfold drive
  split <;> rfl

/-- The three phases leave the clock alone. -/
theorem carryOut_clock (lines : List Signal) :
    (m.carryOut lines).step = m.step ∧ (m.carryOut lines).ticks = m.ticks := by
  show (m.drive (.ofList lines)).step = m.step ∧ (m.drive (.ofList lines)).ticks = m.ticks
  rw [drive_eq]
  exact ⟨rfl, rfl⟩

/-- A tick carries out the lines of its step and advances the clock. -/
theorem tick_eq (running : m.halted = false) : m.tick = (m.carryOut m.lines).advance m.lines := by
  rw [tick, running]
  rfl

/-- A tick in its phases, over the lines of its step as a set. -/
theorem tick_eq_phases (running : m.halted = false) : m.tick =
    (((m.drive m.asserted).latch m.asserted).settle m.asserted).advance m.lines :=
  tick_eq running

/-- Of the lines in a list, the first producer drives the bus. -/
theorem producer?_ofList (lines : List Signal) :
    (SignalSet.ofList lines).producer? = producers.find? fun signal => decide (signal ∈ lines) := by
  unfold SignalSet.producer?
  congr 1
  funext signal
  exact SignalSet.contains_ofList lines signal

/-! ## The combinations of lines

The equations are simp lemmas: together with `tick_eq` they carry out a step of the microcode. -/

section Combinations

attribute [local simp] carryOut drive latch latchRegisters settle producer?_ofList producers
  Registers.increment Registers.load Registers.read

@[simp] theorem carryOut_nil : m.carryOut [] = m := by
  simp

@[simp] theorem carryOut_address : m.carryOut [counterOut, loadMar] =
    { m with
      bus := ⟨m.registers.pc⟩
      registers := { m.registers with mar := m.registers.pc } } := by
  simp

@[simp] theorem carryOut_count : m.carryOut [counterEnable] =
    { m with registers := { m.registers with pc := m.registers.pc + 1 } } := by
  simp

@[simp] theorem carryOut_fetch : m.carryOut [ramOut, irIn] =
    { m with
      bus := ⟨m.memory.read m.registers.mar⟩
      registers := { m.registers with ir := m.memory.read m.registers.mar } } := by
  simp

/-- The addressed cell becomes the address, and the counter counts up. -/
@[simp] theorem carryOut_follow : m.carryOut [ramOut, counterEnable, loadMar] =
    { m with
      bus := ⟨m.memory.read m.registers.mar⟩
      registers := { m.registers with
        pc := m.registers.pc + 1
        mar := m.memory.read m.registers.mar } } := by
  simp

/-- The addressed cell goes to the accumulator, and the counter counts up. -/
@[simp] theorem carryOut_immediate : m.carryOut [ramOut, counterEnable, aIn] =
    { m with
      bus := ⟨m.memory.read m.registers.mar⟩
      registers := { m.registers with
        pc := m.registers.pc + 1
        a := m.memory.read m.registers.mar } } := by
  simp

/-- The addressed cell goes to the counter, or the counter passes over it. -/
@[simp] theorem carryOut_branch (taken : Bool) : m.carryOut (Microcode.branch taken) =
    { m with
      bus := ⟨m.memory.read m.registers.mar⟩
      registers := { m.registers with
        pc := if taken then m.memory.read m.registers.mar else m.registers.pc + 1 } } := by
  cases taken <;> simp [Microcode.branch]

@[simp] theorem carryOut_load : m.carryOut [ramOut, aIn] =
    { m with
      bus := ⟨m.memory.read m.registers.mar⟩
      registers := { m.registers with a := m.memory.read m.registers.mar } } := by
  simp

/-- The addressed cell goes to the second operand register; the line that selects subtraction
has no effect before the arithmetic unit drives the bus. -/
@[simp] theorem carryOut_second : m.carryOut [ramOut, bIn] =
    { m with
      bus := ⟨m.memory.read m.registers.mar⟩
      registers := { m.registers with b := m.memory.read m.registers.mar } } ∧
    m.carryOut [ramOut, bIn, subtract] = m.carryOut [ramOut, bIn] := by
  simp

@[simp] theorem carryOut_store : m.carryOut [aOut, ramIn] =
    { m with
      bus := ⟨m.registers.a⟩
      memory := m.memory.write m.registers.mar m.registers.a } := by
  simp

@[simp] theorem carryOut_add : m.carryOut [aluOut, aIn] =
    { m with
      bus := ⟨m.registers.a + m.registers.b⟩
      alu := Alu.compute m.registers.a m.registers.b false
      registers := { m.registers with a := m.registers.a + m.registers.b } } := by
  simp [Alu.compute_add]

@[simp] theorem carryOut_subtract : m.carryOut [aluOut, aIn, subtract] =
    { m with
      bus := ⟨m.registers.a - m.registers.b⟩
      alu := Alu.compute m.registers.a m.registers.b true
      registers := { m.registers with a := m.registers.a - m.registers.b } } := by
  simp [Alu.compute_sub]

@[simp] theorem carryOut_output : m.carryOut [aOut, outIn] =
    { m with
      bus := ⟨m.registers.a⟩
      registers := { m.registers with out := m.registers.a } } := by
  simp

@[simp] theorem carryOut_halt : m.carryOut [halt] = { m with halted := true } := by
  simp

end Combinations

/-! ## The clock -/

/-- The step counter counts modulo eight while the clock runs. -/
theorem step_tick (running : m.halted = false) :
    m.tick.step.toNat = (m.step.toNat + 1) % 8 := by
  rw [tick_eq running]
  show (((m.carryOut m.lines).step + 1) % Microcode.stepCount).toNat = _
  rw [(carryOut_clock m.lines).1, UInt8.toNat_mod, UInt8.toNat_add]
  show (m.step.toNat + 1) % 2 ^ 8 % 8 = _
  omega

/-- The lines of a step are those that are due. -/
theorem mem_lines {signal : Signal} : signal ∈ m.lines ↔
    signal.due (.ofNibble m.registers.ir) m.step.toNat m.alu.flags = true := by
  rw [← Microcode.contains_signals, ← decide_eq_true_iff (p := signal ∈ m.lines),
    ← SignalSet.contains_ofList]
  rfl

/-- The line that stops the clock belongs to one step of one opcode. -/
theorem halt_mem_lines : halt ∈ m.lines ↔ m.step.toNat = 3 ∧ m.registers.ir = 15 := by
  rw [mem_lines, Signal.due_iff]
  rfl

/-- A tick stops the clock just when it asserts the line for it. -/
theorem halted_tick_eq (running : m.halted = false) :
    m.tick.halted = m.asserted.contains halt := by
  rw [tick_eq running]
  show ((m.drive m.asserted).halted || m.asserted.contains halt) = _
  rw [drive_eq, running, Bool.false_or]

/-- Only the fourth step of an instruction can stop the clock, and only for one opcode. -/
theorem halted_tick (running : m.halted = false) :
    m.tick.halted = true ↔ m.step.toNat = 3 ∧ m.registers.ir = 15 := by
  rw [halted_tick_eq running, ← halt_mem_lines]
  show (SignalSet.ofList m.lines).contains halt = true ↔ _
  rw [SignalSet.contains_ofList, decide_eq_true_iff]

/-- A machine that runs has run all along. -/
theorem running_of_after {n k : Nat} (running : (after n m).halted = false) (le : k ≤ n) :
    (after k m).halted = false := by
  obtain ⟨rest, rfl⟩ := Nat.exists_eq_add_of_le le
  cases h : (after k m).halted with
  | false => rfl
  | true => rw [after_add, after_of_halted h, h] at running; exact running

end NibbleComputer.Machine
