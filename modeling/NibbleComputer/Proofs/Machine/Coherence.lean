import Mathlib.Algebra.Group.Fin.Basic
import NibbleComputer.Machine.Operation
import NibbleComputer.Proofs.Machine.Frame

/-!
# Coherence of the parts

The parts of a machine that has been worked from its initial state on fit together: the counters
agree, the lines of the last tick can be told from the instruction register and the flags as they
are now, and the bus and the address register are where the fetch has left them.

- `Machine.Coherent`: how the parts fit together.
- `Machine.Coherent.tick`, `Machine.Coherent.after`: ticks keep the parts together.
- `Machine.Coherent.apply`: every operation does.
- `Machine.coherent_perform`: the machine after any history is coherent.
-/

namespace NibbleComputer.Machine

open Signal

variable {m : Machine}

/-! ## Coherent machines -/

/-- How the parts of a machine fit together. -/
structure Coherent (m : Machine) : Prop where
  /-- The step counter is the tick counter modulo eight. -/
  step : m.step.toNat = m.ticks.toNat % 8
  /-- The clock has stopped just when the halting opcode has had its fourth step. -/
  halted : m.halted = true ↔ m.step = 4 ∧ m.registers.ir = 15
  /-- The lines of the last tick are those of the step before, for the present opcode and flags. -/
  signals : m.signals = Microcode.signals m.registers.ir ((m.step + 7) % 8) m.alu.flags
  /-- After the first step the counter is on the bus and in the address register. -/
  addressed : m.step = 1 → m.registers.mar = m.registers.pc ∧ m.bus.value = m.registers.pc
  /-- After the second step they are one behind the counter. -/
  counted : m.step = 2 → m.registers.mar = m.registers.pc - 1 ∧ m.bus.value = m.registers.pc - 1
  /-- After the fetch, and at the halt, the opcode is on the bus. -/
  fetched : m.step = 3 ∨ m.halted = true →
    m.registers.mar = m.registers.pc - 1 ∧ m.bus.value = m.registers.ir
  /-- The zero flag tells of the last result, if there has been one. -/
  computed : m.alu.flags.zero = (m.alu.result == 0) ∨ m.alu = {}

namespace Coherent

theorem step_lt (h : m.Coherent) : m.step.toNat < 8 := by
  rw [h.step]
  omega

theorem initial : Coherent initial where
  step := rfl
  halted := by decide
  signals := by decide +kernel
  addressed := by decide
  counted := by decide
  fetched := by decide
  computed := .inr rfl

/-- A change of memory disturbs nothing. -/
theorem withMemory (h : m.Coherent) (memory : Memory) :
    Coherent { m with memory := memory } :=
  ⟨h.step, h.halted, h.signals, h.addressed, h.counted, h.fetched, h.computed⟩

/-! ### Ticks -/

/-- Where the step counter stood before a tick. -/
theorem step_of_tick (h : m.Coherent) (running : m.halted = false) {k : UInt8} (pos : 0 < k)
    (next : m.tick.step = k) : m.step = k - 1 := by
  have lt := h.step_lt
  have count := step_tick running
  rw [next] at count
  have : 0 < k.toNat := pos
  apply UInt8.toNat_inj.mp
  rw [UInt8.toNat_sub_of_le _ _ (by show 1 ≤ k.toNat; omega)]
  show m.step.toNat = k.toNat - 1
  omega

/-- The lines of a tick can be told from the parts as it leaves them. -/
theorem signals_tick (h : m.Coherent) (running : m.halted = false) :
    m.tick.signals = Microcode.signals m.tick.registers.ir ((m.tick.step + 7) % 8)
      m.tick.alu.flags := by
  have lt := h.step_lt
  have back : (m.tick.step + 7) % 8 = m.step := by
    apply UInt8.toNat_inj.mp
    rw [UInt8.toNat_mod, UInt8.toNat_add, step_tick running]
    show ((m.step.toNat + 1) % 8 + 7) % 2 ^ 8 % 8 = m.step.toNat
    omega
  have now : m.tick.signals = Microcode.signals m.registers.ir m.step m.alu.flags := by
    rw [tick_eq running]
    rfl
  rw [back, now]
  -- the opcode is new after a step that does not look at it, and so are the flags
  by_cases early : m.step.toNat < 3
  · exact Microcode.signals_fetch early ..
  rw [ir_tick running, if_neg (by omega), alu_tick running]
  split
  · exact Microcode.signals_flags (by omega) ..
  · rfl

section Fetch

attribute [local simp] tick_eq lines advance Microcode.fetch Microcode.routine

theorem tick_first (running : m.halted = false) (step : m.step = 0) :
    m.tick.registers.mar = m.tick.registers.pc ∧ m.tick.bus.value = m.tick.registers.pc := by
  simp [running, step]

theorem tick_second (running : m.halted = false) (step : m.step = 1) :
    m.tick.registers.mar = m.registers.mar ∧ m.tick.bus.value = m.bus.value ∧
      m.tick.registers.pc = m.registers.pc + 1 := by
  simp [running, step]

theorem tick_third (running : m.halted = false) (step : m.step = 2) :
    m.tick.registers.mar = m.registers.mar ∧ m.tick.registers.pc = m.registers.pc ∧
      m.tick.bus.value = m.tick.registers.ir := by
  simp [running, step]

theorem tick_halt (running : m.halted = false) (step : m.step = 3) (opcode : m.registers.ir = 15) :
    m.tick.registers = m.registers ∧ m.tick.bus = m.bus := by
  simp [running, step, opcode, Opcode.ofNibble]

end Fetch

/-- A tick keeps the parts together. -/
theorem tick (h : m.Coherent) : m.tick.Coherent := by
  cases running : m.halted with
  | true => rwa [tick_of_halted running]
  | false =>
    have lt := h.step_lt
    refine
      { step := ?step, halted := ?halted, signals := h.signals_tick running,
        addressed := ?addressed, counted := ?counted, fetched := ?fetched, computed := ?computed }
    case step =>
      rw [step_tick running, ticks_tick running, UInt64.toNat_add, h.step]
      show (m.ticks.toNat % 8 + 1) % 8 = (m.ticks.toNat + 1) % 2 ^ 64 % 8
      omega
    case halted =>
      rw [halted_tick running]
      constructor
      · rintro ⟨fourth, opcode⟩
        refine ⟨UInt8.toNat_inj.mp ?_, by rw [ir_tick running, if_neg (by omega), opcode]⟩
        rw [step_tick running, fourth]
        rfl
      · rintro ⟨fifth, opcode⟩
        have fourth : m.step = 3 := h.step_of_tick running (by decide) fifth
        have : m.step.toNat = 3 := by rw [fourth]; rfl
        rw [ir_tick running, if_neg (by omega)] at opcode
        exact ⟨this, opcode⟩
    case addressed =>
      intro next
      exact tick_first running (h.step_of_tick running (by decide) next)
    case counted =>
      intro next
      have before : m.step = 1 := h.step_of_tick running (by decide) next
      obtain ⟨mar, bus, pc⟩ := tick_second running before
      rw [mar, bus, pc, add_sub_cancel_right]
      exact h.addressed before
    case fetched =>
      rintro (next | stopped)
      · have before : m.step = 2 := h.step_of_tick running (by decide) next
        obtain ⟨mar, pc, bus⟩ := tick_third running before
        rw [mar, pc, bus]
        exact ⟨(h.counted before).1, rfl⟩
      · obtain ⟨fourth, opcode⟩ := (halted_tick running).mp stopped
        have before : m.step = 3 := UInt8.toNat_inj.mp fourth
        obtain ⟨registers, bus⟩ := tick_halt running before opcode
        rw [registers, bus]
        exact h.fetched (.inl before)
    case computed =>
      rw [alu_tick running]
      split
      · exact .inl (Alu.zero_compute ..)
      · exact h.computed

theorem after (h : m.Coherent) (n : Nat) : (after n m).Coherent := by
  induction n generalizing m with
  | zero => exact h
  | succ n ih => exact ih h.tick

/-! ### Operations -/

/-- Every operation keeps the parts together. -/
theorem apply (h : m.Coherent) (operation : Operation) : (operation.apply m).1.Coherent := by
  cases operation with
  | tick => exact h.tick
  | instruction =>
    show m.instruction.Coherent
    rw [instruction_eq_after]
    exact h.after _
  | run limit =>
    show (m.run limit).Coherent
    rw [run_eq_after]
    exact h.after limit
  | reset => exact Coherent.initial.withMemory m.memory
  | write address value => exact h.withMemory _
  | clear => exact h.withMemory _
  | load words =>
    simp only [Operation.apply, load]
    cases m.memory.load words with
    | ok memory => exact h.withMemory memory
    | error error => exact h

theorem perform (h : m.Coherent) (history : List Operation) :
    (m.perform history).1.Coherent := by
  induction history generalizing m with
  | nil => exact h
  | cons operation others ih => exact ih (h.apply operation)

end Coherent

/-! ## The main result -/

/-- **Every reachable machine is coherent.** From the machine with every part at zero, whatever
operations follow one another, accepted or refused, the parts of the machine fit together. -/
theorem coherent_perform (history : List Operation) : (initial.perform history).1.Coherent :=
  Coherent.initial.perform history

end NibbleComputer.Machine
