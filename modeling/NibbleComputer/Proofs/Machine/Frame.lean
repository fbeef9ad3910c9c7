import Mathlib.Tactic.SplitIfs
import NibbleComputer.Proofs.Machine.Clock

/-!
# The frame of a tick

Each part of a machine changes at a few steps of a few opcodes only, and then to a value that the
machine held somewhere before. This module says so part by part. A part changes if its line is due,
and it takes what the one line that drives the bus puts there.

- `Machine.Due`: the lines of the current step, by the code in the instruction register.
- `Machine.settled_of_due`: what the registers and memory find on the bus.
- `Machine.read_tick`: the registers by the lines that load them.
- `Machine.pc_tick`, `Machine.memory_tick` and their siblings: every part by step and code.
- `Machine.tick_frame`: all parts together.
-/

namespace NibbleComputer.Machine

open Signal

variable {m : Machine}

/-! ## The bus -/

/-- A line is due at the current step. -/
def Due (m : Machine) (signal : Signal) : Prop :=
  signal.Timed m.registers.ir m.step.toNat m.alu.flags

instance (m : Machine) (signal : Signal) : Decidable (m.Due signal) :=
  decidable_of_iff _ Signal.due_iff

theorem contains_asserted {signal : Signal} :
    m.asserted.contains signal = true ↔ m.Due signal := by
  rw [asserted, Microcode.contains_signals, Signal.due_iff]
  rfl

/-- What a line that drives the bus puts onto it. -/
def offered (m : Machine) : Signal → Nibble
  | counterOut => m.registers.pc
  | ramOut => m.memory.read m.registers.mar
  | irOut => m.registers.ir
  | aOut => m.registers.a
  | aluOut => (Alu.compute m.registers.a m.registers.b (m.asserted.contains subtract)).result
  | _ => m.bus.value

/-- The value on the bus when the registers and memory take it. -/
def settled (m : Machine) : Nibble :=
  (m.drive m.asserted).bus.value

theorem settled_eq : m.settled = (m.asserted.producer?.map m.offered).getD m.bus.value := by
  unfold settled drive
  cases m.asserted.producer? with
  | none => rfl
  | some signal => cases signal <;> rfl

/-- Of the lines that drive the bus, the one that is due does. -/
theorem producer?_asserted {signal : Signal} (producer : signal ∈ producers)
    (due : m.Due signal) : m.asserted.producer? = some signal := by
  cases found : m.asserted.producer? with
  | none => exact absurd (contains_asserted.mpr due) (List.find?_eq_none.mp found signal producer)
  | some other =>
    have due' : m.Due other := contains_asserted.mp (List.find?_some found)
    rw [Timed.unique (List.mem_of_find?_eq_some found) producer due' due]

theorem settled_of_due {signal : Signal} (producer : signal ∈ producers) (due : m.Due signal) :
    m.settled = m.offered signal := by
  rw [settled_eq, producer?_asserted producer due]
  rfl

/-- In the step that computes, the line that selects subtraction tells the two opcodes apart. -/
theorem contains_subtract (computes : m.step.toNat = 6) :
    m.asserted.contains subtract = decide (m.registers.ir = 3) := by
  rw [Bool.eq_iff_iff, contains_asserted, decide_eq_true_iff]
  exact and_iff_right (.inr computes)

/-! ## The parts by their lines -/

/-- The line that loads a register from the bus. -/
def loadLine : Register → Signal
  | .pc => jump
  | .mar => loadMar
  | .ir => irIn
  | .a => aIn
  | .b => bIn
  | .out => outIn

theorem read_latchRegisters (register : Register) :
    (latchRegisters m.registers m.asserted m.settled).read register =
      if m.Due (loadLine register) then m.settled else m.registers.read register := by
  simp only [← contains_asserted]
  cases register <;> rfl

section Running

variable (running : m.halted = false)

include running

theorem registers_tick : m.tick.registers =
    if m.Due counterEnable then
      (latchRegisters m.registers m.asserted m.settled).increment .pc
    else latchRegisters m.registers m.asserted m.settled := by
  have kept : (m.drive m.asserted).registers = m.registers := by rw [drive_eq]
  simp only [tick_eq_phases running, ← contains_asserted]
  rw [← kept]
  rfl

/-- A register other than the counter takes the value on the bus if its line is due. -/
theorem read_tick {register : Register} (other : register ≠ .pc) :
    m.tick.registers.read register =
      if m.Due (loadLine register) then m.settled else m.registers.read register := by
  rw [registers_tick running, ← read_latchRegisters]
  split
  · exact Registers.read_load_of_ne _ _ other
  · rfl

theorem read_tick_of_due {register : Register} (signal : Signal) (other : register ≠ .pc)
    (producer : signal ∈ producers) (loads : m.Due (loadLine register)) (drives : m.Due signal) :
    m.tick.registers.read register = m.offered signal := by
  rw [read_tick running other, if_pos loads, settled_of_due producer drives]

theorem read_tick_of_not_due {register : Register} (other : register ≠ .pc)
    (rests : ¬ m.Due (loadLine register)) :
    m.tick.registers.read register = m.registers.read register := by
  rw [read_tick running other, if_neg rests]

/-- The counter counts up from what it has taken. -/
theorem counter_tick : m.tick.registers.pc =
    if m.Due counterEnable then (if m.Due jump then m.settled else m.registers.pc) + 1
    else if m.Due jump then m.settled else m.registers.pc := by
  have taken : (latchRegisters m.registers m.asserted m.settled).pc =
      if m.Due jump then m.settled else m.registers.pc := read_latchRegisters .pc
  rw [registers_tick running, ← taken]
  split
  · exact Registers.read_load_self _ .pc _
  · rfl

/-- Memory takes the value on the bus in the cell that the address register names by then. -/
theorem stored_tick : m.tick.memory =
    if m.Due ramIn then
      m.memory.write (if m.Due loadMar then m.settled else m.registers.mar) m.settled
    else m.memory := by
  have aimed : (latchRegisters m.registers m.asserted m.settled).mar =
      if m.Due loadMar then m.settled else m.registers.mar := read_latchRegisters .mar
  have kept : (m.drive m.asserted).registers = m.registers ∧
      (m.drive m.asserted).memory = m.memory := by
    rw [drive_eq]
    exact ⟨rfl, rfl⟩
  rw [← aimed]
  simp only [tick_eq_phases running, ← contains_asserted]
  rw [← kept.1, ← kept.2]
  rfl

/-! ## The parts by step and code -/

attribute [local grind] Due Timed loadLine

theorem ir_tick : m.tick.registers.ir =
    if m.step.toNat = 2 then m.memory.read m.registers.mar else m.registers.ir := by
  show m.tick.registers.read .ir = _
  split
  · exact read_tick_of_due running ramOut (by decide) (by decide) (by grind) (by grind)
  · exact read_tick_of_not_due running (by decide) (by grind)

theorem mar_tick : m.tick.registers.mar =
    if m.step.toNat = 0 ∨ m.step.toNat = 3 ∧ 1 ≤ m.registers.ir ∧ m.registers.ir ≤ 8 then
      m.registers.pc
    else if m.step.toNat = 4 ∧ 1 ≤ m.registers.ir ∧ m.registers.ir ≤ 4 then
      m.memory.read m.registers.mar
    else m.registers.mar := by
  show m.tick.registers.read .mar = _
  split_ifs with addresses follows
  · exact read_tick_of_due running counterOut (by decide) (by decide) (by grind) (by grind)
  · exact read_tick_of_due running ramOut (by decide) (by decide) (by grind) (by grind)
  · exact read_tick_of_not_due running (by decide) (by grind)

theorem a_tick : m.tick.registers.a =
    if m.step.toNat = 4 ∧ m.registers.ir = 5 ∨ m.step.toNat = 5 ∧ m.registers.ir = 1 then
      m.memory.read m.registers.mar
    else if m.step.toNat = 6 ∧ m.registers.ir = 2 then m.registers.a + m.registers.b
    else if m.step.toNat = 6 ∧ m.registers.ir = 3 then m.registers.a - m.registers.b
    else m.registers.a := by
  show m.tick.registers.read .a = _
  split_ifs with loaded added subtracted
  · exact read_tick_of_due running ramOut (by decide) (by decide) (by grind) (by grind)
  · rw [read_tick_of_due running aluOut (by decide) (by decide) (by grind) (by grind), offered,
      contains_subtract added.1, added.2]
    rfl
  · rw [read_tick_of_due running aluOut (by decide) (by decide) (by grind) (by grind), offered,
      contains_subtract subtracted.1, subtracted.2]
    rfl
  · exact read_tick_of_not_due running (by decide) (by grind)

theorem b_tick : m.tick.registers.b =
    if m.step.toNat = 5 ∧ (m.registers.ir = 2 ∨ m.registers.ir = 3) then
      m.memory.read m.registers.mar
    else m.registers.b := by
  show m.tick.registers.read .b = _
  split
  · exact read_tick_of_due running ramOut (by decide) (by decide) (by grind) (by grind)
  · exact read_tick_of_not_due running (by decide) (by grind)

theorem out_tick : m.tick.registers.out =
    if m.step.toNat = 3 ∧ m.registers.ir = 14 then m.registers.a else m.registers.out := by
  show m.tick.registers.read .out = _
  split
  · exact read_tick_of_due running aOut (by decide) (by decide) (by grind) (by grind)
  · exact read_tick_of_not_due running (by decide) (by grind)

/-- No step both counts and jumps. -/
theorem pc_tick : m.tick.registers.pc =
    if m.step.toNat = 1 ∨ m.step.toNat = 4 ∧ (1 ≤ m.registers.ir ∧ m.registers.ir ≤ 5 ∨
        m.registers.ir = 7 ∧ m.alu.flags.carry = false ∨
        m.registers.ir = 8 ∧ m.alu.flags.zero = false) then
      m.registers.pc + 1
    else if m.step.toNat = 4 ∧ (m.registers.ir = 6 ∨
        m.registers.ir = 7 ∧ m.alu.flags.carry = true ∨
        m.registers.ir = 8 ∧ m.alu.flags.zero = true) then
      m.memory.read m.registers.mar
    else m.registers.pc := by
  rw [counter_tick running]
  -- the conditions are those of the two lines
  by_cases counts : m.Due counterEnable
  · have straight : ¬ m.Due jump := by grind
    rw [if_pos counts, if_neg straight]
    exact (if_pos counts).symm
  rw [if_neg counts]
  by_cases jumps : m.Due jump
  · have drives : m.Due ramOut := by grind
    rw [if_pos jumps, settled_of_due (by decide) drives]
    exact ((if_neg counts).trans (if_pos jumps)).symm
  · rw [if_neg jumps]
    exact ((if_neg counts).trans (if_neg jumps)).symm

theorem memory_tick : m.tick.memory =
    if m.step.toNat = 5 ∧ m.registers.ir = 4 then m.memory.write m.registers.mar m.registers.a
    else m.memory := by
  rw [stored_tick running]
  by_cases stores : m.Due ramIn
  · have drives : m.Due aOut := by grind
    have still : ¬ m.Due loadMar := by grind
    rw [if_pos stores, if_neg still, settled_of_due (by decide) drives]
    exact (if_pos stores).symm
  · rw [if_neg stores]
    exact (if_neg stores).symm

theorem alu_tick : m.tick.alu =
    if m.step.toNat = 6 ∧ (m.registers.ir = 2 ∨ m.registers.ir = 3) then
      Alu.compute m.registers.a m.registers.b (decide (m.registers.ir = 3))
    else m.alu := by
  have driven : m.tick.alu = (m.drive m.asserted).alu := by
    rw [tick_eq_phases running]
    rfl
  rw [driven, drive]
  split_ifs with computes
  · have drives : m.Due aluOut := by grind
    rw [producer?_asserted (by decide) drives, contains_subtract computes.1]
  · cases found : m.asserted.producer? with
    | none => rfl
    | some signal =>
      cases signal with
      | aluOut => exact absurd (contains_asserted.mp (List.find?_some found)) computes
      | _ => rfl

/-- The bus takes what its producer offers, and keeps its value if there is none. -/
theorem bus_tick : m.tick.bus =
    ⟨(m.tick.signals.producer?.map m.offered).getD m.bus.value⟩ := by
  have lines : m.tick.signals = m.asserted := by
    rw [tick_eq running]
    rfl
  have driven : m.tick.bus = ⟨m.settled⟩ := by
    rw [tick_eq_phases running]
    rfl
  rw [driven, lines, settled_eq]

end Running

/-! ## The main result -/

/-- **The frame of a tick.** Let a machine be running, whatever its parts hold, also at a step that
no instruction has. With all values as before, a tick moves the step counter on modulo eight, adds
one to the ticks and keeps the lines of the step. It changes the bus only if these lines have a
producer; a memory cell only at step 5 of a store, and then only the addressed one, to the
accumulator; the arithmetic unit only at step 6 of an addition or a subtraction. It stops the clock
only at step 3 of the opcode 15. Each register changes only at the steps named for it, and to the
value given there. -/
theorem tick_frame (m : Machine) (running : m.halted = false)
    (room : m.ticks.toNat + 1 < 2 ^ 64) :
    let old := m.registers
    let ir := m.registers.ir
    let flags := m.alu.flags
    let cell := m.memory.read m.registers.mar
    let step := m.step.toNat
    let next := m.tick
    (next.step.toNat = (step + 1) % 8 ∧ next.ticks.toNat = m.ticks.toNat + 1 ∧
        next.signals = Microcode.signals ir m.step flags) ∧
      next.bus = ⟨(next.signals.producer?.map m.offered).getD m.bus.value⟩ ∧
      (∀ address, next.memory.read address =
        if step = 5 ∧ ir = 4 ∧ address = old.mar then old.a else m.memory.read address) ∧
      next.alu =
        (if step = 6 ∧ (ir = 2 ∨ ir = 3) then .compute old.a old.b (decide (ir = 3))
          else m.alu) ∧
      next.halted = decide (step = 3 ∧ ir = 15) ∧
      next.registers =
        { pc :=
            if step = 1 ∨ step = 4 ∧ (1 ≤ ir ∧ ir ≤ 5 ∨ ir = 7 ∧ flags.carry = false ∨
                ir = 8 ∧ flags.zero = false) then old.pc + 1
            else if step = 4 ∧ (ir = 6 ∨ ir = 7 ∧ flags.carry = true ∨
                ir = 8 ∧ flags.zero = true) then cell
            else old.pc
          mar :=
            if step = 0 ∨ step = 3 ∧ 1 ≤ ir ∧ ir ≤ 8 then old.pc
            else if step = 4 ∧ 1 ≤ ir ∧ ir ≤ 4 then cell
            else old.mar
          ir := if step = 2 then cell else ir
          a :=
            if step = 4 ∧ ir = 5 ∨ step = 5 ∧ ir = 1 then cell
            else if step = 6 ∧ ir = 2 then old.a + old.b
            else if step = 6 ∧ ir = 3 then old.a - old.b
            else old.a
          b := if step = 5 ∧ (ir = 2 ∨ ir = 3) then cell else old.b
          out := if step = 3 ∧ ir = 14 then old.a else old.out } := by
  intro old ir flags cell step next
  refine ⟨⟨step_tick running, ?ticks, ?signals⟩, bus_tick running, fun address => ?memory,
    alu_tick running, ?halted, ?registers⟩
  case ticks =>
    rw [ticks_tick running, UInt64.toNat_add]
    exact Nat.mod_eq_of_lt room
  case signals =>
    rw [show next = _ from tick_eq running]
    rfl
  case memory =>
    rw [memory_tick running]
    by_cases stores : step = 5 ∧ ir = 4
    · rw [if_pos stores]
      by_cases here : address = old.mar
      · rw [here, Memory.read_write_self, if_pos ⟨stores.1, stores.2, rfl⟩]
      · rw [Memory.read_write_of_ne _ _ here, if_neg fun all => here all.2.2]
    · rw [if_neg stores, if_neg fun all => stores ⟨all.1, all.2.1⟩]
  case halted => rw [Bool.eq_iff_iff, halted_tick running, decide_eq_true_iff]
  case registers =>
    rw [← pc_tick running, ← mar_tick running, ← ir_tick running, ← a_tick running,
      ← b_tick running, ← out_tick running]

/-- A jump that the carry flag lets go on at its operand, and the same machine at a step beyond the
eighth, where nothing but the clock moves. -/
theorem tick_frame_jump :
    let m : Machine :=
      { registers := { pc := 15, mar := 14, ir := 7, a := 3 }, memory := Memory.blank.write 14 9
        alu := { flags := ⟨false, true⟩ }, step := 4, ticks := 12 }
    let late : Machine := { m with step := 254 }
    (m.halted = false ∧ m.ticks.toNat + 1 < 2 ^ 64) ∧
      m.tick.registers = { m.registers with pc := 9 } ∧ m.tick.bus = ⟨9⟩ ∧
      (late.halted = false ∧ late.ticks.toNat + 1 < 2 ^ 64) ∧
      late.tick.registers = m.registers ∧ late.tick.step.toNat = 7 ∧ late.tick.halted = false := by
  intro m late
  obtain ⟨⟨-, -, lines⟩, bus, -, -, -, registers⟩ := tick_frame m rfl (by decide)
  obtain ⟨⟨step, -, -⟩, -, -, -, halted, registers'⟩ := tick_frame late rfl (by decide)
  rw [lines] at bus
  exact ⟨⟨rfl, by decide⟩, registers.trans (by decide), bus.trans (by decide +kernel),
    ⟨rfl, by decide⟩, registers'.trans (by decide), step.trans (by decide),
    halted.trans (by decide)⟩

end NibbleComputer.Machine
