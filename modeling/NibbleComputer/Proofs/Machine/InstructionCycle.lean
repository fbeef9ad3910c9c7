import NibbleComputer.InstructionSet
import NibbleComputer.Machine.Operation
import NibbleComputer.Proofs.Machine.Clock

/-!
# The instruction cycle

Eight ticks of the microcode carry out one instruction. This module says what an instruction
does to every part of the machine, without the microcode, and proves that the ticks do just that.

- `Machine.effect`: the machine after an instruction with a given opcode and operand.
- `Machine.after_fetch`: the three ticks that fetch the opcode.
- `Machine.after_eight`, `Machine.after_four`: a whole cycle, and the one that stops the clock.
- `Machine.instruction_eq_effect`: the operation that runs a machine to the end of its
  instruction has the effect of the instruction.
- `Machine.visible_instruction`: a program observes the step of the instruction set.
- `Machine.apply_instruction`: all of it for the operation on a machine.
-/

namespace NibbleComputer.Machine

open Signal

variable {m : Machine}

/-! ## The effect of an instruction -/

/-- The machine after an instruction with the given opcode and operand, whose opcode stood at the
counter. An instruction takes eight ticks; the one that stops the clock stops it in its fourth. -/
def effect (m : Machine) (opcode : Opcode) (operand : Nibble) : Machine :=
  let old := m.registers
  let cell := m.memory.read operand
  let next := { m with step := 0, signals := .empty, ticks := m.ticks + 8 }
  let single := { old with ir := opcode.code, pc := old.pc + 1, mar := old.pc }
  let immediate := { old with ir := opcode.code, pc := old.pc + 2, mar := old.pc + 1 }
  let direct := { old with ir := opcode.code, pc := old.pc + 2, mar := operand }
  let branch (taken : Bool) :=
    { next with
      bus := ⟨operand⟩
      registers := { immediate with pc := if taken then operand else old.pc + 2 } }
  match opcode with
  | .nop | .reserved _ => { next with bus := ⟨opcode.code⟩, registers := single }
  | .out => { next with bus := ⟨old.a⟩, registers := { single with out := old.a } }
  | .ldi => { next with bus := ⟨operand⟩, registers := { immediate with a := operand } }
  | .lda => { next with bus := ⟨cell⟩, registers := { direct with a := cell } }
  | .sta =>
    { next with
      bus := ⟨old.a⟩, registers := direct, memory := m.memory.write operand old.a }
  | .add =>
    { next with
      bus := ⟨old.a + cell⟩
      registers := { direct with a := old.a + cell, b := cell }
      alu :=
        { result := old.a + cell
          flags := { zero := old.a + cell == 0, carry := decide (15 < old.a.val + cell.val) } } }
  | .sub =>
    { next with
      bus := ⟨old.a - cell⟩
      registers := { direct with a := old.a - cell, b := cell }
      alu :=
        { result := old.a - cell
          flags := { zero := old.a - cell == 0, carry := decide (old.a.val < cell.val) } } }
  | .jmp => branch true
  | .jc => branch m.alu.flags.carry
  | .jz => branch m.alu.flags.zero
  | .hlt =>
    { m with
      bus := ⟨opcode.code⟩, registers := single
      halted := true, step := 4, signals := .ofList [halt], ticks := m.ticks + 4 }

/-- The number of ticks of an instruction. -/
def duration (opcode : Opcode) : Nat :=
  if opcode = .hlt then 4 else 8

/-! ## Running the microcode -/

section Cycle

theorem ofList_nil : SignalSet.ofList [] = .empty := rfl

theorem add_one_add_one (n : Nibble) : n + 1 + 1 = n + 2 := by
  revert n
  decide

attribute [local simp] tick_eq lines advance Microcode.fetch Microcode.routine
  Microcode.addressOperand Microcode.followOperand Microcode.stepCount ofList_nil
  add_one_add_one UInt64.add_assoc

/-- Three ticks fetch the opcode. -/
theorem after_fetch (running : m.halted = false) (first : m.step = 0) :
    after 3 m = { m with
      bus := ⟨m.memory.read m.registers.pc⟩
      registers := { m.registers with
        pc := m.registers.pc + 1
        mar := m.registers.pc
        ir := m.memory.read m.registers.pc }
      signals := .ofList [ramOut, irIn]
      step := 3
      ticks := m.ticks + 3 } := by
  simp [after_succ, running, first]

/-- The fourth tick stops the clock if the opcode says so. -/
theorem after_four (running : m.halted = false) (first : m.step = 0)
    (opcode : Opcode.ofNibble (m.memory.read m.registers.pc) = .hlt) (operand : Nibble) :
    after 4 m = m.effect .hlt operand := by
  have code : Opcode.code .hlt = m.memory.read m.registers.pc := by
    rw [← opcode, Opcode.code_ofNibble]
  rw [after_add 3 1, after_fetch running first]
  simp [after_succ, running, opcode, effect, code]

/-- Eight ticks have the effect of any other instruction. -/
theorem after_eight (running : m.halted = false) (first : m.step = 0) {opcode : Opcode}
    (head : Opcode.ofNibble (m.memory.read m.registers.pc) = opcode) (ne : opcode ≠ .hlt) :
    after 8 m = m.effect opcode (m.memory.read (m.registers.pc + 1)) := by
  have code : opcode.code = m.memory.read m.registers.pc := by
    rw [← head, Opcode.code_ofNibble]
  -- after the fetch, each opcode has its own five steps
  rw [after_add 3 5, after_fetch running first]
  cases opcode with
  | hlt => exact absurd rfl ne
  | nop => simp [after_succ, running, head, effect, code]
  | reserved nibble => simp [after_succ, running, head, effect, code]
  | out => simp [after_succ, running, head, effect, code]
  | ldi => simp [after_succ, running, head, effect, code]
  | lda => simp [after_succ, running, head, effect, code]
  | sta => simp [after_succ, running, head, effect, code]
  | add => simp [after_succ, running, head, effect, code, Alu.compute_add]
  | sub => simp [after_succ, running, head, effect, code, Alu.compute_sub]
  | jmp => simp [after_succ, running, head, effect, code]
  | jc => simp [after_succ, running, head, effect, code]
  | jz => simp [after_succ, running, head, effect, code]

/-- An opcode with an operand addresses the cell behind it in the fourth tick, and the fifth puts
that cell on the bus. -/
theorem operand_fetched (running : m.halted = false) (first : m.step = 0) {opcode : Opcode}
    (head : Opcode.ofNibble (m.memory.read m.registers.pc) = opcode)
    (takes : opcode.takesOperand = true) :
    (after 4 m).registers.mar = m.registers.pc + 1 ∧
      (after 5 m).bus = ⟨m.memory.read (m.registers.pc + 1)⟩ := by
  rw [after_add 3 1, after_add 3 2, after_fetch running first]
  cases opcode with
  | nop | reserved nibble | out | hlt => cases takes
  | ldi => simp [after_succ, running, head]
  | lda => simp [after_succ, running, head]
  | sta => simp [after_succ, running, head]
  | add => simp [after_succ, running, head]
  | sub => simp [after_succ, running, head]
  | jmp => simp [after_succ, running, head]
  | jc => simp [after_succ, running, head]
  | jz => simp [after_succ, running, head]

end Cycle

/-! ## From ticks to instructions -/

@[simp] theorem halted_effect (opcode : Opcode) (operand : Nibble) :
    (m.effect opcode operand).halted = (m.halted || decide (opcode = .hlt)) := by
  cases opcode <;> simp [effect]

/-- An instruction ends at the first step of the next one. -/
theorem step_effect {opcode : Opcode} (ne : opcode ≠ .hlt) (operand : Nibble) :
    (m.effect opcode operand).step = 0 := by
  cases opcode with
  | hlt => exact absurd rfl ne
  | _ => rfl

@[simp] theorem ticks_effect (opcode : Opcode) (operand : Nibble) :
    (m.effect opcode operand).ticks = m.ticks + .ofNat (duration opcode) := by
  cases opcode <;> rfl

/-- A run to the end of the current instruction has the effect of the instruction. -/
theorem instruction_eq_effect (running : m.halted = false) (first : m.step = 0) :
    m.instruction =
      m.effect (.ofNibble (m.memory.read m.registers.pc)) (m.memory.read (m.registers.pc + 1)) := by
  rw [instruction_of_first first]
  by_cases halts : Opcode.ofNibble (m.memory.read m.registers.pc) = .hlt
  · -- the fourth tick stops the clock, and the other four are void
    rw [after_add 4 4, after_four running first halts (m.memory.read (m.registers.pc + 1)), halts]
    exact after_of_halted (by simp) 4
  · exact after_eight running first rfl halts

/-- The effect of an instruction shows to a program as the instruction set says. -/
theorem visible_effect (opcode : Opcode) :
    (m.effect opcode (m.memory.read (m.registers.pc + 1))).visible = m.visible.execute opcode := by
  cases opcode <;> rfl

/-- A program observes one step of the instruction set. -/
theorem visible_instruction (running : m.halted = false) (first : m.step = 0) :
    m.instruction.visible = m.visible.step := by
  have : m.visible.halted = false := running
  rw [instruction_eq_effect running first, visible_effect, Visible.step, this]
  rfl

/-- Whether an instruction with the given opcode goes on at its operand. -/
def jumps (m : Machine) : Opcode → Bool
  | .jmp => true
  | .jc => m.alu.flags.carry
  | .jz => m.alu.flags.zero
  | _ => false

/-- The counter goes to the operand of a jump and past any other instruction. -/
theorem pc_effect (opcode : Opcode) (operand : Nibble) :
    (m.effect opcode operand).registers.pc =
      if m.jumps opcode then operand else m.registers.pc + .ofNat opcode.width := by
  cases opcode <;> rfl

/-- An opcode without an operand has the same effect whatever follows it. -/
theorem effect_of_single {opcode : Opcode} (alone : opcode.takesOperand = false)
    (operand other : Nibble) : m.effect opcode operand = m.effect opcode other := by
  cases opcode with
  | nop | reserved nibble | out | hlt => rfl
  | _ => cases alone

/-- The ticks of an instruction are counted while the counter has room for them. -/
theorem toNat_ticks_effect (opcode : Opcode) (operand : Nibble)
    (room : m.ticks.toNat + 8 < 2 ^ 64) :
    (m.effect opcode operand).ticks.toNat = m.ticks.toNat + duration opcode := by
  have short : duration opcode ≤ 8 := by
    unfold duration
    split <;> decide
  rw [ticks_effect, UInt64.toNat_add, UInt64.toNat_ofNat']
  omega

/-- The operation answers the duration of the instruction. -/
theorem apply_of_instruction_eq {opcode : Opcode} {operand : Nibble}
    (h : m.instruction = m.effect opcode operand) :
    Operation.instruction.apply m =
      (m.effect opcode operand, .taken (.ofNat (duration opcode))) := by
  show (m.instruction, Reply.taken (m.instruction.ticks - m.ticks)) = _
  rw [h, ticks_effect, UInt64.add_comm, UInt64.add_sub_cancel]

/-! ## The main result -/

/-- **The microcode refines the instruction set.** From the first step of an instruction, whatever
the parts of the machine hold, the operation that runs it to its end leaves the machine that
`effect` describes for the opcode at the counter and the operand after it. It answers four ticks
if the clock stopped and eight otherwise, the tick counter has grown by as many, and a program
observes the step of the instruction set. -/
theorem apply_instruction (m : Machine) (running : m.halted = false) (first : m.step = 0)
    (room : m.ticks.toNat + 8 < 2 ^ 64) :
    let opcode := Opcode.ofNibble (m.memory.read m.registers.pc)
    let next := m.effect opcode (m.memory.read (m.registers.pc + 1))
    Operation.instruction.apply m = (next, .taken (.ofNat (duration opcode))) ∧
      next.ticks.toNat = m.ticks.toNat + duration opcode ∧
      next.visible = m.visible.step := by
  intro opcode next
  have last : m.instruction = next := instruction_eq_effect running first
  refine ⟨apply_of_instruction_eq last, toNat_ticks_effect _ _ room, ?_⟩
  rw [← last, visible_instruction running first]

/-- A store at the last cell that takes its operand from the first cell and overwrites its own
opcode. -/
theorem apply_instruction_store_onto_itself :
    let m : Machine :=
      { registers := { pc := 15, a := 9, b := 3 }, memory := Memory.blank.fill [15] |>.write 15 4 }
    m.halted = false ∧ m.step = 0 ∧ m.ticks.toNat + 8 < 2 ^ 64 ∧
      Operation.instruction.apply m =
        ({ m with
            bus := ⟨9⟩
            registers := { pc := 1, mar := 15, ir := 4, a := 9, b := 3 }
            memory := m.memory.write 15 9
            ticks := 8 },
          .taken 8) := by
  intro m
  exact ⟨rfl, rfl, by decide, (apply_instruction m rfl rfl (by decide)).1⟩

end NibbleComputer.Machine
