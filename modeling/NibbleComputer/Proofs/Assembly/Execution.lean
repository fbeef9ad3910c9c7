import NibbleComputer.Proofs.Assembly.Layout
import NibbleComputer.Proofs.Machine.InstructionCycle

/-!
# Running an assembled program

The machine that finds an assembled program in its memory does, at the start address of a retained
line, what the line says. The widths that the assembler counts with are those by which the
microcode moves the counter.

- `Assembly.instruction_of_single`, `Assembly.instruction_of_double`: the instruction that memory
  holds at the counter.
- `Assembly.pc_onward`: where the machine goes on after a line.
- `Assembly.instruction_at_start`: the instruction at the start of a line.
-/

namespace NibbleComputer.Assembly

variable {m : Machine} {labels : LabelTable} {statement : Statement} {code : List Nibble}

/-- The opcode of a mnemonic is as wide as its statement. -/
theorem width_of_mnemonic {opcode : Opcode}
    (mnemonic : Opcode.ofMnemonic? statement.mnemonic = some opcode) :
    statement.width = opcode.width := by
  rw [Statement.width, wordWidth, mnemonic]

/-! ## Instructions in memory -/

section Placed

variable {opcode : Opcode} {address : Nat}

/-- Where memory holds the opcode of a mnemonic, the machine reads it. -/
theorem ofNibble_read {rest : List Nibble}
    (mnemonic : Opcode.ofMnemonic? statement.mnemonic = some opcode)
    (placed : opcode.code :: rest <+: m.memory.toList.drop address)
    (counter : m.registers.pc.val = address) :
    Opcode.ofNibble (m.memory.read m.registers.pc) = opcode := by
  have read := (Memory.read_of_prefix placed (Nat.succ_pos _)).2
  rw [Nat.add_zero, ← counter, Nibble.ofNat_val] at read
  rw [read]
  exact Opcode.ofNibble_code (Opcode.mem_assigned_of_ofMnemonic? mnemonic)

/-- Where memory holds an opcode with its operand, the operand is in the next cell, which is not
beyond the last. -/
theorem read_operand {first operand : Nibble}
    (placed : [first, operand] <+: m.memory.toList.drop address)
    (counter : m.registers.pc.val = address) :
    (m.registers.pc + 1).val = address + 1 ∧ m.memory.read (m.registers.pc + 1) = operand := by
  obtain ⟨room, read⟩ := Memory.read_of_prefix placed (by decide : 1 < 2)
  have next : m.registers.pc + 1 = Nibble.ofNat (address + 1) := by
    apply Fin.ext
    rw [Fin.val_add, counter]
    rfl
  rw [next]
  exact ⟨Nat.mod_eq_of_lt room, read⟩

/-- The instruction of an opcode that stands alone does not depend on what follows it. -/
theorem instruction_of_single (running : m.halted = false) (first : m.step = 0)
    (mnemonic : Opcode.ofMnemonic? statement.mnemonic = some opcode)
    (alone : opcode.takesOperand = false)
    (placed : [opcode.code] <+: m.memory.toList.drop address)
    (counter : m.registers.pc.val = address) (operand : Nibble) :
    m.instruction = m.effect opcode operand := by
  rw [Machine.instruction_eq_effect running first, ofNibble_read mnemonic placed counter,
    Machine.effect_of_single alone]

/-- The instruction of an opcode with an operand takes the operand from the next cell, which is
not beyond the last. -/
theorem instruction_of_double {operand : Nibble} (running : m.halted = false) (first : m.step = 0)
    (mnemonic : Opcode.ofMnemonic? statement.mnemonic = some opcode)
    (takes : opcode.takesOperand = true)
    (placed : [opcode.code, operand] <+: m.memory.toList.drop address)
    (counter : m.registers.pc.val = address) :
    m.instruction = m.effect opcode operand ∧ address + 1 ≤ 15 ∧
      (Machine.after 4 m).registers.mar.val = address + 1 ∧
      (Machine.after 5 m).bus.value = operand := by
  have head := ofNibble_read mnemonic placed counter
  obtain ⟨cell, read⟩ := read_operand placed counter
  obtain ⟨mar, bus⟩ := Machine.operand_fetched running first head takes
  refine ⟨?_, ?_, ?_, ?_⟩
  · rw [Machine.instruction_eq_effect running first, head, read]
  · rw [← cell]
    exact Nat.le_of_lt_succ (m.registers.pc + 1).isLt
  · rw [mar, cell]
  · rw [bus, read]

end Placed

/-! ## Where the machine goes on -/

/-- The counter after an instruction that does not jump is at the next address. -/
theorem pc_of_not_jumps {opcode : Opcode} {address : Nat} (counter : m.registers.pc.val = address)
    (straight : m.jumps opcode = false) (operand : Nibble) :
    (m.effect opcode operand).registers.pc = .ofNat (address + opcode.width) := by
  rw [Machine.pc_effect, straight]
  -- the sum of nibbles wraps around as the address does
  apply Fin.ext
  show (m.registers.pc.val + opcode.width % 16) % 16 = (address + opcode.width) % 16
  rw [counter]
  omega

/-- After a line that does not jump, the counter is at the start of the next line, or at the size
of the program after the last one. -/
theorem pc_onward {source : String} {program : Program} (assembled : assemble source = .ok program)
    {position : Nat} (inside : position < (retained source.toList).length) {opcode : Opcode}
    (mnemonic : Opcode.ofMnemonic? (retained source.toList)[position].mnemonic = some opcode)
    (counter : m.registers.pc.val = start (retained source.toList) position)
    (straight : m.jumps opcode = false) (operand : Nibble) :
    (position + 1 < (retained source.toList).length →
      (m.effect opcode operand).registers.pc.val = start (retained source.toList) (position + 1)) ∧
    (position + 1 = (retained source.toList).length →
      (m.effect opcode operand).registers.pc.val = program.size % 16) := by
  rw [pc_of_not_jumps counter straight, ← width_of_mnemonic mnemonic, ← start_succ _ inside,
    Nibble.val_ofNat]
  refine ⟨fun within => ?_, fun last => ?_⟩
  · exact Nat.mod_eq_of_lt (start_lt_of_assemble assembled within)
  · rw [last, start_length, (size_of_assemble assembled).1]

/-- **Compiled code does what its line says.** Let a machine hold an assembled program in its
memory and be about to begin an instruction at the start address of a retained line that places
no raw nibble, whatever else it holds. Then the operation that runs it to the end of the
instruction has the effect of the opcode that the line's mnemonic names. If the opcode takes an
operand, that operand is the value of the line's second word; it is fetched from the cell after
the start address, which is not beyond the last cell. Unless the line jumps, the counter is then at
the start address of the next retained line, or at the size of the program after the last one. If
it jumps to a label, the counter is at the address of the label. -/
theorem instruction_at_start {source : String} {program : Program}
    (assembled : assemble source = .ok program) {position : Nat}
    (inside : position < (retained source.toList).length)
    (code : ¬ (retained source.toList)[position].IsData) (m : Machine)
    (running : m.halted = false) (first : m.step = 0) (room : m.ticks.toNat + 8 < 2 ^ 64)
    (loaded : m.memory = program.code)
    (counter : m.registers.pc.val = start (retained source.toList) position) :
    let lines := retained source.toList
    let address := start lines position
    let next := m.instruction
    ∃ opcode, Opcode.ofMnemonic? lines[position].mnemonic = some opcode ∧
      (opcode.takesOperand = false → ∀ operand, next = m.effect opcode operand) ∧
      (opcode.takesOperand = true →
        ∃ word operand, lines[position].operand? = some word ∧
          Resolves program.labels word operand ∧ next = m.effect opcode operand ∧
          address + 1 ≤ 15 ∧ (Machine.after 4 m).registers.mar.val = address + 1 ∧
          (Machine.after 5 m).bus.value = operand ∧
          ∀ target, program.labels.find? (labelKey word) = some target → m.jumps opcode = true →
            next.registers.pc = .ofNat target) ∧
      Machine.Operation.instruction.apply m = (next, .taken (.ofNat (Machine.duration opcode))) ∧
      next.ticks.toNat = m.ticks.toNat + Machine.duration opcode ∧
      (m.jumps opcode = false →
        (position + 1 < lines.length → next.registers.pc.val = start lines (position + 1)) ∧
        (position + 1 = lines.length → next.registers.pc.val = program.size % 16)) := by
  intro lines address next
  obtain ⟨nibbles, rules, placed⟩ := exists_encodes_at assembled inside
  rw [← loaded] at placed
  -- the line has the encoding of an opcode alone or of one with its operand
  cases rules with
  | data data second read => exact absurd data code
  | @single opcode code mnemonic alone =>
    have effect : ∀ operand, next = m.effect opcode operand :=
      instruction_of_single running first mnemonic alone placed counter
    refine ⟨opcode, mnemonic, fun _ => effect, fun takes => ?_, ?_, ?_, fun straight => ?_⟩
    · rw [alone] at takes
      cases takes
    · rw [Machine.apply_of_instruction_eq (effect 0), ← effect]
    · rw [effect 0, Machine.toNat_ticks_effect _ _ room]
    · rw [effect 0]
      exact pc_onward assembled inside mnemonic counter straight 0
  | @double opcode word operand code mnemonic takes second resolves =>
    obtain ⟨effect, last, mar, bus⟩ :=
      instruction_of_double running first mnemonic takes placed counter
    refine ⟨opcode, mnemonic, fun alone => ?_, fun _ => ?_, ?_, ?_, fun straight => ?_⟩
    · rw [takes] at alone
      cases alone
    · refine ⟨word, operand, second, resolves, effect, last, mar, bus, fun target found jump => ?_⟩
      show m.instruction.registers.pc = _
      rw [effect, Machine.pc_effect, if_pos jump]
      -- an operand that names a label has no other value than its address
      cases resolves with
      | label found' => rw [found'] at found; cases found; rfl
      | literal absent _ => rw [absent] at found; cases found
    · rw [Machine.apply_of_instruction_eq effect, ← effect]
    · show m.instruction.ticks.toNat = _
      rw [effect, Machine.toNat_ticks_effect _ _ room]
    · show (_ → m.instruction.registers.pc.val = _) ∧ (_ → m.instruction.registers.pc.val = _)
      rw [effect]
      exact pc_onward assembled inside mnemonic counter straight operand

/-- A conditional jump back to a label, taken because of a carry left over from before. -/
theorem instruction_at_start_jump :
    let source := "again: LDI 3\nJC again"
    let program : Program :=
      { code := Memory.blank.fill [5, 3, 7, 0], size := 4, labels := ⟨[("AGAIN", 0)]⟩ }
    let m : Machine :=
      { bus := ⟨11⟩, registers := { pc := 2, mar := 7, a := 9 }, memory := program.code
        alu := { flags := { carry := true } }, signals := .ofList [.irOut] }
    assemble source = .ok program ∧ m.registers.pc.val = start (retained source.toList) 1 ∧
      m.instruction.registers.pc = 0 := by
  intro source program m
  have assembled : assemble source = .ok program := by
    dsimp only [source, program]
    rfl
  have lines : retained source.toList =
      [⟨1, "LDI".toList, some "3".toList⟩, ⟨2, "JC".toList, some "again".toList⟩] := by
    decide +kernel
  have inside : 1 < (retained source.toList).length := by rw [lines]; decide
  have line : (retained source.toList)[1] = ⟨2, "JC".toList, some "again".toList⟩ := by
    simp only [lines]
    rfl
  have code : ¬ (retained source.toList)[1].IsData := by rw [line]; decide
  have counter : m.registers.pc.val = start (retained source.toList) 1 := by rw [lines]; rfl
  refine ⟨assembled, counter, ?_⟩
  obtain ⟨opcode, mnemonic, -, double, -⟩ :=
    instruction_at_start assembled inside code m rfl rfl (by decide) rfl counter
  rw [line] at mnemonic double
  obtain rfl : Opcode.jc = opcode := Option.some.inj mnemonic
  obtain ⟨word, operand, second, -, -, -, -, -, target⟩ := double rfl
  obtain rfl : "again".toList = word := Option.some.inj second
  exact target 0 (by decide +kernel) rfl

end NibbleComputer.Assembly
