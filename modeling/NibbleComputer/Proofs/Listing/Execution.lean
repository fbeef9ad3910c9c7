import Mathlib.Data.List.Basic
import NibbleComputer.Proofs.Listing.Reassembly
import NibbleComputer.Proofs.Machine.InstructionCycle
import NibbleComputer.Proofs.Text.Numerals

/-!
# Memory as text and as a program

The text that memory shows at the counter and the instruction that the machine carries out there
are two readings of the same cells. They agree, with one exception: at the last address there is no
cell for an operand, so that the text shows a question mark, while the machine goes round and takes
the first cell.

- `Instruction.describeAt_toList`: the text and the width at an address of memory.
- `Instruction.ofMnemonic?_text_iff`, `Instruction.text_eq_iff`,
  `Instruction.getLast?_text_iff`: which cells show as a mnemonic alone, with a number behind it,
  or with a question mark.
- `Machine.withFetched`: the only trace of a nibble without a meaning.
- `Machine.instruction_as_described`: the instruction at the counter does what its text says.
-/

namespace NibbleComputer

/-- The number of the next nibble, except after the last one. -/
theorem Nibble.val_add_one {n : Nibble} (ne : n ≠ 15) : (n + 1).val = n.val + 1 := by
  have below : n.val ≠ 15 := fun h => ne (Fin.ext h)
  rw [Fin.val_add]
  exact Nat.mod_eq_of_lt (by omega)

/-- Only the last nibble is followed by zero and one. -/
theorem Nibble.eq_last : ∀ n : Nibble, n + 1 = 0 ∨ n + 2 = 1 → n = 15 := by
  decide

namespace Instruction

/-! ## The text at an address -/

/-- The instruction that memory shows at an address. Behind the last address there is no cell for
an operand. -/
def shownAt (memory : Memory) (address : Nibble) : Instruction where
  head := memory.read address
  operand? :=
    if (Opcode.ofNibble (memory.read address)).takesOperand ∧ address ≠ 15 then
      some (memory.read (address + 1))
    else none

theorem at?_toList (memory : Memory) (address : Nibble) :
    at? memory.toList address.val = some (shownAt memory address) := by
  have inside : address.val < memory.toList.length := by
    rw [Memory.length_toList]
    exact address.isLt
  have head : memory.toList[address.val] = memory.read address :=
    (List.getElem_of_getElem? (memory.getElem?_toList address)).2
  -- the cell behind the opcode, if there is one
  have next : memory.toList[address.val + 1]? =
      if address ≠ 15 then some (memory.read (address + 1)) else none := by
    by_cases last : address = 15
    · subst last
      rw [if_neg (fun h => h rfl)]
      exact List.getElem?_eq_none (Nat.le_of_eq memory.length_toList)
    · rw [if_pos last, ← Nibble.val_add_one last, memory.getElem?_toList]
  rw [at?, List.drop_eq_getElem_cons inside, head, first?, List.head?_drop, next, shownAt]
  by_cases takes : (Opcode.ofNibble (memory.read address)).takesOperand = true
  · simp [takes]
  · simp [takes]

/-- The operand that memory shows behind an opcode that takes one. -/
theorem operand?_shownAt {memory : Memory} {address : Nibble}
    (takes : (Opcode.ofNibble (memory.read address)).takesOperand = true) :
    (shownAt memory address).operand? =
      if address = 15 then none else some (memory.read (address + 1)) := by
  by_cases last : address = 15
  · simp [shownAt, last]
  · simp [shownAt, takes, last]

/-- The operand is missing at the last address only. -/
theorem operand?_shownAt_eq_none_iff {memory : Memory} {address : Nibble}
    (takes : (Opcode.ofNibble (memory.read address)).takesOperand = true) :
    (shownAt memory address).operand? = none ↔ address = 15 := by
  rw [operand?_shownAt takes]
  split <;> simp_all

/-- The text and the width at an address of memory. -/
theorem describeAt_toList (memory : Memory) (address : Nibble) :
    describeAt memory.toList address.val =
      ((shownAt memory address).text, (shownAt memory address).width) := by
  rw [describeAt, at?_toList]

/-! ## The three forms of a text -/

variable {instruction : Instruction}

/-- A mnemonic is a single word. -/
theorem ofMnemonic?_eq_none {word : List Char} (blank : ' ' ∈ word) :
    Opcode.ofMnemonic? word = none := by
  have single : ∀ opcode ∈ Opcode.assigned, ' ' ∉ opcode.mnemonic.toList.map Char.toLower := by
    decide
  refine List.find?_eq_none.mpr fun opcode mem same => single opcode mem ?_
  rw [Text.sameIgnoringCase, beq_iff_eq] at same
  rw [same]
  exact List.mem_map.mpr ⟨' ', blank, rfl⟩

/-- A text is a mnemonic alone if the opcode takes no operand. A nibble without a meaning has the
mnemonic of zero. -/
theorem ofMnemonic?_text_iff {opcode : Opcode} :
    Opcode.ofMnemonic? instruction.text.toList = some opcode ↔
      instruction.opcode.takesOperand = false ∧
        opcode = .ofNibble (if instruction.head.isReserved then 0 else instruction.head) := by
  cases takes : instruction.opcode.takesOperand with
  | false =>
    obtain ⟨known, assigned, mnemonic, code, -⟩ := Listing.exists_ofMnemonic? instruction.head
    have found : Opcode.ofMnemonic? instruction.opcode.mnemonic.toList = some known := mnemonic
    rw [text_of_alone takes, found, ← code, Opcode.ofNibble_code assigned]
    simp [eq_comm]
  | true =>
    rw [text_of_takesOperand takes, ofMnemonic?_eq_none (by simp)]
    simp

theorem notMem_mnemonic {mark : Char} (h : Assembly.isLabelChar mark = false) (opcode : Opcode) :
    mark ∉ opcode.mnemonic.toList :=
  Assembly.notMem_of_all (mnemonic_word opcode).2 h

/-- A text is a word and a number if the opcode takes an operand and there is a cell for it. -/
theorem text_eq_iff {word : String} {number : Nat} :
    instruction.text = word ++ " " ++ Text.decimal number ↔
      instruction.opcode.takesOperand = true ∧ instruction.opcode.mnemonic = word ∧
        instruction.operand?.map Fin.val = some number := by
  have blank : ' ' ∉ instruction.opcode.mnemonic.toList := notMem_mnemonic (by decide) _
  have shape : (word ++ " " ++ Text.decimal number).toList =
      word.toList ++ ' ' :: (Text.decimal number).toList := by simp
  rw [← String.toList_inj, shape]
  cases takes : instruction.opcode.takesOperand with
  | false =>
    refine iff_of_false (fun same => blank ?_) (by simp)
    rw [← text_of_alone takes, same]
    simp
  | true =>
    have single : ' ' ∉ (instruction.operand?.elim "?" Nibble.decimal).toList :=
      Assembly.notMem_of_all (operand_word instruction.operand?).2 (by decide)
    rw [text_of_takesOperand takes, List.append_cons_inj_of_notMem blank single, String.toList_inj,
      String.toList_inj]
    cases instruction.operand? with
    | none =>
      have digits : '?' ∉ (Text.decimal number).toList := Text.notMem_decimal (by decide) number
      have other : "?" ≠ Text.decimal number := fun same => digits (by rw [← same]; decide)
      simp [other]
    | some operand =>
      have value : operand.decimal = Text.decimal number ↔ operand.val = number :=
        ⟨Text.decimal_inj, fun same => congrArg Text.decimal same⟩
      simp [value]

/-- A text ends in a question mark if the opcode takes an operand and there is no cell for it. -/
theorem getLast?_text_iff :
    instruction.text.toList.getLast? = some '?' ↔
      instruction.opcode.takesOperand = true ∧ instruction.operand? = none := by
  have plain : '?' ∉ instruction.opcode.mnemonic.toList := notMem_mnemonic (by decide) _
  cases takes : instruction.opcode.takesOperand with
  | false =>
    refine iff_of_false (fun last => plain ?_) (by simp)
    rw [← text_of_alone takes]
    exact List.mem_of_getLast? last
  | true =>
    rw [text_of_takesOperand takes]
    cases instruction.operand? with
    | none => simp
    | some operand =>
      refine iff_of_false (fun last => ?_) (by simp)
      rcases List.mem_append.mp (List.mem_of_getLast? last) with mnemonic | operand'
      · exact plain mnemonic
      · rcases List.mem_cons.mp operand' with blank | digit
        · exact absurd blank (by decide)
        · exact absurd digit (Text.notMem_decimal (by decide) operand.val)

/-- At an address of memory the operand is missing only if the address is the last. -/
theorem getLast?_text_shownAt {memory : Memory} {address : Nibble} :
    (shownAt memory address).text.toList.getLast? = some '?' ↔
      address = 15 ∧ (Opcode.ofNibble (memory.read address)).takesOperand = true := by
  rw [getLast?_text_iff, and_comm]
  exact and_congr_left fun takes => operand?_shownAt_eq_none_iff takes

/-- Every text has one of the three forms. -/
theorem text_cases (instruction : Instruction) :
    (∃ opcode, Opcode.ofMnemonic? instruction.text.toList = some opcode) ∨
      (∃ word number, instruction.text = word ++ " " ++ Text.decimal number) ∨
      instruction.text.toList.getLast? = some '?' := by
  cases takes : instruction.opcode.takesOperand with
  | false => exact .inl ⟨_, ofMnemonic?_text_iff.mpr ⟨takes, rfl⟩⟩
  | true =>
    cases operand : instruction.operand? with
    | none => exact .inr (.inr (getLast?_text_iff.mpr ⟨takes, operand⟩))
    | some nibble =>
      exact .inr (.inl ⟨_, nibble.val, text_eq_iff.mpr ⟨takes, rfl, by rw [operand]; rfl⟩⟩)

end Instruction

/-! ## The instruction at the counter -/

namespace Machine

open Instruction

variable {m : Machine}

/-- The machine with a nibble left over from the fetch, in the instruction register and on the
bus. -/
def withFetched (m : Machine) (nibble : Nibble) : Machine :=
  { m with bus := ⟨nibble⟩, registers := { m.registers with ir := nibble } }

/-- A nibble without a meaning is decoded as such. -/
theorem ofNibble_reserved : ∀ head : Nibble, head.isReserved = true →
    Opcode.ofNibble head = .reserved head := by
  decide

theorem mem_assigned_of_takesOperand {opcode : Opcode} (takes : opcode.takesOperand = true) :
    opcode ∈ Opcode.assigned := by
  cases opcode with
  | reserved nibble => cases takes
  | _ => decide

theorem jumps_of_alone {opcode : Opcode} (alone : opcode.takesOperand = false) :
    m.jumps opcode = false := by
  cases opcode with
  | nop | reserved nibble | out | hlt => rfl
  | _ => cases alone

section Shown

variable (running : m.halted = false) (first : m.step = 0)

include running first

/-- Where memory shows a mnemonic alone, its opcode is carried out. -/
theorem instruction_of_mnemonic {opcode : Opcode}
    (shown : Opcode.ofMnemonic? (shownAt m.memory m.registers.pc).text.toList = some opcode) :
    (shownAt m.memory m.registers.pc).width = 1 ∧
      m.instruction.registers.pc = m.registers.pc + 1 ∧
      m.instruction.visible = m.visible.execute opcode ∧
      ((m.memory.read m.registers.pc).isReserved = true → opcode = .nop) ∧
      ∀ operand, m.instruction =
        if (m.memory.read m.registers.pc).isReserved then
          (m.effect opcode operand).withFetched (m.memory.read m.registers.pc)
        else m.effect opcode operand := by
  obtain ⟨alone, named⟩ := ofMnemonic?_text_iff.mp shown
  have alone : (Opcode.ofNibble (m.memory.read m.registers.pc)).takesOperand = false := alone
  have named : opcode = .ofNibble
      (if (m.memory.read m.registers.pc).isReserved then 0 else m.memory.read m.registers.pc) :=
    named
  have effect := instruction_eq_effect running first
  have visible := visible_effect (m := m) (.ofNibble (m.memory.read m.registers.pc))
  refine ⟨?_, ?_, ?_, ?_, fun operand => ?_⟩
  · simp [width, raw, shownAt, alone]
  · rw [effect, pc_effect, jumps_of_alone alone, Opcode.width, alone]
    rfl
  · rw [effect, visible]
    -- a nibble without a meaning does to a program what zero does
    cases known : (m.memory.read m.registers.pc).isReserved with
    | false => rw [named, known]; rfl
    | true => rw [named, known, ofNibble_reserved _ known]; rfl
  · intro known
    rw [named, known]
    rfl
  · rw [effect, effect_of_single alone _ operand]
    cases known : (m.memory.read m.registers.pc).isReserved with
    | false => rw [named, known]; rfl
    | true => rw [named, known, ofNibble_reserved _ known]; rfl

/-- Where memory shows a word and a number, the opcode of the word is carried out with the number
as its operand. -/
theorem instruction_of_number {word : String} {number : Nat}
    (shown : (shownAt m.memory m.registers.pc).text = word ++ " " ++ Text.decimal number) :
    m.registers.pc.val ≤ 14 ∧ (shownAt m.memory m.registers.pc).width = 2 ∧
      ∃ opcode operand, Opcode.ofMnemonic? word.toList = some opcode ∧ operand.val = number ∧
        m.instruction = m.effect opcode operand ∧
        m.instruction.visible = m.visible.execute opcode ∧
        m.instruction.registers.pc =
          if m.jumps opcode then operand else m.registers.pc + 2 := by
  obtain ⟨takes, rfl, value⟩ := text_eq_iff.mp shown
  have takes : (Opcode.ofNibble (m.memory.read m.registers.pc)).takesOperand = true := takes
  have effect := instruction_eq_effect running first
  have onward := pc_effect (m := m) (.ofNibble (m.memory.read m.registers.pc))
    (m.memory.read (m.registers.pc + 1))
  have two : (Opcode.ofNibble (m.memory.read m.registers.pc)).width = 2 := by
    rw [Opcode.width, if_pos takes]
  have operand := operand?_shownAt takes
  -- at the last address there would be no operand
  have inside : m.registers.pc ≠ 15 := by
    intro last
    rw [operand, if_pos last] at value
    cases value
  rw [if_neg inside] at operand
  rw [operand, Option.map_some, Option.some_inj] at value
  refine ⟨?_, ?_, _, _, Opcode.ofMnemonic?_mnemonic (mem_assigned_of_takesOperand takes), value,
    effect, ?_, ?_⟩
  · have : m.registers.pc.val ≠ 15 := fun h => inside (Fin.ext h)
    omega
  · rw [width, raw, operand]
    rfl
  · rw [effect, visible_effect]
    rfl
  · rw [effect, onward, two]
    rfl

/-- Where memory shows a question mark, the machine takes the first cell as the operand. -/
theorem instruction_of_open (last : m.registers.pc = 15)
    (takes : (Opcode.ofNibble (m.memory.read m.registers.pc)).takesOperand = true) :
    (after 5 m).bus = ⟨m.memory.read 0⟩ ∧
      m.instruction = m.effect (.ofNibble (m.memory.read m.registers.pc)) (m.memory.read 0) ∧
      m.instruction.registers.pc =
        if m.jumps (.ofNibble (m.memory.read m.registers.pc)) then m.memory.read 0 else 1 := by
  have round : m.registers.pc + 1 = 0 := by rw [last]; rfl
  have effect := instruction_eq_effect running first
  rw [round] at effect
  refine ⟨?_, effect, ?_⟩
  · rw [(operand_fetched running first rfl takes).2, round]
  · rw [effect, pc_effect, Opcode.width, if_pos takes, last]
    rfl

end Shown

/-! ## The main result -/

/-- **Memory reads alike as text and as a program.** Let a machine be about to begin an instruction,
whatever its parts hold. If memory shows a mnemonic alone at the counter, it shows one cell, the
opcode of that mnemonic is carried out, and the counter moves on by one; a nibble without a meaning
shows as the instruction that does nothing and differs from it only in what the fetch leaves in the
instruction register and on the bus. If memory shows a word and a number, there are two cells, the
first of them not the last of memory, and the opcode of that word is carried out with the number as
its operand; the counter moves on by two or goes to the number. Memory shows a question mark at the
last address before an opcode that takes an operand. Only then does the machine take the operand
from the first cell, and unless it jumps only then does such an opcode lead to the address after
that. -/
theorem instruction_as_described (m : Machine) (running : m.halted = false) (first : m.step = 0)
    (room : m.ticks.toNat + 8 < 2 ^ 64) :
    let pc := m.registers.pc
    let cell := m.memory.read pc
    let opcode := Opcode.ofNibble cell
    let text := (Instruction.describeAt m.memory.toList pc.val).1
    let width := (Instruction.describeAt m.memory.toList pc.val).2
    let next := m.instruction
    (Operation.instruction.apply m = (next, .taken (.ofNat (duration opcode))) ∧
        next.ticks.toNat = m.ticks.toNat + duration opcode) ∧
      ((∃ named, Opcode.ofMnemonic? text.toList = some named) ∨
        (∃ word number, text = word ++ " " ++ Text.decimal number) ∨
        text.toList.getLast? = some '?') ∧
      (∀ named, Opcode.ofMnemonic? text.toList = some named →
        width = 1 ∧ next.registers.pc = pc + 1 ∧ next.visible = m.visible.execute named ∧
          (cell.isReserved = true → named = .nop) ∧
          ∀ operand, next =
            if cell.isReserved then (m.effect named operand).withFetched cell
            else m.effect named operand) ∧
      (∀ word number, text = word ++ " " ++ Text.decimal number →
        pc.val ≤ 14 ∧ width = 2 ∧
          ∃ named operand, Opcode.ofMnemonic? word.toList = some named ∧ operand.val = number ∧
            next = m.effect named operand ∧ next.visible = m.visible.execute named ∧
            next.registers.pc = if m.jumps named then operand else pc + 2) ∧
      (text.toList.getLast? = some '?' ↔ pc = 15 ∧ opcode.takesOperand = true) ∧
      (text.toList.getLast? = some '?' →
        (after 4 m).registers.mar = 0 ∧ (after 5 m).bus = ⟨m.memory.read 0⟩ ∧
          next = m.effect opcode (m.memory.read 0) ∧
          next.registers.pc = if m.jumps opcode then m.memory.read 0 else 1) ∧
      (opcode.takesOperand = true →
        ((after 4 m).registers.mar = 0 → text.toList.getLast? = some '?') ∧
          (m.jumps opcode = false → next.registers.pc = 1 →
            text.toList.getLast? = some '?')) := by
  intro pc cell opcode text width next
  have shown := describeAt_toList m.memory pc
  have textShown : text = (shownAt m.memory pc).text := congrArg Prod.fst shown
  have widthShown : width = (shownAt m.memory pc).width := congrArg Prod.snd shown
  have effect : next = m.effect opcode (m.memory.read (pc + 1)) :=
    instruction_eq_effect running first
  have cut : text.toList.getLast? = some '?' ↔ pc = 15 ∧ opcode.takesOperand = true := by
    rw [textShown]
    exact getLast?_text_shownAt
  refine ⟨⟨?_, ?_⟩, ?_, ?_, ?_, cut, ?_, ?_⟩
  · rw [apply_of_instruction_eq effect, ← effect]
  · rw [effect, toNat_ticks_effect _ _ room]
  · rw [textShown]
    exact text_cases _
  · intro named bare
    rw [textShown] at bare
    rw [widthShown]
    exact instruction_of_mnemonic running first bare
  · intro word number double
    rw [textShown] at double
    rw [widthShown]
    exact instruction_of_number running first double
  · intro open'
    obtain ⟨last, takes⟩ := cut.mp open'
    refine ⟨?_, instruction_of_open running first last takes⟩
    rw [(operand_fetched running first rfl takes).1]
    show pc + 1 = 0
    rw [last]
    rfl
  · intro takes
    constructor
    · -- the operand is fetched from the next address
      intro round
      have behind : pc + 1 = 0 := (operand_fetched running first rfl takes).1.symm.trans round
      exact cut.mpr ⟨Nibble.eq_last pc (.inl behind), takes⟩
    · intro straight one
      rw [effect, pc_effect, straight, Opcode.width, if_pos takes] at one
      exact cut.mpr ⟨Nibble.eq_last pc (.inr one), takes⟩

/-- An opcode at the last address, whose operand is the first cell, and a jump that is taken. -/
theorem instruction_as_described_wrapped :
    let last : Machine :=
      { registers := { pc := 15, mar := 4 }, memory := (Memory.blank.fill [9]).write 15 5 }
    let jump : Machine := { memory := Memory.blank.fill [7, 12], alu := { flags := ⟨false, true⟩ } }
    (Instruction.describeAt last.memory.toList 15).1 = "LDI ?" ∧
      last.instruction = last.effect .ldi 9 ∧ last.instruction.registers.pc = 1 ∧
      (Instruction.describeAt jump.memory.toList 0).1 = "JC 12" ∧
      jump.instruction = jump.effect .jc 12 ∧ jump.instruction.registers.pc = 12 := by
  intro last jump
  have open' : (Instruction.describeAt last.memory.toList 15).1 = "LDI ?" := by decide +kernel
  have double : (Instruction.describeAt jump.memory.toList 0).1 =
      "JC" ++ " " ++ Text.decimal 12 := by decide +kernel
  obtain ⟨-, -, -, -, -, wraps, -⟩ := instruction_as_described last rfl rfl (by decide)
  obtain ⟨-, -, -, takes, -⟩ := instruction_as_described jump rfl rfl (by decide)
  obtain ⟨-, -, effect, onward⟩ := wraps (by decide +kernel)
  obtain ⟨-, -, named, operand, known, value, effect', -, onward'⟩ := takes "JC" 12 double
  obtain rfl : Opcode.jc = named := Option.some.inj known
  obtain rfl : operand = 12 := Fin.ext value
  exact ⟨open', effect, onward, double, effect', onward'⟩

end Machine

end NibbleComputer
