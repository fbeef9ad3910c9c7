import Mathlib.Algebra.Group.Fin.Basic
import NibbleComputer.Proofs.Machine.Outputs
import NibbleComputer.Proofs.Memory.Updates

/-!
# The Fibonacci program

A loop of seven instructions keeps two consecutive numbers of a Fibonacci sequence in memory. Each
turn displays the newer one, adds the older to it, and gets the old newer one back by subtracting;
the difference is right although the sum may have wrapped around.

- `Fibonacci.sequence`: the sequence from any two numbers on.
- `Fibonacci.words`, `Fibonacci.image`: the program, and memory with it.
- `Fibonacci.steps_display`, `Fibonacci.steps_advance`, `Fibonacci.steps_recover`,
  `Fibonacci.steps_return`: the parts of a turn.
- `Fibonacci.steps_turn`, `Fibonacci.steps_turns`: one turn, and any number of them.
- `Fibonacci.after_turns`: the machine after the ticks of any number of turns.
-/

namespace NibbleComputer.Fibonacci

open Visible

/-! ## The sequence and the program -/

/-- The sequence that begins with two given numbers and goes on with the sum of the last two. -/
def sequence (previous current : Nat) : Nat → Nat
  | 0 => previous
  | 1 => current
  | j + 2 => sequence previous current (j + 1) + sequence previous current j

/-- The program. Its last two words are the numbers that it starts from. -/
def words (previous current : UInt8) : List UInt8 :=
  [1, 14,   -- LDA 14
   14,      -- OUT
   2, 13,   -- ADD 13
   4, 14,   -- STA 14
   3, 13,   -- SUB 13
   4, 13,   -- STA 13
   6, 0,    -- JMP 0
   previous, current]

/-- The cells of memory with the program, the two numbers, and a cell behind them that the program
does not use. -/
def cells (previous current unused : Nibble) : List Nibble :=
  [1, 14, 14, 2, 13, 4, 14, 3, 13, 4, 13, 6, 0, previous, current, unused]

/-- Memory with these cells. -/
def image (previous current unused : Nibble) : Memory :=
  Memory.blank.fill (cells previous current unused)

variable {p c q a out : Nibble} {flags : Flags}

theorem read_image {address value : Nibble} (cell : (cells p c q)[address.val]? = some value) :
    (image p c q).read address = value := by
  rw [image, Memory.read_fill, cell, Option.getD_some]

theorem write_previous (value : Nibble) : (image p c q).write 13 value = image value c q :=
  Memory.write_fill (show 13 < 16 by decide) value

theorem write_current (value : Nibble) : (image p c q).write 14 value = image p value q :=
  Memory.write_fill (show 14 < 16 by decide) value

/-- The two numbers are all that tells two images of the program apart. -/
theorem read_image_of_ne (p' c' : Nibble) {address : Nibble} (ne : address ≠ 13)
    (ne' : address ≠ 14) : (image p' c' q).read address = (image p c q).read address := by
  rw [← write_previous (p := p) p', Memory.read_write_of_ne _ _ ne, ← write_current (c := c) c',
    Memory.read_write_of_ne _ _ ne']

/-! ## One turn -/

/-- The newer number is displayed. -/
theorem steps_display :
    steps 2 ⟨0, a, out, flags, image p c q, false⟩ = ⟨3, c, c, flags, image p c q, false⟩ := by
  have load : (image p c q).read 0 = 1 := read_image rfl
  have address : (image p c q).read 1 = 14 := read_image rfl
  have newer : (image p c q).read 14 = c := read_image rfl
  have output : (image p c q).read 2 = 14 := read_image rfl
  simp [steps, step, opcode, operand, execute, Opcode.ofNibble, load, address, newer, output]

/-- The sum of both numbers becomes the newer one. -/
theorem steps_advance :
    steps 2 ⟨3, c, out, flags, image p c q, false⟩ =
      ⟨7, c + p, out, (Alu.compute c p false).flags, image p (c + p) q, false⟩ := by
  have add : (image p c q).read 3 = 2 := read_image rfl
  have address : (image p c q).read 4 = 13 := read_image rfl
  have older : (image p c q).read 13 = p := read_image rfl
  have store : (image p c q).read 5 = 4 := read_image rfl
  have target : (image p c q).read 6 = 14 := read_image rfl
  simp [steps, step, opcode, operand, execute, compute, Opcode.ofNibble, add, address, older, store,
    target, write_current, Alu.compute_add]

/-- The number that was the newer one before becomes the older one. -/
theorem steps_recover :
    steps 2 ⟨7, c + p, out, flags, image p (c + p) q, false⟩ =
      ⟨11, c, out, (Alu.compute (c + p) p true).flags, image c (c + p) q, false⟩ := by
  have sub : (image p (c + p) q).read 7 = 3 := read_image rfl
  have address : (image p (c + p) q).read 8 = 13 := read_image rfl
  have older : (image p (c + p) q).read 13 = p := read_image rfl
  have store : (image p (c + p) q).read 9 = 4 := read_image rfl
  have target : (image p (c + p) q).read 10 = 13 := read_image rfl
  simp [steps, step, opcode, operand, execute, compute, Opcode.ofNibble, sub, address, older, store,
    target, write_previous, Alu.compute_sub, add_sub_cancel_right]

/-- The program begins again. -/
theorem steps_return :
    steps 1 ⟨11, a, out, flags, image p c q, false⟩ = ⟨0, a, out, flags, image p c q, false⟩ := by
  have jump : (image p c q).read 11 = 6 := read_image rfl
  have target : (image p c q).read 12 = 0 := read_image rfl
  simp [steps, step, opcode, operand, execute, branch, Opcode.ofNibble, jump, target]

/-- One turn displays the newer number and moves on by one in the sequence. -/
theorem steps_turn :
    steps 7 ⟨0, a, out, flags, image p c q, false⟩ =
      ⟨0, c, c, (Alu.compute (c + p) p true).flags, image c (c + p) q, false⟩ := by
  rw [steps_add 2 5, steps_display, steps_add 2 3, steps_advance, steps_add 2 1, steps_recover,
    steps_return]

/-! ## Any number of turns -/

theorem ofNat_add (m n : Nat) : Nibble.ofNat (m + n) = Nibble.ofNat m + Nibble.ofNat n := by
  apply Fin.ext
  rw [Fin.val_add, Nibble.val_ofNat, Nibble.val_ofNat, Nibble.val_ofNat, ← Nat.add_mod]

/-- After each turn the number with the index of the turn has been displayed, and is the older one
of the two in memory. -/
theorem steps_turns (previous current : Nat) (unused a out : Nibble) (flags : Flags) (turns : Nat) :
    let value (index : Nat) := Nibble.ofNat (sequence previous current index)
    ∃ flags', steps (7 * (turns + 1))
        ⟨0, a, out, flags, image (value 0) (value 1) unused, false⟩ =
      ⟨0, value (turns + 1), value (turns + 1), flags',
        image (value (turns + 1)) (value (turns + 2)) unused, false⟩ := by
  intro value
  have next (index : Nat) : value (index + 2) = value (index + 1) + value index :=
    ofNat_add _ _
  induction turns with
  | zero => exact ⟨_, by rw [Nat.zero_add, Nat.mul_one, steps_turn, next 0]⟩
  | succ turns ih =>
    obtain ⟨flags', before⟩ := ih
    exact ⟨_, by rw [Nat.mul_succ, steps_add, before, steps_turn, next (turns + 1)]⟩

/-! ## The machine -/

/-- A new machine with the program in memory. -/
def start (previous current unused : UInt8) : Machine :=
  { Machine.initial with
    memory := image (.ofByte previous) (.ofByte current) (.ofByte unused) }

/-- The program with a word for the last cell is loaded at once. -/
theorem load_words (previous current unused : UInt8) :
    Machine.initial.load (words previous current ++ [unused]) =
      .ok (start previous current unused) := by
  have fits : (words previous current ++ [unused]).length ≤ memorySize := show 16 ≤ 16 by decide
  rw [Machine.load, Memory.load_of_le fits]
  rfl

/-- The program is loaded, and a value put into the cell behind it. -/
theorem perform_load_words (previous current unused : UInt8) :
    Machine.initial.perform [.load (words previous current), .write 15 (.ofByte unused)] =
      (start previous current unused, [.done, .done]) := by
  have fits : (words previous current).length ≤ memorySize := show 15 ≤ 16 by decide
  have room : ((words previous current).map Nibble.ofByte).length < memorySize :=
    show 15 < 16 by decide
  have behind : (Memory.blank.fill ((words previous current).map .ofByte)).write 15
      (.ofByte unused) = image (.ofByte previous) (.ofByte current) (.ofByte unused) :=
    Memory.write_fill_length room (.ofByte unused)
  rw [Machine.perform_cons, Machine.apply_load_of_le fits, Memory.Update.apply,
    Memory.load_of_le fits, start, ← behind]
  rfl

/-- What a program observes of the machine after some turns. -/
theorem visible_after_turns (previous current unused : UInt8) (turns : Nat) :
    let value (index : Nat) := Nibble.ofNat (sequence previous.toNat current.toNat index)
    let final := Machine.after (56 * (turns + 1)) (start previous current unused)
    final.halted = false ∧ ∃ flags, final.visible =
      ⟨0, value (turns + 1), value (turns + 1), flags,
        image (value (turns + 1)) (value (turns + 2)) (.ofByte unused), false⟩ := by
  intro value final
  have ticks : 56 * (turns + 1) = 8 * (7 * (turns + 1)) := by omega
  obtain ⟨flags, seen⟩ :=
    steps_turns previous.toNat current.toNat (.ofByte unused) 0 0 {} turns
  have running : final.halted = false := by
    unfold final
    rw [ticks, Machine.running_iff rfl rfl]
    exact congrArg Visible.halted seen
  refine ⟨running, flags, ?_⟩
  unfold final at running ⊢
  rw [ticks] at running ⊢
  exact (Machine.visible_after rfl rfl running).trans seen

/-! ## The main result -/

/-- **The program computes its sequence for ever.** It is loaded into a new machine with any two
numbers to start from and any value in the cell behind it. After 56 ticks for each of any number of
turns the clock has not stopped and the program begins again; the output register shows the number
of the sequence with the index of the turn, modulo sixteen. Memory holds that number and the next
one, and is otherwise as it was loaded. -/
theorem after_turns (previous current unused : UInt8) {turns : Nat} (pos : 1 ≤ turns)
    (room : 56 * turns < 2 ^ 64) :
    let value (index : Nat) := sequence previous.toNat current.toNat index % 16
    ∃ start, Machine.initial.load (words previous current ++ [unused]) = .ok start ∧
      Machine.initial.perform [.load (words previous current), .write 15 (.ofByte unused)] =
        (start, [.done, .done]) ∧
      let final := Machine.after (56 * turns) start
      final.halted = false ∧ final.step = 0 ∧ final.ticks.toNat = 56 * turns ∧
        final.registers.pc = 0 ∧ final.registers.out.val = value turns ∧
        (final.memory.read 14).val = value (turns + 1) ∧
        (final.memory.read 13).val = value turns ∧
        ∀ address, address ≠ 13 → address ≠ 14 →
          final.memory.read address = start.memory.read address := by
  intro value
  refine ⟨start previous current unused, load_words .., perform_load_words .., ?_⟩
  intro final
  obtain ⟨before, rfl⟩ := Nat.exists_eq_add_of_le' pos
  obtain ⟨running, flags, visible⟩ := visible_after_turns previous current unused before
  have made := Machine.clocked_eq _ running
  have fresh : (start previous current unused).ticks.toNat = 0 := rfl
  have memory := congrArg Visible.memory visible
  refine ⟨running, ?_, ?_, congrArg Visible.pc visible, ?_, ?_, ?_, ?_⟩
  · have ticks : 56 * (before + 1) = 8 * (7 * (before + 1)) := by omega
    unfold final
    rw [ticks] at running ⊢
    exact Machine.step_after_mul rfl running
  · unfold final
    rw [Machine.toNat_ticks_after (by omega), made, fresh, Nat.zero_add]
  · exact congrArg (fun seen => seen.out.val) visible
  · exact congrArg Fin.val ((congrArg (Memory.read · 14) memory).trans (read_image rfl))
  · exact congrArg Fin.val ((congrArg (Memory.read · 13) memory).trans (read_image rfl))
  · intro address ne ne'
    exact (congrArg (Memory.read · address) memory).trans (read_image_of_ne _ _ ne ne')

/-- A sequence from numbers of which one needs more than four bits, with sums that wrap around. -/
theorem after_turns_wrapped :
    1 ≤ 4 ∧ 56 * 4 < 2 ^ 64 ∧
      ∃ start, Machine.initial.load (words 29 15 ++ [9]) = .ok start ∧
        let final := Machine.after (56 * 4) start
        final.registers.out = 7 ∧ final.memory.read 13 = 7 ∧ final.memory.read 14 = 2 ∧
          final.memory.read 15 = start.memory.read 15 := by
  obtain ⟨start, loaded, -, -, -, -, -, out, newer, older, kept⟩ :=
    after_turns 29 15 9 (show 1 ≤ 4 by decide) (by decide)
  exact ⟨by decide, by decide, start, loaded, Fin.ext out, Fin.ext older, Fin.ext newer,
    kept 15 (by decide) (by decide)⟩

end NibbleComputer.Fibonacci
