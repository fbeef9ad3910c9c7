import Mathlib.Data.List.Basic
import NibbleComputer.Machine.Operation

/-!
# The contents of memory

Memory is written cell by cell, loaded from address zero on, and cleared. Whatever the order of
these changes, each cell can be told by itself: it holds what it was given last.

- `Memory.write_fill`, `Memory.write_fill_length`: a cell written among filled ones or behind them.
- `Memory.Update`, `Memory.updated`: the changes, and memory after some of them.
- `Memory.Update.given?`: the number that a change gives to a cell.
- `Memory.Update.read_apply`, `Memory.read_updated`: a cell after one change, and after many.
- `Memory.mem_dump_iff`, `Memory.pairwise_dump`, `Memory.dump_append`: what a range of cells lists.
- `Memory.last_given`: the cells after any changes, programs that are refused, and ranges.
-/

namespace NibbleComputer

namespace Memory

variable {memory : Memory} {words : List UInt8}

/-! ## Filled cells -/

/-- A value written over one of some nibbles takes its place among them. -/
theorem write_fill {nibbles : List Nibble} {address : Nibble}
    (inside : address.val < nibbles.length) (value : Nibble) :
    (memory.fill nibbles).write address value = memory.fill (nibbles.set address.val value) := by
  refine ext_read fun other => ?_
  by_cases same : other = address
  · rw [same, read_write_self, read_fill, List.getElem?_set_self inside, Option.getD_some]
  · have apart : address.val ≠ other.val := fun e => same (Fin.ext e.symm)
    rw [read_write_of_ne _ _ same, read_fill, read_fill, List.getElem?_set_ne apart]

/-- The cells behind some nibbles take more of them. -/
theorem write_fill_length {nibbles : List Nibble} (room : nibbles.length < memorySize)
    (value : Nibble) :
    (memory.fill nibbles).write (.ofNat nibbles.length) value =
      memory.fill (nibbles ++ [value]) := by
  have here : (Nibble.ofNat nibbles.length).val = nibbles.length := Nat.mod_eq_of_lt room
  refine ext_read fun address => ?_
  by_cases same : address = .ofNat nibbles.length
  · rw [same, read_write_self, read_fill, here]
    simp
  · have other : address.val ≠ nibbles.length := fun e => same (Fin.ext (e.trans here.symm))
    have last : (nibbles ++ [value])[address.val]? = nibbles[address.val]? := by
      rcases Nat.lt_or_gt_of_ne other with lt | gt
      · exact List.getElem?_append_left lt
      · rw [List.getElem?_eq_none (by simp; omega), List.getElem?_eq_none (by omega)]
    rw [read_write_of_ne _ _ same, read_fill, read_fill, last]

/-! ## One change -/

/-- What changes memory from outside. -/
inductive Update where
  /-- A cell takes a value. -/
  | write (address value : Nibble)
  /-- A program is loaded, if it is not too long. -/
  | load (words : List UInt8)
  /-- Every cell is set to zero. -/
  | clear
deriving DecidableEq

namespace Update

/-- The memory after a change. A program that is refused leaves it as it was. -/
def apply (memory : Memory) : Update → Memory
  | write address value => memory.write address value
  | load words =>
    match memory.load words with
    | .ok next => next
    | .error _ => memory
  | clear => blank

/-- The number that a change gives to a cell, if the change covers it. A program covers as many
cells as it has words, and none if it has more words than there are cells. -/
def given? (address : Nibble) : Update → Option Nat
  | write target value => if target = address then some value.val else none
  | load words => if words.length ≤ memorySize then words[address.val]?.map UInt8.toNat else none
  | clear => some 0

end Update

theorem load_of_le (fits : words.length ≤ memorySize) :
    memory.load words = .ok (memory.fill (words.map Nibble.ofByte)) := by
  rw [load, if_neg (Nat.not_lt_of_le fits)]

theorem load_of_lt (long : memorySize < words.length) :
    memory.load words = .error (.programTooLarge words.length) := by
  rw [load, if_pos long]

/-- A change gives a cell the low four bits of its number, or leaves it alone. -/
theorem Update.read_apply (update : Update) (memory : Memory) (address : Nibble) :
    (update.apply memory).read address =
      ((update.given? address).map Nibble.ofNat).getD (memory.read address) := by
  cases update with
  | write target value =>
    show (memory.write target value).read address = _
    by_cases same : target = address
    · subst same
      simp [given?]
    · rw [read_write_of_ne _ _ (Ne.symm same)]
      simp [given?, same]
  | load words =>
    by_cases fits : words.length ≤ memorySize
    · rw [apply, load_of_le fits, given?, if_pos fits]
      show (memory.fill _).read address = _
      rw [read_fill, List.getElem?_map, Option.map_map]
      rfl
    · rw [apply, load_of_lt (Nat.lt_of_not_le fits), given?, if_neg fits]
      rfl
  | clear => exact read_blank address

/-! ## Many changes -/

/-- The memory after some changes. -/
def updated (memory : Memory) (history : List Update) : Memory :=
  history.foldl Update.apply memory

/-- A cell holds the last of the numbers that it has been given, cut to four bits. -/
theorem read_updated (memory : Memory) (history : List Update) (address : Nibble) :
    (memory.updated history).read address =
      ((history.filterMap (Update.given? address)).getLast?.map Nibble.ofNat).getD
        (memory.read address) := by
  induction history generalizing memory with
  | nil => rfl
  | cons update history ih =>
    show ((update.apply memory).updated history).read address = _
    rw [ih, update.read_apply]
    cases given : update.given? address with
    | none => rw [List.filterMap_cons_none given]; rfl
    | some number =>
      -- the number counts only if no later change covers the cell
      rw [List.filterMap_cons_some given, List.getLast?_cons]
      cases (history.filterMap (Update.given? address)).getLast? <;> rfl

/-! ## Ranges of cells -/

/-- Saturation does not show, since a range ends with the last cell at the latest. -/
theorem dump_eq (memory : Memory) (start count : Nat) :
    memory.dump start count =
      (List.range' (min start (min (start + count) memorySize))
          (min (start + count) memorySize - min start (min (start + count) memorySize))).map
        fun i => (i, memory.read (.ofNat i)) := by
  have stop : min (saturatingAdd start count) memorySize = min (start + count) memorySize := by
    simp only [saturatingAdd, memorySize, UInt64.size]
    omega
  rw [dump, stop]

theorem mem_dump_iff {start count i : Nat} {value : Nibble} :
    (i, value) ∈ memory.dump start count ↔
      start ≤ i ∧ i < min (start + count) memorySize ∧ value = memory.read (.ofNat i) := by
  simp only [dump_eq, List.mem_map, List.mem_range'_1, Prod.mk.injEq]
  constructor
  · rintro ⟨j, bounds, rfl, rfl⟩
    exact ⟨by omega, by omega, rfl⟩
  · rintro ⟨low, high, rfl⟩
    exact ⟨i, by omega, rfl, rfl⟩

theorem pairwise_dump (memory : Memory) (start count : Nat) :
    (memory.dump start count).Pairwise (·.1 < ·.1) := by
  rw [dump_eq, List.pairwise_map]
  exact List.pairwise_lt_range' 1

/-- A range goes on where another one ends. -/
theorem dump_append (memory : Memory) (start first second : Nat) :
    memory.dump start first ++ memory.dump (start + first) second =
      memory.dump start (first + second) := by
  rw [dump_eq, dump_eq, dump_eq, ← List.map_append, ← Nat.add_assoc]
  congr 1
  by_cases inside : start + first ≤ memorySize
  · -- the second range begins behind the last cell of the first
    have middle : min (start + first) (min (start + first + second) memorySize) =
        min start (min (start + first) memorySize) +
          (min (start + first) memorySize - min start (min (start + first) memorySize)) := by
      omega
    rw [middle, show min start (min (start + first) memorySize) =
      min start (min (start + first + second) memorySize) by omega, List.range'_append_1]
    congr 1
    omega
  · -- the second range is empty
    have full : min (start + first) memorySize = min (start + first + second) memorySize := by
      omega
    rw [full, Nat.min_eq_right (a := start + first) (by omega), Nat.sub_self, List.range'_zero,
      List.append_nil]

end Memory

/-! ## Programs for a machine -/

namespace Machine

variable {words : List UInt8}

/-- A machine that refuses a program stays as it was in all its parts. -/
theorem apply_load_of_lt (long : memorySize < words.length) (m : Machine) :
    (Operation.load words).apply m = (m, .refused (.programTooLarge words.length)) := by
  rw [Operation.apply, load, Memory.load_of_lt long]
  rfl

/-- A program that a machine accepts changes its memory alone. -/
theorem apply_load_of_le (fits : words.length ≤ memorySize) (m : Machine) :
    (Operation.load words).apply m =
      ({ m with memory := (Memory.Update.load words).apply m.memory }, .done) := by
  rw [Operation.apply, load, Memory.Update.apply, Memory.load_of_le fits]
  rfl

end Machine

namespace Memory

/-! ## The main result -/

/-- **A cell holds what it was given last.** Take any memory and any changes to it. Each cell then
holds, modulo sixteen, the number that the last change to cover it has given to it, and its first
contents if no change covers it. A program of more words than there are cells is refused with its
length and covers nothing; a machine that refuses it stays the same in all its parts, and one that
accepts a program changes in its memory only. A range lists exactly the cells from its start to its
end or to the last cell, in ascending order, and two adjacent ranges make up one. -/
theorem last_given (memory : Memory) :
    (∀ history address, ((memory.updated history).read address).val =
        (history.filterMap (Update.given? address)).getLast?.getD (memory.read address).val % 16) ∧
      (∀ words, memorySize < words.length →
        memory.load words = .error (.programTooLarge words.length) ∧
          (∀ address, (Update.load words).given? address = none) ∧
          ∀ m, (Machine.Operation.load words).apply m =
            (m, .refused (.programTooLarge words.length))) ∧
      (∀ words, words.length ≤ memorySize →
        memory.load words = .ok (memory.updated [.load words]) ∧
          ∀ m : Machine, (Machine.Operation.load words).apply m =
            ({ m with memory := m.memory.updated [.load words] }, .done)) ∧
      (∀ start count,
        (∀ i value, (i, value) ∈ memory.dump start count ↔
          start ≤ i ∧ i < min (start + count) 16 ∧ value = memory.read (.ofNat i)) ∧
        (memory.dump start count).Pairwise (·.1 < ·.1)) ∧
      ∀ start first second, memory.dump start first ++ memory.dump (start + first) second =
        memory.dump start (first + second) := by
  refine ⟨fun history address => ?_, fun words long => ⟨load_of_lt long, fun address => ?_,
    Machine.apply_load_of_lt long⟩, fun words fits => ⟨?_, Machine.apply_load_of_le fits⟩,
    fun start count => ⟨fun i value => mem_dump_iff, pairwise_dump memory start count⟩,
    memory.dump_append⟩
  · rw [read_updated]
    cases (history.filterMap (Update.given? address)).getLast? with
    | none => exact (Nat.mod_eq_of_lt (memory.read address).isLt).symm
    | some number => rfl
  · exact if_neg (Nat.not_le_of_lt long)
  · show memory.load words = .ok ((Update.load words).apply memory)
    rw [Update.apply, load_of_le fits]

/-- Partial overwrites with a program in between that is refused, and ranges whose ends are beyond
64 bits. -/
theorem last_given_overwritten :
    let memory := blank.fill [7, 7, 7, 7]
    let history : List Update :=
      [.write 2 9, .load [0x1F, 0x20], .load (.replicate 17 3), .write 0 4]
    (List.ofFn fun i : Fin 4 => (memory.updated history).read (.ofNat i)) = [4, 0, 9, 7] ∧
      ((memory.updated history).read 1).val =
        (history.filterMap (Update.given? 1)).getLast?.getD (memory.read 1).val % 16 ∧
      memory.load (.replicate 17 3) = .error (.programTooLarge 17) ∧
      memory.load [0x1F, 0x20] = .ok (memory.updated [.load [0x1F, 0x20]]) ∧
      memory.dump 2 (UInt64.size - 1) =
        memory.dump 2 2 ++ memory.dump (2 + 2) (UInt64.size - 3) := by
  intro memory history
  obtain ⟨cells, refuses, accepts, -, adjacent⟩ := last_given memory
  refine ⟨by decide +kernel, cells history 1, ?_, ?_, (adjacent 2 2 (UInt64.size - 3)).symm⟩
  · exact (refuses (.replicate 17 3) (by decide)).1
  · exact (accepts [0x1F, 0x20] (by decide)).1

end Memory

end NibbleComputer
