import NibbleComputer.Machine.Operation

/-!
# Reset

A reset leaves nothing of what a machine has done but the contents of its memory. From there on, a
machine is the same as a new one into which these contents have been loaded, so that the same
operations get the same replies from both.

- `Machine.reset_eq`, `Machine.reset_congr`: after a reset only memory tells machines apart.
- `Memory.load_toList`, `Machine.load_initial`: a program of sixteen words takes the place of all
  cells.
- `Machine.perform_reset`: histories after a reset.
-/

namespace NibbleComputer

/-! ## A program that fills memory -/

namespace Memory

/-- As many nibbles as there are cells leave none of the old contents. -/
theorem fill_toList (memory other : Memory) : other.fill memory.toList = memory := by
  refine ext_read fun address => ?_
  rw [read_fill, getElem?_toList]
  rfl

/-- The contents of a memory, loaded as a program, take the place of any others. -/
theorem load_toList (memory other : Memory) :
    other.load (memory.toList.map Nibble.toByte) = .ok memory := by
  have fits : ¬ memorySize < (memory.toList.map Nibble.toByte).length := by
    rw [List.length_map, length_toList]
    exact Nat.lt_irrefl _
  have nibbles : (memory.toList.map Nibble.toByte).map Nibble.ofByte = memory.toList := by
    rw [List.map_map]
    exact List.map_id'' (fun n => Nibble.ofByte_toByte n) _
  rw [load, if_neg fits, nibbles, fill_toList]

end Memory

namespace Machine

variable {m m' : Machine}

/-! ## The machine after a reset -/

/-- No part but memory is left out of a reset. -/
theorem reset_eq (m : Machine) : m.reset = { initial with memory := m.memory } := by
  rw [reset, Registers.reset_eq]
  rfl

/-- After a reset, only memory tells machines apart. -/
theorem reset_congr (same : m'.memory = m.memory) : m'.reset = m.reset := by
  rw [reset_eq, reset_eq, same]

/-- A new machine into which the contents of a memory are loaded is one that has been reset. -/
theorem load_initial (m : Machine) :
    initial.load (m.memory.toList.map Nibble.toByte) = .ok m.reset := by
  rw [load, Memory.load_toList, reset_eq]
  rfl

/-! ## The main result -/

/-- **A reset forgets everything but memory.** Take any machine, at any step, halted or not, and
whatever is in its registers, bus, arithmetic unit, signals and tick counter. A new machine does not
refuse the contents of its memory as a program. With that program loaded it answers any history of
operations as the first machine does after a reset, reply by reply, reports the same events, and
ends up the same. And a run that leaves memory as it was at the start can be repeated after a reset,
with the same replies and the same events, to the same machine with the same tick count. -/
theorem perform_reset (m : Machine) :
    ∃ start, initial.load (m.memory.toList.map Nibble.toByte) = .ok start ∧
      (∀ operations, m.reset.perform operations = start.perform operations ∧
        m.reset.log operations = start.log operations) ∧
      ∀ operations, let final := (start.perform operations).1
        final.memory = start.memory →
          final.reset.perform operations = start.perform operations ∧
            final.reset.log operations = start.log operations := by
  refine ⟨m.reset, load_initial m, fun operations => ⟨rfl, rfl⟩, fun operations => ?_⟩
  intro final kept
  have again : final.reset = m.reset := reset_congr kept
  rw [again]
  exact ⟨rfl, rfl⟩

/-- A halted machine in the middle of an instruction, reset and run to the halt twice. The program
stores a seven over a seven. -/
theorem perform_reset_replayed :
    let m : Machine :=
      { memory := Memory.blank.fill [5, 7, 4, 9, 14, 15, 0, 0, 0, 7]
        registers := { pc := 3, ir := 8, a := 12 }
        alu := { flags := { carry := true }, result := 1 }
        bus := ⟨6⟩, step := 6, halted := true, signals := .ofList [.halt], ticks := 99 }
    let operations : List Operation := [.instruction, .load (.replicate 17 1), .run 30]
    ∃ start, initial.load (m.memory.toList.map Nibble.toByte) = .ok start ∧
      m.reset.perform operations = start.perform operations ∧
      (start.perform operations).2 = [.taken 8, .refused (.programTooLarge 17), .taken 20] ∧
      (start.perform operations).1.memory = start.memory ∧
      (start.perform operations).1.reset.perform operations = start.perform operations := by
  intro m operations
  obtain ⟨start, loaded, same, again⟩ := perform_reset m
  obtain rfl : m.reset = start := Except.ok.inj ((load_initial m).symm.trans loaded)
  have kept : (m.reset.perform operations).1.memory = m.reset.memory := by decide +kernel
  exact ⟨_, loaded, (same operations).1, by decide +kernel, kept, (again operations kept).1⟩

end Machine

end NibbleComputer
