import Mathlib.Data.List.Nodup
import NibbleComputer.Machine.Operation
import NibbleComputer.Proofs.Json.RoundTrip
import NibbleComputer.Proofs.Snapshot.Description

/-!
# Snapshots there and back

The snapshot of a machine is read as that machine. The writer and the reader meet in the description
of the parts: what is written for a part describes it, and a part is read from what describes it.

- `Json.HasFields.of_keys`: the fields of an object with different keys.
- `Machine.describedBy_toJson`, with a lemma of the same name for each part: what is written
  describes it.
- `Machine.readable_toJson`: there are only integers in it.
- `Machine.restore?_snapshot`: a snapshot is read as the machine.
- `Machine.snapshot_round_trip`: the same for every text that is read at all.
-/

namespace NibbleComputer

open Json

/-! ## What is written describes the part -/

/-- In an object with different keys the contents stand under their keys. -/
theorem Json.HasFields.of_keys {names : List String} {contents : List Json}
    {members : List (String × Json)} (keys : members.map Prod.fst = names)
    (values : members.map Prod.snd = contents) (distinct : names.Nodup) :
    HasFields names contents (.object members) := by
  subst keys values
  refine .object ?_
  rw [List.forall₂_map_left_iff, List.forall₂_map_right_iff, List.forall₂_same]
  intro member mem
  obtain ⟨before, after, rfl⟩ := List.mem_iff_append.mp mem
  refine ⟨before, after, rfl, fun other among same => ?_⟩
  rw [List.map_append, List.map_cons, List.nodup_middle, ← List.map_append] at distinct
  refine (List.nodup_cons.mp distinct).1 ?_
  rw [← same]
  exact List.mem_map_of_mem among

theorem Nibble.describedBy_toJson (n : Nibble) : n.DescribedBy n.toJson :=
  Nibble.ofJson?_eq_some_iff.mp n.ofJson?_toJson

theorem Nibble.inCell_cellToJson (n : Nibble) : n.InCell (cellToJson n) :=
  ⟨n.toJson, .of_keys rfl rfl (by decide), n.describedBy_toJson⟩

theorem Flags.describedBy_toJson (flags : Flags) : flags.DescribedBy flags.toJson :=
  .of_keys rfl rfl (by decide)

theorem Alu.describedBy_toJson (alu : Alu) : alu.DescribedBy alu.toJson :=
  ⟨alu.flags.toJson, alu.result.toJson, .of_keys rfl rfl (by decide),
    alu.flags.describedBy_toJson, alu.result.describedBy_toJson⟩

theorem Registers.describedBy_toJson (registers : Registers) :
    registers.DescribedBy registers.toJson := by
  refine ⟨Register.all.map fun register => cellToJson (registers.read register),
    .of_keys rfl rfl (by decide), ?_⟩
  rw [List.forall₂_map_left_iff, List.forall₂_same]
  exact fun register _ => (registers.read register).inCell_cellToJson

theorem Memory.describedBy_toJson (memory : Memory) : memory.DescribedBy memory.toJson := by
  refine ⟨memory.toList.map Nibble.toJson, .of_keys rfl rfl (by decide), ?_⟩
  rw [List.forall₂_map_left_iff, List.forall₂_same]
  exact fun n _ => n.describedBy_toJson

theorem SignalSet.describedBy_toJson (set : SignalSet) : set.DescribedBy set.toJson := by
  refine ⟨set.toList.map Signal.toJson, set.toList, rfl, ?_, fun signal => mem_toList.symm⟩
  rw [List.forall₂_map_left_iff, List.forall₂_same]
  exact fun signal _ => .inl rfl

namespace Machine

variable (m : Machine)

/-- What is written for a machine describes it. -/
theorem describedBy_toJson : m.DescribedBy m.toJson :=
  ⟨m.bus.toJson, m.registers.toJson, m.memory.toJson, m.alu.toJson, m.signals.toJson,
    .of_keys rfl rfl (by decide), m.bus.value.inCell_cellToJson, m.registers.describedBy_toJson,
    m.memory.describedBy_toJson, m.alu.describedBy_toJson, m.signals.describedBy_toJson⟩

/-- There are no numerals but integers in what is written for a machine. -/
theorem readable_toJson : Readable m.toJson := by
  simp [toJson, Bus.toJson, Registers.toJson, Memory.toJson, Alu.toJson, Flags.toJson,
    SignalSet.toJson, Signal.toJson, cellToJson, Nibble.toJson]

/-- The snapshot of a machine is read as that machine. -/
theorem restore?_snapshot (style : Style) : restore? (m.snapshot style) = some m :=
  restore?_eq_some_iff.mpr
    ⟨m.toJson, parse?_write m.readable_toJson style, m.describedBy_toJson⟩

/-- All nibbles of a machine. -/
def nibbles : List Nibble :=
  m.bus.value :: m.alu.result :: Register.all.map m.registers.read ++ m.memory.toList

/-- **Snapshots go there and back.** The snapshot of any machine, on one line or on many, is read as
that machine, which then goes on as the first one would, whatever is done to it. A text is read as a
machine if it denotes a value that describes the machine: with fields in any order and others among
them, with numbers that lose their high bits, with signals in any order and more than once. Whatever
the text, the nibbles of the machine are at most 15, there are sixteen cells, and the snapshot of the
machine is read as what the text was read as. -/
theorem snapshot_round_trip :
    (∀ (m : Machine) (style : Style), restore? (m.snapshot style) = some m ∧
      ∀ operations, (restore? (m.snapshot style)).map (fun restored =>
          (restored.perform operations, restored.log operations)) =
        some (m.perform operations, m.log operations)) ∧
    (∀ (text : String) (m : Machine), restore? text = some m ↔
      ∃ value, parse? text = some value ∧ m.DescribedBy value) ∧
    ∀ (text : String) (m : Machine), restore? text = some m →
      (∀ n ∈ m.nibbles, n.val ≤ 15) ∧ m.memory.toList.length = 16 ∧
        ∀ style, restore? (m.snapshot style) = restore? text := by
  refine ⟨fun m style => ⟨m.restore?_snapshot style, fun operations => ?_⟩, ?_, ?_⟩
  · rw [m.restore?_snapshot style]
    rfl
  · intro text m
    exact restore?_eq_some_iff
  · intro text m read
    refine ⟨fun n _ => Nat.le_of_lt_succ n.isLt, m.memory.length_toList, fun style => ?_⟩
    rw [read]
    exact m.restore?_snapshot style

/-- A machine from a text with numbers beyond a nibble, with signals out of order and repeated, and
with fields that no machine has. -/
theorem snapshot_round_trip_loose :
    let text := Text.unlines
      ["\x7b \"version\": [1.5e3], \"ticks\": 7, \"halted\": false, \"step\": 6,",
       "\"signals\": [\"Halt\", \"Jump\", \"Halt\"],",
       "\"alu\": \x7b\"result\": 31, \"flags\": \x7b\"carry\": false, \"zero\": true\x7d\x7d,",
       "\"bus\": \x7b\"unit\": null, \"value\": 16\x7d,",
       "\"regs\": \x7b\"out\": [6], \"b\": [5], \"a\": [244],",
       "\"ir\": [3], \"mar\": [18], \"pc\": [1]\x7d,",
       "\"ram\": \x7b\"cells\": [0, 1, 2, 3, 4, 5, 6, 7, 8, 9, 10, 11, 12, 13, 14, 255]\x7d \x7d"]
    let m : Machine :=
      { bus := ⟨0⟩
        registers := { pc := 1, mar := 2, ir := 3, a := 4, b := 5, out := 6 }
        memory := Memory.blank.fill Nibble.all
        alu := { flags := { zero := true }, result := 15 }
        step := 6
        signals := .ofList [.jump, .halt]
        ticks := 7 }
    restore? text = some m ∧ (∀ n ∈ m.nibbles, n.val ≤ 15) ∧ m.memory.toList.length = 16 ∧
      ∀ style, restore? (m.snapshot style) = restore? text := by
  intro text m
  have read : restore? text = some m := by
    rw [restore?, parse?, Text.toList_unlines]
    simp only [List.flatMap_cons, List.flatMap_nil, String.reduceToList]
    decide +kernel
  exact ⟨read, snapshot_round_trip.2.2 text m read⟩

end Machine

end NibbleComputer
