import Mathlib.Data.Nat.Find
import NibbleComputer.Proofs.Machine.Drivers
import NibbleComputer.Proofs.Machine.InstructionCycle

/-!
# Runs of the instruction set

A limited run of the machine seen through the instruction set, which carries out one instruction
after the other and knows nothing of ticks. Each instruction takes eight ticks and the one that
stops the clock takes four.

- `Visible.HaltsAt`: which instruction of a run is the first to stop the clock.
- `Machine.after_instructions`: the machine after whole instructions.
- `Machine.halted_after_iff`: after how many ticks the clock has stopped.
- `Machine.apply_run`: the answer of a limited run and what a program observes after it.
-/

namespace NibbleComputer

namespace Visible

/-- The instruction with the given index is the first of a run that stops the clock. -/
def HaltsAt (s : Visible) (index : Nat) : Prop :=
  (steps index s).opcode = .hlt ∧ ∀ earlier < index, (steps earlier s).opcode ≠ .hlt

instance (s : Visible) (index : Nat) : Decidable (s.HaltsAt index) :=
  inferInstanceAs (Decidable (_ ∧ _))

/-- If an instruction of a run stops the clock, there is a first one that does. -/
theorem exists_haltsAt {s : Visible} {index : Nat} (halts : (steps index s).opcode = .hlt) :
    ∃ first ≤ index, s.HaltsAt first := by
  have some : ∃ index, (steps index s).opcode = .hlt := ⟨index, halts⟩
  exact ⟨Nat.find some, Nat.find_le halts, Nat.find_spec some, fun _ lt => Nat.find_min some lt⟩

end Visible

namespace Machine

variable {m : Machine}

/-! ## Whole instructions -/

theorem opcode_visible (m : Machine) :
    m.visible.opcode = .ofNibble (m.memory.read m.registers.pc) := rfl

/-- Eight ticks carry out an instruction that does not stop the clock. -/
theorem after_instruction (running : m.halted = false) (first : m.step = 0)
    (goes : m.visible.opcode ≠ .hlt) :
    (after 8 m).halted = false ∧ (after 8 m).step = 0 ∧
      (after 8 m).visible = m.visible.step := by
  rw [opcode_visible] at goes
  have last := after_eight running first rfl goes
  refine ⟨?_, ?_, ?_⟩
  · simp [last, running, goes]
  · rw [last, step_effect goes]
  · rw [← instruction_of_first first]
    exact visible_instruction running first

/-- Eight ticks for each instruction carry out instructions that do not stop the clock. -/
theorem after_instructions (running : m.halted = false) (first : m.step = 0) (count : Nat)
    (go : ∀ index < count, (Visible.steps index m.visible).opcode ≠ .hlt) :
    (after (8 * count) m).halted = false ∧ (after (8 * count) m).step = 0 ∧
      (after (8 * count) m).visible = .steps count m.visible := by
  induction count generalizing m with
  | zero => exact ⟨running, first, rfl⟩
  | succ count ih =>
    obtain ⟨running', first', seen⟩ :=
      after_instruction running first (go 0 (Nat.succ_pos count))
    have rest := ih running' first' fun index lt => by
      rw [seen]
      exact go (index + 1) (by omega)
    rw [seen] at rest
    rw [Nat.mul_succ, Nat.add_comm, after_add]
    exact rest

/-- The clock stops with the fourth tick of the first instruction that stops it, and a program
observes that instruction. -/
theorem after_halt (running : m.halted = false) (first : m.step = 0) {index : Nat}
    (halts : m.visible.HaltsAt index) :
    (after (8 * index + 3) m).halted = false ∧ (after (8 * index + 4) m).halted = true ∧
      (after (8 * index + 4) m).visible = .steps (index + 1) m.visible := by
  obtain ⟨running', first', seen⟩ := after_instructions running first index halts.2
  have opcode := halts.1
  rw [← seen, opcode_visible] at opcode
  rw [after_add, after_add, after_fetch running' first',
    after_four running' first' opcode ((after (8 * index) m).memory.read
      ((after (8 * index) m).registers.pc + 1)), Visible.steps_add, ← seen]
  refine ⟨running', by simp, ?_⟩
  rw [visible_effect]
  show _ = (after (8 * index) m).visible.step
  have : (after (8 * index) m).visible.halted = false := running'
  rw [Visible.step, this, opcode_visible, opcode]
  rfl

/-- The number of ticks up to the halt is exact. -/
theorem halted_after_iff (running : m.halted = false) (first : m.step = 0) {index : Nat}
    (halts : m.visible.HaltsAt index) (n : Nat) :
    (after n m).halted = true ↔ 8 * index + 4 ≤ n := by
  obtain ⟨before, stopped, -⟩ := after_halt running first halts
  constructor
  · intro h
    rcases Nat.lt_or_ge n (8 * index + 4) with lt | ge
    · rw [running_of_after before (by omega)] at h
      cases h
    · exact ge
  · intro le
    obtain ⟨rest, rfl⟩ := Nat.exists_eq_add_of_le le
    rw [after_add, after_of_halted stopped]
    exact stopped

/-- A run in which no instruction stops the clock goes on for ever. -/
theorem running_after (running : m.halted = false) (first : m.step = 0)
    (never : ∀ index, ¬ m.visible.HaltsAt index) (n : Nat) : (after n m).halted = false := by
  have go : ∀ index < n, (Visible.steps index m.visible).opcode ≠ .hlt := fun index _ found => by
    obtain ⟨first, -, halts⟩ := Visible.exists_haltsAt found
    exact never first halts
  exact running_of_after (after_instructions running first n go).1 (by omega)

/-- A clock that has not stopped after the ticks of some instructions has carried them out. -/
theorem visible_after (running : m.halted = false) (first : m.step = 0) {count : Nat}
    (runs : (after (8 * count) m).halted = false) :
    (after (8 * count) m).visible = .steps count m.visible := by
  refine (after_instructions running first count fun index lt found => ?_).2.2
  obtain ⟨first', le, halts⟩ := Visible.exists_haltsAt found
  rw [(halted_after_iff running first halts _).mpr (by omega)] at runs
  cases runs

/-! ## The main result -/

/-- **A limited run in terms of the instruction set.** Take a machine at the first step of an
instruction and, beside it, the run of the instruction set from what a program observes. If its
instruction `index` is the first that stops the clock, a run of the machine up to `n` ticks answers
`8 * index + 4` ticks, or `n` if these are fewer; the clock has stopped just when the limit covers
them, and a program then observes what the instruction set says. If there is no such instruction,
the run answers `n` ticks and the clock goes on. A limit of `8 * count` ticks that does not reach
the halt leaves what a program observes after `count` instructions. -/
theorem apply_run (m : Machine) (running : m.halted = false) (first : m.step = 0) (n : Nat)
    (room : m.ticks.toNat + n < 2 ^ 64) :
    let final := ((Operation.run n).apply m).1
    let reply := ((Operation.run n).apply m).2
    (∀ index, m.visible.HaltsAt index →
        reply = .taken (.ofNat (min n (8 * index + 4))) ∧
          final.ticks.toNat = m.ticks.toNat + min n (8 * index + 4) ∧
          (final.halted = true ↔ 8 * index + 4 ≤ n) ∧
          (8 * index + 4 ≤ n → final.visible = .steps (index + 1) m.visible)) ∧
      ((∀ index, ¬ m.visible.HaltsAt index) →
        reply = .taken (.ofNat n) ∧ final.ticks.toNat = m.ticks.toNat + n ∧
          final.halted = false) ∧
      ∀ count, n = 8 * count → final.halted = false →
        final.visible = .steps count m.visible := by
  intro final reply
  have applied : (Operation.run n).apply m = (after n m, .taken (.ofNat (clocked n m))) :=
    apply_of_drives rfl m
  have last : final = after n m := congrArg Prod.fst applied
  have answer : reply = .taken (.ofNat (clocked n m)) := congrArg Prod.snd applied
  have most := clocked_le n m
  rw [last, answer, toNat_ticks_after (by omega)]
  refine ⟨fun index halts => ?_, fun never => ?_, fun count limit runs => ?_⟩
  · obtain ⟨before, stopped, seen⟩ := after_halt running first halts
    have made : clocked n m = min n (8 * index + 4) := clocked_of_halt before stopped n
    refine ⟨by rw [made], by rw [made], halted_after_iff running first halts n, fun le => ?_⟩
    rw [← seen, ← Nat.add_sub_cancel' le, after_add, after_of_halted stopped]
  · have runs := running_after running first never n
    rw [clocked_eq n runs]
    exact ⟨rfl, rfl, runs⟩
  · subst limit
    exact visible_after running first runs

/-- A program that writes the instruction that stops it: it loads 15, stores it behind itself and
runs into it. -/
theorem apply_run_self_made_halt :
    let m : Machine := { memory := Memory.blank.fill [5, 15, 4, 4], ticks := 7 }
    m.halted = false ∧ m.step = 0 ∧ m.ticks.toNat + 100 < 2 ^ 64 ∧ m.visible.HaltsAt 2 ∧
      ((Operation.run 100).apply m).2 = .taken 20 ∧
      ((Operation.run 100).apply m).1.visible = .steps 3 m.visible := by
  intro m
  have halts : m.visible.HaltsAt 2 := by decide +kernel
  obtain ⟨answer, -, -, seen⟩ := (apply_run m rfl rfl 100 (by decide)).1 2 halts
  exact ⟨rfl, rfl, by decide, halts, answer, seen (by decide)⟩

end Machine

end NibbleComputer
