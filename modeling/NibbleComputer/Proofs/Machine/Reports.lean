import Mathlib.Data.List.Forall2
import NibbleComputer.Proofs.Machine.Rounds
import NibbleComputer.Proofs.Machine.Runs

/-!
# Reports of a run

A run in rounds reports the instructions that it has carried out, one report for each and in the
order of their indices. A round is made only if the limit leaves room for all eight steps, although
the opcode that stops the clock needs four of them; if that opcode comes with less room, it is
carried out but not reported.

- `Machine.Completes`: an instruction of a run has ended within a number of ticks.
- `Machine.Describes`: a report tells what there is to tell of an instruction.
- `Machine.roundReportsTo_eq`: the reports of enough rounds.
- `Machine.reportsTo_completed`: the reports of a run from the start.
- `Machine.reportsTo_omits_halt`: a halt that is not reported.
-/

namespace NibbleComputer.Machine

variable {m : Machine} {limit : UInt64}

/-! ## Reports of rounds -/

/-- A round with a whole instruction is made if the limit leaves eight ticks. -/
theorem round_iff (first : m.halted = false → m.step = 0) :
    (m.below limit && m.fits limit) = true ↔
      m.halted = false ∧ m.ticks.toNat + 8 ≤ limit.toNat := by
  rw [Bool.and_eq_true, below_iff]
  constructor
  · rintro ⟨⟨running, lt⟩, fits⟩
    have within : m.step.toNat < 8 := by rw [first running]; decide
    rw [fits_iff within (Nat.le_of_lt lt), remaining_of_lt within, first running] at fits
    change 8 ≤ _ at fits
    exact ⟨running, by omega⟩
  · rintro ⟨running, room⟩
    have within : m.step.toNat < 8 := by rw [first running]; decide
    have most := m.remaining_le
    exact ⟨⟨running, by omega⟩, (fits_iff within (by omega)).mpr (by omega)⟩

/-- Enough rounds report the instructions for which the limit leaves eight ticks, in order. -/
theorem roundReportsTo_eq {rounds : Nat} (first : m.halted = false → m.step = 0)
    (enough : limit.toNat - m.ticks.toNat ≤ rounds) :
    ∃ count,
      roundReportsTo limit rounds m =
        (List.range count).map (fun index => (after (8 * index) m).report) ∧
      ∀ index, index < count ↔ (after (8 * index) m).halted = false ∧
        m.ticks.toNat + (8 * index + 8) ≤ limit.toNat := by
  induction rounds generalizing m with
  | zero => exact ⟨0, rfl, fun index => by omega⟩
  | succ rounds ih =>
    by_cases round : (m.below limit && m.fits limit) = true
    · obtain ⟨running, room⟩ := (round_iff first).mp round
      obtain ⟨below, fits⟩ := Bool.and_eq_true_iff.mp round
      have within : m.step.toNat < 8 := by rw [first running]; decide
      have next : m.instruction = after 8 m := instruction_of_first (first running)
      obtain ⟨ticks, pos, -⟩ := ticks_instruction within below fits
      have first' : m.instruction.halted = false → m.instruction.step = 0 := by
        rw [next]
        show (after (8 * 1) m).halted = false → (after (8 * 1) m).step = 0
        exact step_after_mul (first running)
      obtain ⟨count, reports, indices⟩ := ih first' (by omega)
      have later (index : Nat) : after (8 * (index + 1)) m = after (8 * index) m.instruction := by
        rw [next, Nat.mul_succ, Nat.add_comm, after_add]
      refine ⟨count + 1, ?_, fun index => ?_⟩
      · rw [roundReportsTo, below, fits, reports, List.range_succ_eq_map, List.map_cons,
          List.map_map]
        simp only [Function.comp_def, Nat.succ_eq_add_one, later]
        rfl
      · cases index with
        | zero => simp [running, room]
        | succ index =>
          rw [Nat.add_lt_add_iff_right, indices, later]
          refine and_congr_right fun goes => ?_
          -- an instruction after which the clock runs has taken eight ticks
          have goes : (after m.remaining m).halted = false := by
            rw [← instruction_eq_after]
            exact running_of_after goes (Nat.zero_le _)
          rw [ticks, clocked_eq _ goes, remaining_of_lt within, first running]
          change m.ticks.toNat + 8 + _ ≤ _ ↔ _
          omega
    · refine ⟨0, ?_, fun index => ?_⟩
      · rw [roundReportsTo, if_pos (by simpa [Bool.or_eq_true, imp_iff_not_or] using round)]
        rfl
      · rw [round_iff first] at round
        refine ⟨fun lt => absurd lt (Nat.not_lt_zero _), fun ⟨goes, le⟩ => absurd ?_ round⟩
        exact ⟨running_of_after goes (Nat.zero_le _), by omega⟩

/-! ## Completed instructions -/

/-- The instruction with the given index, counted from zero, has ended with the first `n` ticks: its
eighth tick has been made, or its fourth has been made and has stopped the clock. -/
def Completes (m : Machine) (n index : Nat) : Prop :=
  8 * index + 8 ≤ clocked n m ∨
    8 * index + 4 ≤ clocked n m ∧ (after (8 * index + 4) m).halted = true

instance (m : Machine) (n index : Nat) : Decidable (m.Completes n index) :=
  inferInstanceAs (Decidable (_ ∨ _))

section Instruction

variable {index : Nat} (first : m.step = 0) (running : (after (8 * index) m).halted = false)

include first running

/-- The opcode that stops the clock stops it in its fourth tick. -/
theorem halted_of_opcode (opcode : (after (8 * index) m).visible.opcode = .hlt) :
    (after (8 * index + 3) m).halted = false ∧ (after (8 * index + 4) m).halted = true := by
  have begins := step_after_mul first running
  rw [after_add, after_add, after_fetch running begins, after_four running begins opcode 0]
  exact ⟨running, by simp⟩

/-- After any other instruction the clock runs. -/
theorem running_of_opcode (opcode : (after (8 * index) m).visible.opcode ≠ .hlt) :
    (after (8 * index + 8) m).halted = false := by
  rw [after_add]
  exact (after_instruction running (step_after_mul first running) opcode).1

end Instruction

/-- An instruction with eight ticks to go is completed, and only the opcode that stops the clock is
completed with less. -/
theorem eight_ticks_iff (first : m.step = 0) (n index : Nat) :
    (after (8 * index) m).halted = false ∧ 8 * index + 8 ≤ n ↔
      m.Completes n index ∧
        ((after (8 * index) m).visible.opcode = .hlt → 8 * index + 8 ≤ n) := by
  have most := clocked_le n m
  constructor
  · rintro ⟨running, room⟩
    refine ⟨?_, fun _ => room⟩
    by_cases opcode : (after (8 * index) m).visible.opcode = .hlt
    · obtain ⟨goes, stopped⟩ := halted_of_opcode first running opcode
      refine .inr ⟨?_, stopped⟩
      rw [clocked_of_halt goes stopped]
      omega
    · have all := clocked_eq _ (running_of_opcode first running opcode)
      have := clocked_mono (m := m) room
      exact .inl (by omega)
  · rintro ⟨completes, room⟩
    have running : (after (8 * index) m).halted = false := by
      rcases completes with eighth | ⟨fourth, -⟩
      · exact running_of_lt_clocked (n := n) (by omega)
      · exact running_of_lt_clocked (n := n) (by omega)
    refine ⟨running, ?_⟩
    rcases completes with eighth | ⟨-, stopped⟩
    · omega
    · refine room ?_
      by_contra opcode
      have goes := running_of_opcode first running opcode
      rw [running_of_after goes (by omega)] at stopped
      cases stopped

/-! ## What a report tells -/

/-- A report describes the instruction that a machine is about to carry out. -/
structure Describes (report : Report) (before : Machine) : Prop where
  /-- The address is where the counter stands. -/
  address : report.address = before.registers.pc
  /-- The opcode is fetched from there. -/
  fetched : (after 3 before).registers.mar = report.address
  /-- The opcode is the one that has been fetched. -/
  opcode : report.opcode = .ofNibble (after 3 before).registers.ir
  /-- The text is what memory shows before the instruction. -/
  text : report.text =
    (Instruction.describeAt before.memory.toList before.registers.pc.val).1
  /-- The instruction has had the effect of the opcode. -/
  executed : report.after =
    before.effect report.opcode (before.memory.read (before.registers.pc + 1))

/-- The report of the next instruction describes it. -/
theorem describes_report (running : m.halted = false) (first : m.step = 0) :
    Describes m.report m := by
  refine ⟨rfl, ?_, ?_, rfl, instruction_eq_effect running first⟩
  · rw [after_fetch running first]
    rfl
  · rw [after_fetch running first]
    rfl

/-! ## The main result -/

/-- **Completed instructions are reported.** Let a run in rounds start with the clock at zero,
whatever memory and the other parts hold. Its reports describe the instructions of the run one by
one, from the first on, each in the state in which it begins. The instructions that are reported
are those that are completed within the limit, with the exception of the opcode that stops the
clock where the limit leaves fewer than eight ticks for it. -/
theorem reportsTo_completed (m : Machine) (limit : UInt64) (first : m.step = 0)
    (fresh : m.ticks = 0) :
    ∃ count,
      List.Forall₂ (fun report index => Describes report (after (8 * index) m))
        (m.reportsTo limit) (List.range count) ∧
      ∀ index, index < count ↔ m.Completes limit.toNat index ∧
        ((after (8 * index) m).visible.opcode = .hlt → 8 * index + 8 ≤ limit.toNat) := by
  have enough : limit.toNat - m.ticks.toNat ≤ limit.toNat := Nat.sub_le _ _
  obtain ⟨count, reports, indices⟩ := roundReportsTo_eq (fun _ => first) enough
  have zero : m.ticks.toNat = 0 := by rw [fresh]; rfl
  rw [zero] at indices
  refine ⟨count, ?_, fun index => ?_⟩
  · rw [reportsTo, reports, List.forall₂_map_left_iff, List.forall₂_same]
    intro index member
    have goes := ((indices index).mp (List.mem_range.mp member)).1
    exact describes_report goes (step_after_mul first goes)
  · rw [indices, Nat.zero_add, eight_ticks_iff first]

/-- A program that stores the opcode that stops it behind itself, with room for three reports. -/
theorem reportsTo_completed_self_made_halt :
    let m : Machine := { memory := Memory.blank.fill [5, 15, 4, 4] }
    m.step = 0 ∧ m.ticks = 0 ∧
      List.Forall₂ (fun report index => Describes report (after (8 * index) m))
        (m.reportsTo 24) (List.range 3) := by
  intro m
  obtain ⟨count, reports, indices⟩ := reportsTo_completed m 24 rfl rfl
  have third : 2 < count := (indices 2).mpr (by decide +kernel)
  have none : ¬ 3 < count := fun fourth => absurd ((indices 3).mp fourth) (by decide +kernel)
  obtain rfl : count = 3 := by omega
  exact ⟨rfl, rfl, reports⟩

/-- A program of the opcode that stops the clock alone. Within four ticks it is completed, but there
is no report of it. -/
theorem reportsTo_omits_halt :
    let m : Machine := { memory := Memory.blank.fill [15] }
    m.step = 0 ∧ m.ticks = 0 ∧ m.Completes 4 0 ∧ m.reportsTo 4 = [] ∧
      ¬ ∀ index, index < (m.reportsTo 4).length ↔ m.Completes 4 index := by
  intro m
  have completes : m.Completes 4 0 := by decide +kernel
  have none : m.reportsTo 4 = [] := List.isEmpty_iff.mp (by decide +kernel)
  refine ⟨rfl, rfl, completes, none, fun all => ?_⟩
  have reported := (all 0).mpr completes
  rw [none] at reported
  exact absurd reported (Nat.not_lt_zero 0)

end NibbleComputer.Machine
