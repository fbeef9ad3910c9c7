import NibbleComputer.Machine.Execution
import NibbleComputer.Proofs.Machine.Clock

/-!
# Runs in rounds

A run with reports goes from instruction to instruction and cuts the last one off where the limit
on the tick counter says so. As far as the machine is concerned, this is a plain run of as many
ticks as the limit leaves.

- `Machine.ticks_instruction`: a round with a whole instruction stays within the limit.
- `Machine.roundsTo_eq_after`: enough rounds come to the ticks that the limit leaves.
- `Machine.runTo_agrees`: the run ends, its arithmetic stays in range, and it agrees with the
  plain one.
-/

namespace NibbleComputer.Machine

variable {m : Machine} {limit : UInt64}

/-! ## The tests of a round -/

theorem below_iff :
    m.below limit = true ↔ m.halted = false ∧ m.ticks.toNat < limit.toNat := by
  simp [below, UInt64.lt_iff_toNat_lt]

theorem remaining_of_lt (within : m.step.toNat < 8) : m.remaining = 8 - m.step.toNat := by
  rw [remaining, Nat.mod_eq_of_lt within]

/-- The limit leaves room for an instruction if it leaves room for its remaining steps. -/
theorem fits_iff (within : m.step.toNat < 8) (room : m.ticks.toNat ≤ limit.toNat) :
    m.fits limit = true ↔ m.remaining ≤ limit.toNat - m.ticks.toNat := by
  have steps : (Microcode.stepCount - m.step).toNat = 8 - m.step.toNat :=
    UInt8.toNat_sub_of_le _ _ (Nat.le_of_lt within)
  have left : (limit - m.ticks).toNat = limit.toNat - m.ticks.toNat :=
    UInt64.toNat_sub_of_le _ _ room
  rw [fits, decide_eq_true_iff, UInt64.le_iff_toNat_le, UInt8.toNat_toUInt64, steps, left,
    remaining_of_lt within]

/-! ## What a round does -/

theorem step_instruction_lt (within : m.step.toNat < 8) : m.instruction.step.toNat < 8 := by
  rw [instruction_eq_after]
  exact step_after_lt within _

/-- An instruction for which the limit has left room takes the tick counter on, but not beyond the
limit. -/
theorem ticks_instruction (within : m.step.toNat < 8) (below : m.below limit = true)
    (fits : m.fits limit = true) :
    m.instruction.ticks.toNat = m.ticks.toNat + clocked m.remaining m ∧
      0 < clocked m.remaining m ∧
      m.ticks.toNat + clocked m.remaining m ≤ limit.toNat := by
  obtain ⟨running, lt⟩ := below_iff.mp below
  have room := (fits_iff within (Nat.le_of_lt lt)).mp fits
  have most := clocked_le m.remaining m
  have bound := limit.toNat_lt
  refine ⟨?_, clocked_pos running (remaining_pos m), by omega⟩
  rw [instruction_eq_after]
  exact toNat_ticks_after (by omega)

/-- Enough rounds make the ticks that the limit leaves. -/
theorem roundsTo_eq_after {rounds : Nat} (within : m.step.toNat < 8)
    (enough : limit.toNat - m.ticks.toNat ≤ rounds) :
    roundsTo limit rounds m = after (limit.toNat - m.ticks.toNat) m := by
  induction rounds generalizing m with
  | zero =>
    have : limit.toNat - m.ticks.toNat = 0 := by omega
    rw [this]
    rfl
  | succ rounds ih =>
    rw [roundsTo]
    cases below : m.below limit with
    | false =>
      -- the clock has stopped, or the limit leaves no ticks
      cases halted : m.halted with
      | true => rw [after_of_halted halted]; rfl
      | false =>
        have : ¬ m.ticks.toNat < limit.toNat := fun lt => by
          rw [below_iff.mpr ⟨halted, lt⟩] at below
          cases below
        rw [Nat.sub_eq_zero_of_le (by omega)]
        rfl
    | true =>
      have lt := (below_iff.mp below).2
      cases fits : m.fits limit with
      | false =>
        rw [← UInt64.toNat_sub_of_le _ _ (Nat.le_of_lt lt), ← run_eq_after]
        rfl
      | true =>
        obtain ⟨count, pos, most⟩ := ticks_instruction within below fits
        -- the ticks of this round, and those that are left after it
        have split : limit.toNat - m.ticks.toNat =
            clocked m.remaining m + (limit.toNat - m.instruction.ticks.toNat) := by omega
        rw [split, after_add, after_clocked, ← instruction_eq_after]
        exact ih (step_instruction_lt within) (by omega)

theorem runTo_eq_after (within : m.step.toNat < 8) :
    m.runTo limit = after (limit.toNat - m.ticks.toNat) m :=
  roundsTo_eq_after within (Nat.sub_le _ _)

/-- A round begins at one of the eight steps. -/
theorem step_roundsTo_lt (within : m.step.toNat < 8) (rounds : Nat) :
    (roundsTo limit rounds m).step.toNat < 8 := by
  induction rounds generalizing m with
  | zero => exact within
  | succ rounds ih =>
    rw [roundsTo]
    split
    · exact within
    · split
      · rw [run_eq_after]
        exact step_after_lt within _
      · exact ih (step_instruction_lt within)

/-- A round subtracts in range, and if it makes a whole instruction it takes the tick counter on. -/
theorem round_in_range (within : m.step.toNat < 8) (below : m.below limit = true) :
    (m.ticks ≤ limit ∧ m.step ≤ Microcode.stepCount) ∧
      (m.fits limit = true → m.ticks < m.instruction.ticks) := by
  refine ⟨⟨Nat.le_of_lt (below_iff.mp below).2, Nat.le_of_lt within⟩, fun fits => ?_⟩
  obtain ⟨count, pos, -⟩ := ticks_instruction within below fits
  rw [UInt64.lt_iff_toNat_lt]
  omega

/-! ## All rounds -/

theorem runTo_eq_run (within : m.step.toNat < 8) :
    m.runTo limit = if m.ticks < limit then m.run (limit - m.ticks).toNat else m := by
  rw [runTo_eq_after within]
  split
  case isTrue lt => rw [run_eq_after, UInt64.toNat_sub_of_le _ _ (UInt64.le_of_lt lt)]
  case isFalse beyond =>
    have beyond : limit.toNat ≤ m.ticks.toNat := Nat.le_of_not_lt beyond
    rw [Nat.sub_eq_zero_of_le beyond]
    rfl

/-- The tick counter after the ticks that the limit leaves. -/
theorem toNat_ticks_runTo (within : m.step.toNat < 8) : (m.runTo limit).ticks.toNat =
    m.ticks.toNat + clocked (limit.toNat - m.ticks.toNat) m := by
  rw [runTo_eq_after within]
  refine toNat_ticks_after ?_
  have most := clocked_le (limit.toNat - m.ticks.toNat) m
  have bound := limit.toNat_lt
  have bound' := m.ticks.toNat_lt
  omega

theorem ticks_runTo_le (within : m.step.toNat < 8) :
    (m.runTo limit).ticks.toNat ≤ max limit.toNat m.ticks.toNat := by
  have most := clocked_le (limit.toNat - m.ticks.toNat) m
  rw [toNat_ticks_runTo within]
  omega

/-- A run that has not stopped the clock has made all ticks that the limit leaves. -/
theorem ticks_runTo_of_running (within : m.step.toNat < 8)
    (running : (m.runTo limit).halted = false) :
    (m.runTo limit).ticks.toNat = max limit.toNat m.ticks.toNat := by
  have all : clocked (limit.toNat - m.ticks.toNat) m = limit.toNat - m.ticks.toNat := by
    apply clocked_eq
    rwa [← runTo_eq_after within]
  rw [toNat_ticks_runTo within, all]
  omega

theorem below_runTo (within : m.step.toNat < 8) : (m.runTo limit).below limit = false := by
  rw [← Bool.not_eq_true, below_iff]
  rintro ⟨running, lt⟩
  have := ticks_runTo_of_running within running
  omega

/-! ## The main result -/

/-- **A run in rounds is a plain run.** From a machine at one of the eight steps, the rounds come
to an end of their own, with the limit reached or the clock stopped: more rounds change nothing.
After any number of rounds, the next one subtracts in range, and if it makes a whole instruction it
takes the tick counter on. The machine is then where the plain run over the ticks that the limit
leaves ends, and unchanged if it leaves none. The tick counter does not exceed the limit unless it
did so before, and it shows the limit if the clock has not stopped. -/
theorem runTo_agrees (limit : UInt64) (m : Machine) (within : m.step < 8) :
    let final := m.runTo limit
    ((∀ rounds, limit.toNat ≤ rounds → roundsTo limit rounds m = final) ∧
        final.below limit = false) ∧
      (∀ rounds, let next := roundsTo limit rounds m
        next.below limit = true →
          (next.ticks ≤ limit ∧ next.step ≤ Microcode.stepCount) ∧
            (next.fits limit = true → next.ticks < next.instruction.ticks)) ∧
      final = (if m.ticks < limit then m.run (limit - m.ticks).toNat else m) ∧
      final.ticks.toNat ≤ max limit.toNat m.ticks.toNat ∧
      (final.halted = false → m.ticks < limit → final.ticks = limit) := by
  intro final
  have within : m.step.toNat < 8 := within
  refine ⟨⟨fun rounds enough => ?_, below_runTo within⟩,
    fun rounds => round_in_range (step_roundsTo_lt within rounds), runTo_eq_run within,
    ticks_runTo_le within, fun running lt => ?_⟩
  · rw [roundsTo_eq_after within (by omega), ← runTo_eq_after within]
  · have count : final.ticks.toNat = _ := ticks_runTo_of_running within running
    have lt : m.ticks.toNat < limit.toNat := lt
    exact UInt64.toNat_inj.mp (by omega)

/-- A run of an endless loop that begins in the middle of an instruction and is cut off in the
middle of another. -/
theorem runTo_agrees_cut_off :
    let m : Machine :=
      { memory := Memory.blank.fill [6], registers := { ir := 5 }, step := 3, ticks := 5 }
    m.step < 8 ∧ m.runTo 20 = m.run 15 ∧ (m.runTo 20).ticks = 20 := by
  intro m
  have within : m.step < 8 := by decide
  obtain ⟨-, -, agrees, -, reached⟩ := runTo_agrees 20 m within
  have below : m.ticks < 20 := by decide
  have left : (20 - m.ticks).toNat = 15 := by decide
  rw [if_pos below, left] at agrees
  exact ⟨within, agrees, reached (by decide +kernel) below⟩

end NibbleComputer.Machine
