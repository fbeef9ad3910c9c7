import NibbleComputer.Proofs.Machine.Drivers
import NibbleComputer.Proofs.Machine.Frame

/-!
# The loop of an instruction ends

The operation that carries out an instruction ticks until the machine halts or is back at the
first step. That loop has no counter: its end depends on the step it starts from, which may lie
beyond the eighth, and on the opcode that it fetches on its way.

- `Machine.Finishes`: the loop, without a bound on its rounds.
- `Machine.finishes_after`: the loop ends, by induction on the steps that are left.
- `Machine.instruction_terminates`: the only end of the loop, its rounds and the reply.
-/

namespace NibbleComputer.Machine

variable {m final : Machine}

/-- Where the loop of an instruction ends. -/
def Ended (m : Machine) : Prop :=
  m.halted = true ∨ m.step = 0

/-- The loop of an instruction, with the number of its rounds and the machine at its end: a tick,
and all of it again unless this has been the last. -/
inductive Finishes : Machine → Nat → Machine → Prop
  | last {m : Machine} (ended : m.tick.Ended) : Finishes m 1 m.tick
  | again {m final : Machine} {rounds : Nat} (goes : ¬ m.tick.Ended)
      (rest : Finishes m.tick rounds final) : Finishes m (rounds + 1) final

/-- The loop ends in one way only. -/
theorem Finishes.unique {other : Machine} {rounds others : Nat} (ends : m.Finishes rounds final)
    (ends' : m.Finishes others other) : others = rounds ∧ other = final := by
  induction ends generalizing others with
  | last ended =>
    cases ends' with
    | last => exact ⟨rfl, rfl⟩
    | again goes => exact absurd ended goes
  | again goes _ ih =>
    cases ends' with
    | last ended => exact absurd ended goes
    | again _ rest' =>
      obtain ⟨same, rfl⟩ := ih rest'
      exact ⟨congrArg (· + 1) same, rfl⟩

/-- The loop ends from every state of a running machine, after the ticks that the clock still makes
for the current instruction. -/
theorem finishes_after (running : m.halted = false) :
    m.Finishes (clocked m.remaining m) (after m.remaining m) := by
  -- the measure is the number of steps left, from any start less by one after each tick
  induction left : m.remaining generalizing m with
  | zero => exact absurd (remaining_pos m) (by omega)
  | succ n ih =>
    have fewer := remaining_tick running
    rw [clocked_succ running, after_succ]
    cases stopped : m.tick.halted with
    | true =>
      rw [clocked_of_halted stopped, after_of_halted stopped]
      exact .last (.inl stopped)
    | false =>
      by_cases first : m.tick.step = 0
      · rw [if_pos first] at fewer
        obtain rfl : n = 0 := by omega
        exact .last (.inr first)
      · rw [if_neg first] at fewer
        refine .again ?_ (ih stopped (by omega))
        rintro (halted | zero)
        · exact Bool.false_ne_true (stopped.symm.trans halted)
        · exact first zero

/-- The loop of a halted machine makes one round, in which nothing happens. -/
theorem finishes_of_halted (stopped : m.halted = true) : m.Finishes 1 m := by
  have still : m.tick = m := tick_of_halted stopped
  have ends : m.Finishes 1 m.tick := .last (.inl (by rw [still, stopped]))
  rwa [still] at ends

/-- How an instruction of a running machine ends: at the first step of the next one, or by the halt
at the fourth step. -/
theorem instruction_ends (running : m.halted = false) :
    m.instruction.halted = false ∧ m.instruction.step = 0 ∧
        clocked m.remaining m = 8 - m.step.toNat % 8 ∨
      m.instruction.halted = true ∧ m.instruction.step = 4 ∧ m.instruction.registers.ir = 15 ∧
        m.step.toNat % 8 ≤ 3 ∧ clocked m.remaining m = 4 - m.step.toNat % 8 := by
  have most : clocked m.remaining m ≤ 8 - m.step.toNat % 8 := clocked_le m.remaining m
  -- the machine before the last tick that is made
  obtain ⟨n, made⟩ := Nat.exists_eq_succ_of_ne_zero
    (Nat.ne_of_gt (clocked_pos running (remaining_pos m)))
  have before : (after n m).halted = false := by
    apply running_of_lt_clocked (n := m.remaining)
    rw [made]
    exact Nat.lt_succ_self n
  have last : m.instruction = (after n m).tick := by
    rw [instruction_eq_after, ← after_clocked, made, Nat.succ_eq_add_one, after_add]
    rfl
  have step : m.instruction.step.toNat = (m.step.toNat + (n + 1)) % 8 := by
    rw [last, ← step_after_succ before, after_add]
    rfl
  cases stopped : m.instruction.halted with
  | false =>
    have all : clocked m.remaining m = 8 - m.step.toNat % 8 := by
      rw [instruction_eq_after] at stopped
      exact clocked_eq m.remaining stopped
    refine .inl ⟨rfl, UInt8.toNat_inj.mp ?_, all⟩
    rw [step]
    show (m.step.toNat + (n + 1)) % 8 = 0
    omega
  | true =>
    obtain ⟨fourth, code⟩ := (halted_tick before).mp (last ▸ stopped)
    have next : m.instruction.step.toNat = 4 := by rw [last, step_tick before, fourth]
    refine .inr ⟨rfl, UInt8.toNat_inj.mp next, ?_, by omega, by omega⟩
    rw [last, ir_tick before, if_neg (by omega), code]

/-- **The loop of an instruction ends from every state**, also from a step that no instruction has
and whatever is in memory. It has one end only, which is the machine that the operation gives. A
halted machine answers zero and stays as it is. A running one makes a tick in each round, at least
one and at most eight; it ends at the first step of the next instruction, or at the step after the
fourth if that one has stopped the clock, and the reply is the number of steps in between. -/
theorem instruction_terminates (m : Machine) (room : m.ticks.toNat + 8 < 2 ^ 64) :
    let final := m.instruction
    let start := m.step.toNat % 8
    ∃ rounds, 1 ≤ rounds ∧ rounds ≤ 8 ∧
      (∀ n other, m.Finishes n other ↔ n = rounds ∧ other = final) ∧
      if m.halted then rounds = 1 ∧ Operation.instruction.apply m = (m, .taken 0)
      else
        Operation.instruction.apply m = (final, .taken (.ofNat rounds)) ∧
          final.ticks.toNat = m.ticks.toNat + rounds ∧
          (final.halted = false ∧ final.step = 0 ∧ rounds = 8 - start ∨
            final.halted = true ∧ final.step = 4 ∧ final.registers.ir = 15 ∧
              start ≤ 3 ∧ rounds = 4 - start) := by
  intro final start
  have only {rounds} (finishes : m.Finishes rounds final) (n : Nat) (other : Machine) :
      m.Finishes n other ↔ n = rounds ∧ other = final :=
    ⟨finishes.unique, fun ⟨count, same⟩ => count ▸ same ▸ finishes⟩
  have reached : final = after m.remaining m := instruction_eq_after m
  cases running : m.halted with
  | true =>
    rw [after_of_halted running] at reached
    refine ⟨1, Nat.le_refl 1, by decide, only ?_, rfl, apply_of_halted rfl running⟩
    rw [reached]
    exact finishes_of_halted running
  | false =>
    have most := Nat.le_trans (clocked_le m.remaining m) (remaining_le m)
    refine ⟨clocked m.remaining m, clocked_pos running (remaining_pos m), most,
      only (reached ▸ finishes_after running), ?_, ?_, instruction_ends running⟩
    · rw [reached]
      exact apply_of_drives rfl m
    · rw [reached]
      exact toNat_ticks_after (by omega)

/-- From a step beyond the eighth the loop goes on at the step that follows modulo eight: three
ticks up to a halt whose opcode is fetched on the way, and three through the end of an addition. -/
theorem instruction_terminates_late :
    let m : Machine := { memory := Memory.blank.write 0 15, step := 9, ticks := 7 }
    let adding : Machine := { registers := { ir := 2 }, step := 253 }
    (m.ticks.toNat + 8 < 2 ^ 64 ∧ adding.ticks.toNat + 8 < 2 ^ 64) ∧
      m.Finishes 3 m.instruction ∧ m.instruction.registers.ir = 15 ∧
      adding.Finishes 3 adding.instruction ∧ adding.instruction.step = 0 := by
  intro m adding
  obtain ⟨rounds, -, -, only, ends⟩ := instruction_terminates m (by decide)
  obtain ⟨rounds', -, -, only', ends'⟩ := instruction_terminates adding (by decide)
  rw [if_neg (by decide)] at ends ends'
  have stopped : m.instruction.halted = true := by decide +kernel
  have goes : adding.instruction.halted = false := by decide +kernel
  obtain ⟨-, -, ⟨running, -⟩ | ⟨-, -, code, -, rfl⟩⟩ := ends
  · exact absurd (stopped.symm.trans running) (by decide)
  obtain ⟨-, -, ⟨-, first, rfl⟩ | ⟨halted, -⟩⟩ := ends'
  · exact ⟨⟨by decide, by decide⟩, (only 3 _).mpr ⟨by decide, rfl⟩, code,
      (only' 3 _).mpr ⟨by decide, rfl⟩, first⟩
  · exact absurd (goes.symm.trans halted) (by decide)

end NibbleComputer.Machine
