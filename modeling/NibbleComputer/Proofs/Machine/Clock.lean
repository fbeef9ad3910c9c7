import Mathlib.Algebra.Group.Nat.Defs
import NibbleComputer.Proofs.Machine.Ticks

/-!
# Counting ticks

A halted machine lets ticks pass, so of a number of ticks only those up to the halt count. The
other ways to run a machine come to plain ticks, and this module says to how many.

- `Machine.clocked`: how many of a number of ticks the clock makes before it stops.
- `Machine.after_clocked`: the other ticks leave no trace.
- `Machine.ticks_after`, `Machine.toNat_ticks_after`: the tick counter counts those that are made.
- `Machine.clocked_of_halt`: the count of ticks up to a known halt.
- `Machine.step_after_mul`: the first step of an instruction comes every eight ticks.
- `Machine.instruction_eq_after`: the end of the current instruction in plain ticks, from any step.
-/

namespace NibbleComputer.Machine

variable {m : Machine}

/-! ## One tick -/

/-- The tick counter counts while the clock runs. -/
theorem ticks_tick (running : m.halted = false) : m.tick.ticks = m.ticks + 1 := by
  rw [tick_eq running]
  show (m.carryOut m.lines).ticks + 1 = _
  rw [(carryOut_clock m.lines).2]

/-- A tick that is made ends at one of the eight steps. -/
theorem step_tick_lt (running : m.halted = false) : m.tick.step.toNat < 8 := by
  rw [step_tick running]
  omega

/-- Ticks go on within the eight steps. -/
theorem step_after_lt (within : m.step.toNat < 8) (n : Nat) : (after n m).step.toNat < 8 := by
  induction n generalizing m with
  | zero => exact within
  | succ n ih =>
    refine ih ?_
    cases running : m.halted with
    | true => rwa [tick_of_halted running]
    | false => exact step_tick_lt running

/-! ## The ticks that are made -/

/-- How many of the next ticks the clock makes before it stops. -/
def clocked : Nat → Machine → Nat
  | 0, _ => 0
  | n + 1, m => if m.halted then 0 else clocked n m.tick + 1

@[simp] theorem clocked_zero (m : Machine) : clocked 0 m = 0 := rfl

@[simp] theorem clocked_of_halted (stopped : m.halted = true) (n : Nat) : clocked n m = 0 := by
  cases n with
  | zero => rfl
  | succ n => simp [clocked, stopped]

theorem clocked_succ (running : m.halted = false) (n : Nat) :
    clocked (n + 1) m = clocked n m.tick + 1 := by
  simp [clocked, running]

theorem clocked_le (n : Nat) (m : Machine) : clocked n m ≤ n := by
  induction n generalizing m with
  | zero => exact Nat.le_refl 0
  | succ n ih =>
    cases h : m.halted with
    | true => simp [h]
    | false =>
      rw [clocked_succ h]
      exact Nat.succ_le_succ (ih m.tick)

theorem clocked_pos (running : m.halted = false) {n : Nat} (pos : 0 < n) : 0 < clocked n m := by
  obtain ⟨rest, rfl⟩ := Nat.exists_eq_add_of_lt pos
  rw [clocked_succ running]
  exact Nat.succ_pos _

/-- The ticks that are not made leave no trace. -/
theorem after_clocked (n : Nat) (m : Machine) : after (clocked n m) m = after n m := by
  induction n generalizing m with
  | zero => rfl
  | succ n ih =>
    cases h : m.halted with
    | true => rw [after_of_halted h, after_of_halted h]
    | false => rw [clocked_succ h, after_succ, after_succ, ih]

theorem clocked_add (n k : Nat) (m : Machine) :
    clocked (n + k) m = clocked n m + clocked k (after n m) := by
  induction n generalizing m with
  | zero => simp
  | succ n ih =>
    cases h : m.halted with
    | true => simp [h]
    | false =>
      rw [Nat.add_right_comm, clocked_succ h, clocked_succ h, ih, after_succ]
      omega

theorem clocked_mono {n k : Nat} (le : n ≤ k) : clocked n m ≤ clocked k m := by
  obtain ⟨rest, rfl⟩ := Nat.exists_eq_add_of_le le
  rw [clocked_add]
  exact Nat.le_add_right _ _

/-- The clock runs before each tick that is made. -/
theorem running_of_lt_clocked {n k : Nat} (lt : k < clocked n m) : (after k m).halted = false := by
  rw [← Bool.not_eq_true]
  intro stopped
  have most := clocked_le n m
  obtain ⟨rest, rfl⟩ := Nat.exists_eq_add_of_le (Nat.le_trans (Nat.le_of_lt lt) most)
  have early := clocked_le k m
  rw [clocked_add, clocked_of_halted stopped] at lt
  omega

/-- A clock that runs before the last of some ticks makes them all. -/
theorem clocked_of_running {n : Nat} (running : (after n m).halted = false) :
    clocked (n + 1) m = n + 1 := by
  have first : m.halted = false := running_of_after running (Nat.zero_le n)
  induction n generalizing m with
  | zero => rw [clocked_succ first, clocked_zero]
  | succ n ih =>
    rw [clocked_succ first, ih running (running_of_after running (Nat.succ_pos n))]

/-- A clock that runs after some ticks has made them all. -/
theorem clocked_eq (n : Nat) (running : (after n m).halted = false) : clocked n m = n := by
  have all := clocked_of_running running
  rw [clocked_add n 1, clocked_succ running, clocked_zero] at all
  omega

/-- A clock that one tick after the first `n` stops makes no more than these. -/
theorem clocked_of_halt {n : Nat} (running : (after n m).halted = false)
    (stopped : (after (n + 1) m).halted = true) (k : Nat) : clocked k m = min k (n + 1) := by
  rcases Nat.lt_or_ge n k with lt | ge
  · obtain ⟨rest, rfl⟩ := Nat.exists_eq_add_of_lt lt
    rw [Nat.add_right_comm, clocked_add, clocked_of_running running, clocked_of_halted stopped]
    omega
  · rw [clocked_eq k (running_of_after running ge)]
    omega

/-! ## The tick counter -/

/-- The tick counter counts the ticks that are made. -/
theorem ticks_after (n : Nat) (m : Machine) :
    (after n m).ticks = m.ticks + .ofNat (clocked n m) := by
  induction n generalizing m with
  | zero => simp
  | succ n ih =>
    cases h : m.halted with
    | true => simp [h]
    | false =>
      rw [after_succ, ih, ticks_tick h, clocked_succ h, UInt64.add_assoc, Nat.add_comm,
        UInt64.ofNat_add]
      rfl

/-- The tick counter shows the ticks that are made while it has room for them. -/
theorem toNat_ticks_after {n : Nat} (room : m.ticks.toNat + clocked n m < 2 ^ 64) :
    (after n m).ticks.toNat = m.ticks.toNat + clocked n m := by
  rw [ticks_after, UInt64.toNat_add, UInt64.toNat_ofNat']
  omega

/-- The difference of the tick counter before and after, whatever it shows, is the number of ticks
that are made. -/
theorem ticks_after_sub (n : Nat) (m : Machine) :
    (after n m).ticks - m.ticks = .ofNat (clocked n m) := by
  rw [ticks_after, UInt64.add_comm, UInt64.add_sub_cancel]

/-! ## The step counter -/

/-- The step counter counts the ticks that are made modulo eight, the one that stops the clock
among them. -/
theorem step_after_succ {n : Nat} (running : (after n m).halted = false) :
    (after (n + 1) m).step.toNat = (m.step.toNat + (n + 1)) % 8 := by
  induction n generalizing m with
  | zero => exact step_tick running
  | succ n ih =>
    have first : m.halted = false := running_of_after running (Nat.zero_le (n + 1))
    rw [after_succ, ih running, step_tick first]
    omega

/-- A running machine is at the first step of an instruction after every eight ticks. -/
theorem step_after_mul (first : m.step = 0) {index : Nat}
    (running : (after (8 * index) m).halted = false) : (after (8 * index) m).step = 0 := by
  cases index with
  | zero => exact first
  | succ index =>
    have before : (after (8 * index + 7) m).halted = false :=
      running_of_after running (Nat.le_succ _)
    apply UInt8.toNat_inj.mp
    rw [Nat.mul_succ, step_after_succ before, first]
    show (0 + 8 * (index + 1)) % 8 = 0
    omega

/-! ## The end of an instruction -/

/-- The number of steps left of the current instruction. -/
def remaining (m : Machine) : Nat :=
  8 - m.step.toNat % 8

theorem remaining_le (m : Machine) : m.remaining ≤ 8 :=
  Nat.sub_le 8 _

/-- A tick leaves one step less, and none if it is the last. -/
theorem remaining_tick (running : m.halted = false) :
    m.remaining = if m.tick.step = 0 then 1 else m.tick.remaining + 1 := by
  have next := step_tick running
  unfold remaining
  split
  case isTrue last =>
    rw [last] at next
    change 0 = (m.step.toNat + 1) % 8 at next
    omega
  case isFalse more =>
    have : m.tick.step.toNat ≠ 0 := fun zero => more (UInt8.toNat_inj.mp zero)
    omega

theorem remaining_pos (m : Machine) : 0 < m.remaining := by
  unfold remaining
  omega

/-- A run to the end of the current instruction makes the remaining ticks if its limit covers
them. -/
theorem finish_eq_after_remaining {limit : Nat} (m : Machine) (enough : m.remaining ≤ limit) :
    finish limit m = after m.remaining m := by
  induction limit generalizing m with
  | zero => exact absurd (remaining_pos m) (by omega)
  | succ limit ih =>
    rw [finish]
    cases running : m.halted with
    | true => rw [tick_of_halted running, after_of_halted running]; simp [running]
    | false =>
      have count := remaining_tick running
      by_cases last : m.tick.step = 0
      · rw [if_pos last] at count
        simp [count, last, after_succ]
      · rw [if_neg last] at count
        rw [count, after_succ]
        cases stopped : m.tick.halted with
        | true => simp [stopped]
        | false => simpa [last] using ih m.tick (by omega)

/-- The end of the current instruction is as many ticks away as there are steps left, from any
step; a halt on the way makes the further ticks void. -/
theorem instruction_eq_after (m : Machine) : m.instruction = after m.remaining m :=
  finish_eq_after_remaining m (remaining_le m)

theorem instruction_of_first (first : m.step = 0) : m.instruction = after 8 m := by
  rw [instruction_eq_after, remaining, first]
  rfl

end NibbleComputer.Machine
