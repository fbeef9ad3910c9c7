import NibbleComputer.Machine.Operation
import NibbleComputer.Proofs.Machine.Clock

/-!
# The ways to drive a machine

A machine is driven tick by tick, to the end of its instruction, or up to a limit. All of these
come to plain ticks, so that it does not matter how a run is made up.

- `Machine.Operation.drives`: the operations that drive the clock.
- `Machine.ticksIn`, `Machine.told`: the ticks that a log reports, and those that a caller can
  tell from the replies.
- `Machine.apply_of_drives`, `Machine.ticksIn_afterEvents`: what one of the operations does,
  replies and reports.
- `Machine.perform_append`, `Machine.log_append`: a history in two parts.
- `Machine.perform_driven`: a history of such operations in terms of plain ticks.
-/

namespace NibbleComputer.Machine

variable {m : Machine}

/-! ## Driving and counting -/

/-- Whether an operation drives the clock. -/
def Operation.drives : Operation → Bool
  | tick | instruction | run _ => true
  | reset | load _ | write _ _ | clear => false

/-- The reply of an operation that drives the clock by a number of ticks. A plain tick answers
nothing. -/
def Operation.reply (operation : Operation) (ticks : Nat) : Reply :=
  if operation = .tick then .done else .taken (.ofNat ticks)

/-- Whether an event reports a tick. -/
def Event.isTick : Event → Bool
  | tick .. => true
  | halted .. | reset | loaded _ => false

/-- The number of ticks that a log reports. -/
def ticksIn (events : List Event) : Nat :=
  events.countP Event.isTick

/-- The number of ticks that the caller of an operation can tell: that of the reply, and one for a
plain tick of a clock that runs. -/
def Operation.told (m : Machine) (operation : Operation) : Nat :=
  match (operation.apply m).2 with
  | .taken ticks => ticks.toNat
  | .done | .refused _ => if operation = .tick ∧ m.halted = false then 1 else 0

/-- The number of ticks that the caller of a history can tell. -/
def told (m : Machine) : List Operation → Nat
  | [] => 0
  | operation :: others => operation.told m + told (operation.apply m).1 others

/-! ## The events of ticks -/

theorem ticksIn_append (early late : List Event) :
    ticksIn (early ++ late) = ticksIn early + ticksIn late :=
  List.countP_append

theorem ticksIn_tickEvents (running : m.halted = false) : ticksIn m.tickEvents = 1 := by
  rw [tickEvents, running]
  show ticksIn (if m.asserted.contains .halt then _ else _) = 1
  split <;> rfl

/-- The log reports the ticks that are made. -/
theorem ticksIn_afterEvents (n : Nat) (m : Machine) : ticksIn (afterEvents n m) = clocked n m := by
  induction n generalizing m with
  | zero => rfl
  | succ n ih =>
    rw [afterEvents, ticksIn_append, ih]
    cases h : m.halted with
    | true => simp [tickEvents, h, ticksIn]
    | false => rw [ticksIn_tickEvents h, clocked_succ h, Nat.add_comm]

@[simp] theorem afterEvents_of_halted (stopped : m.halted = true) (n : Nat) :
    afterEvents n m = [] := by
  induction n with
  | zero => rfl
  | succ n ih => rw [afterEvents, tick_of_halted stopped, ih, tickEvents, if_pos stopped]; rfl

/-- A run to the end of the current instruction reports the remaining ticks. -/
theorem finishEvents_eq_afterEvents {limit : Nat} (m : Machine) (enough : m.remaining ≤ limit) :
    finishEvents limit m = afterEvents m.remaining m := by
  induction limit generalizing m with
  | zero => exact absurd (remaining_pos m) (by omega)
  | succ limit ih =>
    rw [finishEvents]
    cases running : m.halted with
    | true => rw [tick_of_halted running, afterEvents_of_halted running]; simp [running, tickEvents]
    | false =>
      have count := remaining_tick running
      by_cases last : m.tick.step = 0
      · rw [if_pos last] at count
        simp [count, last, afterEvents]
      · rw [if_neg last] at count
        rw [count, afterEvents]
        cases stopped : m.tick.halted with
        | true => simp [stopped]
        | false => simpa [last] using ih m.tick (by omega)

/-! ## Operations as ticks -/

/-- The plain ticks that an operation comes to, where those after a halt are void. -/
def Operation.span (m : Machine) : Operation → Nat
  | tick => 1
  | instruction => m.remaining
  | run limit => limit
  | reset | load _ | write _ _ | clear => 0

theorem apply_of_drives {operation : Operation} (drives : operation.drives = true) (m : Machine) :
    operation.apply m = (after (operation.span m) m,
      operation.reply (clocked (operation.span m) m)) := by
  cases operation with
  | tick => rfl
  | instruction =>
    show (m.instruction, Reply.taken (m.instruction.ticks - m.ticks)) = _
    rw [instruction_eq_after, ticks_after_sub]
    rfl
  | run limit =>
    show (m.run limit, Reply.taken ((m.run limit).ticks - m.ticks)) = _
    rw [run_eq_after, ticks_after_sub]
    rfl
  | reset | load words | write address value | clear => cases drives

theorem events_of_drives {operation : Operation} (drives : operation.drives = true) (m : Machine) :
    operation.events m = afterEvents (operation.span m) m := by
  cases operation with
  | tick => exact (List.append_nil _).symm
  | instruction => exact finishEvents_eq_afterEvents m (remaining_le m)
  | run limit => exact runEvents_eq_afterEvents limit m
  | reset | load words | write address value | clear => cases drives

/-- A caller can tell the ticks that are made while the counter has room for them. -/
theorem told_of_drives {operation : Operation} (drives : operation.drives = true)
    (room : clocked (operation.span m) m < 2 ^ 64) :
    operation.told m = clocked (operation.span m) m := by
  rw [Operation.told, apply_of_drives drives]
  cases operation with
  | tick =>
    cases running : m.halted with
    | true => simp [Operation.reply, Operation.span, running]
    | false => simp [Operation.reply, Operation.span, running, clocked_succ]
  | instruction => exact UInt64.toNat_ofNat_of_lt' room
  | run limit => exact UInt64.toNat_ofNat_of_lt' room
  | reset | load words | write address value | clear => cases drives

/-! ## Histories -/

theorem log_cons (operation : Operation) (others : List Operation) :
    m.log (operation :: others) = operation.events m ++ (operation.apply m).1.log others := rfl

theorem perform_cons (operation : Operation) (others : List Operation) :
    m.perform (operation :: others) =
      (((operation.apply m).1.perform others).1,
        (operation.apply m).2 :: ((operation.apply m).1.perform others).2) := rfl

theorem perform_append (m : Machine) (early late : List Operation) :
    (m.perform (early ++ late)).1 = ((m.perform early).1.perform late).1 := by
  induction early generalizing m with
  | nil => rfl
  | cons operation early ih =>
    rw [List.cons_append, perform_cons, perform_cons]
    exact ih _

theorem log_append (m : Machine) (early late : List Operation) :
    m.log (early ++ late) = m.log early ++ (m.perform early).1.log late := by
  induction early generalizing m with
  | nil => rfl
  | cons operation early ih =>
    rw [List.cons_append, log_cons, log_cons, ih, perform_cons, List.append_assoc]

/-! ## Histories as ticks -/

/-- A history that drives the clock makes the ticks that its caller can tell, and the tick counter
counts them. -/
theorem perform_eq_after {operations : List Operation}
    (driven : ∀ operation ∈ operations, operation.drives = true)
    (room : m.ticks.toNat + ticksIn (m.log operations) < 2 ^ 64) :
    (m.perform operations).1 = after (m.told operations) m ∧
      (m.perform operations).1.ticks.toNat = m.ticks.toNat + m.told operations := by
  induction operations generalizing m with
  | nil => exact ⟨rfl, rfl⟩
  | cons operation others ih =>
    have drives := driven operation List.mem_cons_self
    rw [log_cons, ticksIn_append, events_of_drives drives, ticksIn_afterEvents,
      apply_of_drives drives] at room
    dsimp only at room
    have first : (after (operation.span m) m).ticks.toNat =
        m.ticks.toNat + clocked (operation.span m) m := toNat_ticks_after (by omega)
    obtain ⟨last, count⟩ := ih (fun later h => driven later (List.mem_cons_of_mem _ h))
      (m := after (operation.span m) m) (by omega)
    rw [perform_cons, told, told_of_drives drives (by omega), apply_of_drives drives]
    refine ⟨?_, ?_⟩
    · rw [after_add, after_clocked]
      exact last
    · rw [count, first, Nat.add_assoc]

theorem apply_of_halted {operation : Operation} (drives : operation.drives = true)
    (stopped : m.halted = true) : operation.apply m = (m, operation.reply 0) := by
  rw [apply_of_drives drives, after_of_halted stopped, clocked_of_halted stopped]

/-- Two runs up to limits are one run up to the sum of the limits, and their replies add up. -/
theorem perform_run_run (k n : Nat) (m : Machine) :
    m.perform [.run k, .run n] = (m.run (k + n),
      [.taken (.ofNat (clocked k m)), .taken (.ofNat (clocked n (after k m)))]) ∧
      m.perform [.run (k + n)] = (m.run (k + n),
        [.taken (.ofNat (clocked k m) + .ofNat (clocked n (after k m)))]) := by
  have drives : ∀ limit, (Operation.run limit).drives = true := fun _ => rfl
  constructor
  · rw [perform_cons, perform_cons, apply_of_drives (drives k), apply_of_drives (drives n),
      run_eq_after, after_add]
    rfl
  · rw [perform_cons, apply_of_drives (drives (k + n)), run_eq_after, ← UInt64.ofNat_add,
      ← clocked_add]
    rfl

/-! ## The main result -/

/-- **It does not matter how a machine is driven.** Let a history, from any machine, make single
ticks, whole instructions and runs up to a limit in any order, and let the tick counter have room
for the ticks that its log reports. With `t` the number of ticks that the caller can tell, the
machine is then where `t` plain ticks lead, and the tick counter has grown by `t`. Once the clock
has stopped, the operations answer zero ticks and change nothing. Two runs in a row are one run up
to the sum of their limits, and the numbers of ticks that they answer add up. -/
theorem perform_driven (m : Machine) (operations : List Operation)
    (driven : ∀ operation ∈ operations, operation.drives = true)
    (room : m.ticks.toNat + ticksIn (m.log operations) < 2 ^ 64) :
    let final := (m.perform operations).1
    let t := m.told operations
    (final = after t m ∧ final.ticks.toNat = m.ticks.toNat + t) ∧
      (∀ operation ∈ operations, ∀ stopped : Machine, stopped.halted = true →
        operation.apply stopped = (stopped, operation.reply 0)) ∧
      ∀ k n, m.ticks.toNat + ticksIn (m.log [.run (k + n)]) < 2 ^ 64 → ∃ x y,
        m.perform [.run k, .run n] = (m.run (k + n), [.taken x, .taken y]) ∧
          m.perform [.run (k + n)] = (m.run (k + n), [.taken (x + y)]) ∧
          (x + y).toNat = x.toNat + y.toNat := by
  intro final t
  refine ⟨perform_eq_after driven room, fun operation member stopped halted =>
    apply_of_halted (driven operation member) halted, fun k n both => ?_⟩
  obtain ⟨twice, once⟩ := perform_run_run k n m
  refine ⟨_, _, twice, once, ?_⟩
  have ticks : ticksIn (m.log [.run (k + n)]) = clocked k m + clocked n (after k m) := by
    rw [← clocked_add, ← ticksIn_afterEvents, ← runEvents_eq_afterEvents]
    show ticksIn (m.runEvents (k + n) ++ []) = _
    rw [List.append_nil]
  rw [UInt64.toNat_add, UInt64.toNat_ofNat', UInt64.toNat_ofNat']
  omega

/-- A history that begins at a step beyond the eighth, cuts instructions in pieces and goes on after
the halt. -/
theorem perform_driven_across_halt :
    let m : Machine :=
      { memory := Memory.blank.fill [5, 3, 14, 15], step := 13, ticks := 5 }
    let operations : List Operation :=
      [.tick, .instruction, .run 3, .tick, .run 100, .instruction, .tick]
    (∀ operation ∈ operations, operation.drives = true) ∧
      m.ticks.toNat + ticksIn (m.log operations) < 2 ^ 64 ∧
      (m.perform operations).2 =
        [.done, .taken 2, .taken 3, .done, .taken 16, .taken 0, .done] ∧
      m.told operations = 23 ∧ (m.perform operations).1 = after (m.told operations) m := by
  intro m operations
  have driven : ∀ operation ∈ operations, operation.drives = true := by decide
  have room : m.ticks.toNat + ticksIn (m.log operations) < 2 ^ 64 := by decide +kernel
  exact ⟨driven, room, by decide +kernel, by decide +kernel,
    (perform_driven m operations driven room).1.1⟩

end NibbleComputer.Machine
