import NibbleComputer.Proofs.Machine.Ticks

/-!
# Memory that is not read

Program, operands and data share the sixteen cells of memory. What a cell holds can act on the
machine only by way of the bus, so a run that never puts the cell on the bus does not depend on
it, and nothing is left of the old content once the run has written the cell.

- `Machine.withCell`: the machine with another value in a cell.
- `Machine.Reads`, `Machine.Writes`: what the next tick does with a cell.
- `Machine.tick_withCell`: a tick that does not read a cell keeps it apart from the other parts.
- `Machine.AlikeExcept`: machines that are equal except for a cell.
- `Machine.after_unread`: runs that do not read the cell.
-/

namespace NibbleComputer.Machine

open Signal

variable {m : Machine} {x : Nibble} {signals : SignalSet}

/-! ## A cell and a tick -/

/-- The machine with the given value in a memory cell. -/
def withCell (m : Machine) (x value : Nibble) : Machine :=
  { m with memory := m.memory.write x value }

/-- The next tick is made and puts a memory cell on the bus. -/
def Reads (m : Machine) (x : Nibble) : Prop :=
  m.halted = false ∧ m.asserted.contains ramOut = true ∧ m.registers.mar = x

/-- The next tick is made and loads a memory cell from the bus. -/
def Writes (m : Machine) (x : Nibble) : Prop :=
  m.halted = false ∧ m.asserted.contains ramIn = true ∧ m.registers.mar = x

instance (m : Machine) (x : Nibble) : Decidable (m.Reads x) :=
  inferInstanceAs (Decidable (_ ∧ _))

instance (m : Machine) (x : Nibble) : Decidable (m.Writes x) :=
  inferInstanceAs (Decidable (_ ∧ _))

/-! ### The phases -/

/-- The first phase does not look at a cell unless memory drives the bus from it. -/
theorem drive_withCell (value : Nibble)
    (unread : signals.producer? = some ramOut → m.registers.mar ≠ x) :
    (m.withCell x value).drive signals = (m.drive signals).withCell x value := by
  unfold drive
  cases producer : signals.producer? with
  | none => rfl
  | some signal =>
    cases signal with
    | ramOut => simp [withCell, Memory.read_write_of_ne _ value (unread producer)]
    | _ => rfl

/-- The second phase writes over the cell or leaves it alone, unless the address register changes
at the same time. -/
theorem latch_withCell (value : Nibble)
    (stays : signals.contains ramIn = true → signals.contains loadMar = false) :
    (m.withCell x value).latch signals =
      if signals.contains ramIn = true ∧ m.registers.mar = x then m.latch signals
      else (m.latch signals).withCell x value := by
  cases writes : signals.contains ramIn with
  | false => simp [latch, withCell, writes]
  | true =>
    have mar : (latchRegisters m.registers signals m.bus.value).mar = m.registers.mar := by
      simp [latchRegisters, stays writes]
    by_cases same : m.registers.mar = x
    · simp [latch, withCell, writes, mar, same]
    · simp [latch, withCell, writes, mar, same, Memory.write_comm _ _ _ (Ne.symm same)]

/-- No step loads the address register and a memory cell together. -/
theorem loadMar_of_ramIn (writes : m.asserted.contains ramIn = true) :
    m.asserted.contains loadMar = false := by
  rw [asserted, Microcode.contains_signals] at writes ⊢
  simp only [due, decide_eq_true_eq] at writes
  simp [due, writes.1]

/-! ### The tick -/

/-- A tick that does not read a cell makes the same of the other parts whatever the cell holds, and
what the cell held survives only if the tick does not write it. -/
theorem tick_withCell (unread : ¬ m.Reads x) (value : Nibble) :
    (m.withCell x value).tick = if m.Writes x then m.tick else m.tick.withCell x value := by
  cases running : m.halted with
  | true =>
    have idle : ¬ m.Writes x := fun writes => by simp [Writes, running] at writes
    rw [if_neg idle, tick_of_halted running]
    exact tick_of_halted running
  | false =>
    have source : m.asserted.producer? = some ramOut → m.registers.mar ≠ x := by
      intro producer same
      exact unread ⟨running, List.find?_some producer, same⟩
    have kept : (m.drive m.asserted).registers.mar = m.registers.mar := by rw [drive_eq]
    have phases := latch_withCell (m := m.drive m.asserted) (x := x) value
      (loadMar_of_ramIn (m := m))
    rw [← drive_withCell value source, kept] at phases
    have writes : m.Writes x ↔ m.asserted.contains ramIn = true ∧ m.registers.mar = x :=
      and_iff_right running
    have ticked : (m.withCell x value).tick =
        ((((m.withCell x value).drive m.asserted).latch m.asserted).settle m.asserted).advance
          m.lines := tick_eq_phases running
    rw [ticked, phases, tick_eq_phases running]
    simp only [writes]
    split <;> rfl

/-- Ticks that do not read a cell keep it apart, and nothing is left of what it held once one of
them has written it. -/
theorem after_withCell (n : Nat) (unread : ∀ k < n, ¬ (after k m).Reads x) (value : Nibble) :
    after n (m.withCell x value) =
      if ∃ k < n, (after k m).Writes x then after n m else (after n m).withCell x value := by
  induction n generalizing m with
  | zero =>
    have none : ¬ ∃ k < 0, (after k m).Writes x := fun ⟨k, lt, _⟩ => absurd lt (Nat.not_lt_zero k)
    rw [if_neg none]
    rfl
  | succ n ih =>
    have first : ¬ m.Reads x := unread 0 (Nat.succ_pos n)
    have others : ∀ k < n, ¬ (after k m.tick).Reads x := fun k lt =>
      unread (k + 1) (Nat.succ_lt_succ lt)
    rw [after_succ, after_succ, tick_withCell first]
    by_cases writes : m.Writes x
    · rw [if_pos writes, if_pos ⟨0, Nat.succ_pos n, writes⟩]
    · -- the first tick does not write the cell, so that the others must
      have later : (∃ k < n + 1, (after k m).Writes x) ↔ ∃ k < n, (after k m.tick).Writes x := by
        constructor
        · rintro ⟨k, lt, written⟩
          cases k with
          | zero => exact absurd written writes
          | succ k => exact ⟨k, Nat.lt_of_succ_lt_succ lt, written⟩
        · rintro ⟨k, lt, written⟩
          exact ⟨k + 1, Nat.succ_lt_succ lt, written⟩
      simp only [if_neg writes, ih others, later]

/-! ## The main result -/

/-- Two machines that are equal except possibly for one memory cell. -/
structure AlikeExcept (x : Nibble) (m m' : Machine) : Prop where
  /-- The other cells are the same. -/
  cells : ∀ y ≠ x, m'.memory.read y = m.memory.read y
  /-- So are all parts other than memory. -/
  rest : { m' with memory := m.memory } = m

theorem alikeExcept_refl (x : Nibble) (m : Machine) : AlikeExcept x m m :=
  ⟨fun _ _ => rfl, rfl⟩

theorem alikeExcept_withCell (x value : Nibble) (m : Machine) :
    AlikeExcept x m (m.withCell x value) :=
  ⟨fun _ other => Memory.read_write_of_ne _ value other, rfl⟩

/-- The other machine is the first with another value in the cell. -/
theorem AlikeExcept.eq_withCell {m' : Machine} (alike : AlikeExcept x m m') :
    m' = m.withCell x (m'.memory.read x) := by
  have memory : m'.memory = m.memory.write x (m'.memory.read x) := by
    refine Memory.ext_read fun y => ?_
    by_cases same : y = x
    · rw [same, Memory.read_write_self]
    · rw [Memory.read_write_of_ne _ _ same, alike.cells y same]
  calc m' = { { m' with memory := m.memory } with memory := m'.memory } := rfl
    _ = m.withCell x (m'.memory.read x) := by rw [alike.rest, withCell, ← memory]

/-- **Memory that is not read does not matter.** Take two machines that are equal except possibly
for a memory cell. If none of the next `n` ticks of the first puts the cell on the bus, the two are
still equal except possibly for the cell after `n` ticks. If one of these ticks also writes the
cell, they are equal altogether. -/
theorem after_unread {x : Nibble} {m m' : Machine} (alike : AlikeExcept x m m') (n : Nat)
    (unread : ∀ k < n, ¬ (after k m).Reads x) :
    AlikeExcept x (after n m) (after n m') ∧
      ((∃ k < n, (after k m).Writes x) → after n m' = after n m) := by
  rw [alike.eq_withCell, after_withCell n unread]
  by_cases written : ∃ k < n, (after k m).Writes x
  · rw [if_pos written]
    exact ⟨alikeExcept_refl x _, fun _ => rfl⟩
  · rw [if_neg written]
    exact ⟨alikeExcept_withCell x _ _, fun h => absurd h written⟩

/-- A store to a cell that has not been read before, in a run that goes on past the halt. -/
theorem after_unread_overwritten :
    let m : Machine := { memory := Memory.blank.fill [5, 7, 4, 9, 15] }
    let m' : Machine := { m with memory := m.memory.write 9 3 }
    AlikeExcept 9 m m' ∧ (∀ k < 30, ¬ (after k m).Reads 9) ∧ (∃ k < 30, (after k m).Writes 9) ∧
      m'.memory ≠ m.memory ∧ after 30 m' = after 30 m := by
  intro m m'
  have alike : AlikeExcept 9 m m' := alikeExcept_withCell 9 3 m
  have unread : ∀ k < 30, ¬ (after k m).Reads 9 := by decide +kernel
  have written : ∃ k < 30, (after k m).Writes 9 := ⟨13, by decide, by decide +kernel⟩
  exact ⟨alike, unread, written, by decide, (after_unread alike 30 unread).2 written⟩

end NibbleComputer.Machine
