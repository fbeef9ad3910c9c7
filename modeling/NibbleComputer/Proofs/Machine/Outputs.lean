import NibbleComputer.Proofs.Machine.Reports

/-!
# Values that a run displays

The reports of a run show the output register behind every completed output instruction. The
instruction set says which values these are without ticks and rounds: the contents of the
accumulator where such an instruction begins, as far as eight ticks for each instruction go.

- `Visible.Displays`, `Visible.displayed`: the output instructions of a run and their values.
- `Visible.steps_of_halted`, `Machine.running_iff`: how far a run gets, in both views.
- `Machine.out_report`: what the report of an output instruction shows.
- `Machine.outputs_reportsTo`: the values shown by the reports of a run.
-/

namespace NibbleComputer

namespace Visible

variable {s : Visible}

/-- The instruction with the given index, counted from zero, displays a value: the run gets to it
without having stopped, it is the output instruction, and eight ticks for it and for each one before
are within the limit. -/
def Displays (s : Visible) (limit index : Nat) : Prop :=
  (steps index s).halted = false ∧ (steps index s).opcode = .out ∧ 8 * (index + 1) ≤ limit

instance (s : Visible) (limit : Nat) : DecidablePred (s.Displays limit) :=
  fun _ => inferInstanceAs (Decidable (_ ∧ _ ∧ _))

/-- The values that a run displays, in order: what the accumulator holds where each output
instruction begins. There are fewer instructions than ticks, so that the range leaves none out. -/
def displayed (s : Visible) (limit : Nat) : List Nibble :=
  ((List.range limit).filter fun index => s.Displays limit index).map fun index =>
    (steps index s).a

/-- A halted run stays as it is. -/
theorem steps_of_halted (stopped : s.halted = true) (count : Nat) : steps count s = s := by
  induction count with
  | zero => rfl
  | succ count ih => rw [steps, step_of_halted stopped, ih]

/-- The instruction that stops the clock stops the run. -/
theorem halted_step (opcode : s.opcode = .hlt) : s.step.halted = true := by
  cases stopped : s.halted with
  | true => rw [step_of_halted stopped, stopped]
  | false =>
    rw [step, stopped, opcode]
    rfl

/-- A run that goes on has not come to the instruction that stops it. -/
theorem opcode_ne_of_running {index : Nat} (running : (steps index s).halted = false) :
    ∀ earlier < index, (steps earlier s).opcode ≠ .hlt := by
  intro earlier lt opcode
  obtain ⟨rest, rfl⟩ := Nat.exists_eq_add_of_lt lt
  have stopped := halted_step opcode
  rw [Nat.add_assoc, steps_add, steps, steps_of_halted stopped, stopped] at running
  cases running

end Visible

/-- A property of numbers below a bound picks the same of every range beyond the bound. -/
theorem filter_range_of_lt {p : Nat → Bool} {bound limit : Nat} (le : bound ≤ limit)
    (below : ∀ index, p index = true → index < bound) :
    (List.range limit).filter p = (List.range bound).filter p := by
  obtain ⟨rest, rfl⟩ := Nat.exists_eq_add_of_le le
  have none : ((List.range rest).map (bound + ·)).filter p = [] := by
    refine List.filter_eq_nil_iff.mpr fun index mem holds => ?_
    obtain ⟨offset, -, rfl⟩ := List.mem_map.mp mem
    have := below _ holds
    omega
  rw [List.range_add, List.filter_append, none, List.append_nil]

namespace Machine

variable {m : Machine} {limit : UInt64}

/-- The clock runs before an instruction if the run of the instruction set gets to it. -/
theorem running_iff (running : m.halted = false) (first : m.step = 0) (index : Nat) :
    (after (8 * index) m).halted = false ↔ (Visible.steps index m.visible).halted = false := by
  constructor
  · intro goes
    rw [← visible_after running first goes]
    exact goes
  · intro goes
    exact (after_instructions running first index (Visible.opcode_ne_of_running goes)).1

/-- The report of an output instruction shows what the accumulator held. -/
theorem out_report (running : m.halted = false) (first : m.step = 0)
    (opcode : m.report.opcode = .out) :
    m.report.after.registers.out = m.registers.a := by
  rw [(describes_report running first).executed, opcode]
  rfl

/-- **The reports of a run show what the instruction set displays.** In a run from the start, the
reports of output instructions show, one by one and in order, the values that the run of the
instruction set displays within the limit. -/
theorem outputs_reportsTo (running : m.halted = false) (first : m.step = 0) (fresh : m.ticks = 0) :
    ((m.reportsTo limit).filter fun report => report.opcode = .out).map
        (fun report => report.after.registers.out) =
      m.visible.displayed limit.toNat := by
  have enough : limit.toNat - m.ticks.toNat ≤ limit.toNat := Nat.sub_le ..
  obtain ⟨count, reports, indices⟩ := roundReportsTo_eq (fun _ => first) enough
  have zero : m.ticks.toNat = 0 := by rw [fresh]; rfl
  simp only [zero, Nat.zero_add] at indices
  have within (index : Nat) : index < count ↔
      (Visible.steps index m.visible).halted = false ∧ 8 * (index + 1) ≤ limit.toNat := by
    rw [indices, running_iff running first, Nat.mul_add_one]
  have most : count ≤ limit.toNat := by
    cases count with
    | zero => exact Nat.zero_le _
    | succ last =>
      have := ((within last).mp (Nat.lt_succ_self last)).2
      omega
  -- a reported instruction is seen by a program as the instruction set has it
  have seen {index : Nat} (mem : index ∈ List.range count) :
      (after (8 * index) m).halted = false ∧ (after (8 * index) m).step = 0 ∧
        (after (8 * index) m).visible = .steps index m.visible := by
    have goes := ((indices index).mp (List.mem_range.mp mem)).1
    exact ⟨goes, step_after_mul first goes, visible_after running first goes⟩
  have opcodes : (List.range count).filter
        (fun index => (after (8 * index) m).report.opcode = .out) =
      (List.range count).filter fun index => m.visible.Displays limit.toNat index := by
    refine List.filter_congr fun index mem => ?_
    have opcode : (after (8 * index) m).report.opcode = (Visible.steps index m.visible).opcode :=
      congrArg Visible.opcode (seen mem).2.2
    obtain ⟨goes, room⟩ := (within index).mp (List.mem_range.mp mem)
    simp [Visible.Displays, opcode, goes, room]
  have below (index : Nat) (holds : decide (m.visible.Displays limit.toNat index) = true) :
      index < count := by
    obtain ⟨goes, -, room⟩ := of_decide_eq_true holds
    exact (within index).mpr ⟨goes, room⟩
  rw [reportsTo, reports, List.filter_map, List.map_map, Visible.displayed,
    filter_range_of_lt most below, ← opcodes]
  refine List.map_congr_left fun index mem => ?_
  obtain ⟨mem, opcode⟩ := List.mem_filter.mp mem
  obtain ⟨goes, begins, view⟩ := seen mem
  rw [Function.comp_apply, out_report goes begins (of_decide_eq_true opcode)]
  exact congrArg Visible.a view

end Machine

end NibbleComputer
