import NibbleComputer.Control.Microcode

/-!
# The timing of the control lines

The microcode lists the lines of every step. Read the other way round, it says for every line when
it is asserted, as the logic equations of a control unit do.

- `Signal.due`: the equation of each line, in the step, the opcode and the flags.
- `Signal.Timed`, `Signal.due_iff`: the same in the code of the opcode.
- `Signal.Timed.unique`: at most one of the lines that drive the bus is due.
- `Microcode.contains_signals`: the microcode asserts a line just when it is due.
- `Microcode.signals_fetch`, `Microcode.signals_flags`: the opcode matters from the fourth step on,
  and the flags in the fifth only.
-/

namespace NibbleComputer

/-- Whether an instruction with the given opcode goes on at its operand. -/
def Opcode.branches (opcode : Opcode) (flags : Flags) : Bool :=
  opcode = .jmp ∨ opcode = .jc ∧ flags.carry ∨ opcode = .jz ∧ flags.zero

/-- Whether the operand of an instruction with the given opcode is an address of data. -/
def Opcode.addresses (opcode : Opcode) : Bool :=
  opcode = .lda ∨ opcode = .add ∨ opcode = .sub ∨ opcode = .sta

/-- Whether a line is due at a step of an instruction with the given opcode. -/
def Signal.due (opcode : Opcode) (step : Nat) (flags : Flags) : Signal → Bool
  | counterOut => step = 0 ∨ step = 3 ∧ opcode.takesOperand
  | counterEnable => step = 1 ∨ step = 4 ∧ opcode.takesOperand ∧ ¬ opcode.branches flags
  | jump => step = 4 ∧ opcode.branches flags
  | loadMar => step = 0 ∨ step = 3 ∧ opcode.takesOperand ∨ step = 4 ∧ opcode.addresses
  | ramOut =>
    step = 2 ∨ step = 4 ∧ opcode.takesOperand ∨
      step = 5 ∧ (opcode = .lda ∨ opcode = .add ∨ opcode = .sub)
  | ramIn => step = 5 ∧ opcode = .sta
  | irOut => false
  | irIn => step = 2
  | aOut => step = 3 ∧ opcode = .out ∨ step = 5 ∧ opcode = .sta
  | aIn =>
    step = 4 ∧ opcode = .ldi ∨ step = 5 ∧ opcode = .lda ∨
      step = 6 ∧ (opcode = .add ∨ opcode = .sub)
  | bIn => step = 5 ∧ (opcode = .add ∨ opcode = .sub)
  | outIn => step = 3 ∧ opcode = .out
  | aluOut => step = 6 ∧ (opcode = .add ∨ opcode = .sub)
  | subtract => (step = 5 ∨ step = 6) ∧ opcode = .sub
  | halt => step = 3 ∧ opcode = .hlt

/-! ## Opcodes by their codes -/

namespace Opcode

/-- A nibble stands for an opcode with a meaning if it is the code of that opcode. -/
theorem ofNibble_eq_iff {opcode : Opcode} (known : opcode ∈ assigned) {n : Nibble} :
    ofNibble n = opcode ↔ n = opcode.code := by
  constructor
  · intro decoded
    rw [← decoded, code_ofNibble]
  · rintro rfl
    exact ofNibble_code known

theorem takesOperand_ofNibble {n : Nibble} :
    (ofNibble n).takesOperand = true ↔ 1 ≤ n ∧ n ≤ 8 := by
  revert n
  decide

theorem addresses_ofNibble {n : Nibble} : (ofNibble n).addresses = true ↔ 1 ≤ n ∧ n ≤ 4 := by
  revert n
  decide

theorem branches_ofNibble {n : Nibble} {flags : Flags} : (ofNibble n).branches flags = true ↔
    n = 6 ∨ n = 7 ∧ flags.carry = true ∨ n = 8 ∧ flags.zero = true := by
  obtain ⟨zero, carry⟩ := flags
  revert n zero carry
  decide

/-- The counter passes over the operand of an instruction that does not go on there. -/
theorem not_branches_ofNibble {n : Nibble} {flags : Flags} :
    (ofNibble n).takesOperand = true ∧ ¬ (ofNibble n).branches flags = true ↔
      1 ≤ n ∧ n ≤ 5 ∨ n = 7 ∧ flags.carry = false ∨ n = 8 ∧ flags.zero = false := by
  obtain ⟨zero, carry⟩ := flags
  revert n zero carry
  decide

end Opcode

namespace Signal

/-- The condition under which a line is due, in the code of the opcode. -/
def Timed (code : Nibble) (step : Nat) (flags : Flags) : Signal → Prop
  | counterOut => step = 0 ∨ step = 3 ∧ 1 ≤ code ∧ code ≤ 8
  | counterEnable =>
    step = 1 ∨ step = 4 ∧ (1 ≤ code ∧ code ≤ 5 ∨ code = 7 ∧ flags.carry = false ∨
      code = 8 ∧ flags.zero = false)
  | jump => step = 4 ∧ (code = 6 ∨ code = 7 ∧ flags.carry = true ∨ code = 8 ∧ flags.zero = true)
  | loadMar =>
    step = 0 ∨ step = 3 ∧ 1 ≤ code ∧ code ≤ 8 ∨ step = 4 ∧ 1 ≤ code ∧ code ≤ 4
  | ramOut =>
    step = 2 ∨ step = 4 ∧ 1 ≤ code ∧ code ≤ 8 ∨ step = 5 ∧ (code = 1 ∨ code = 2 ∨ code = 3)
  | ramIn => step = 5 ∧ code = 4
  | irOut => False
  | irIn => step = 2
  | aOut => step = 3 ∧ code = 14 ∨ step = 5 ∧ code = 4
  | aIn => step = 4 ∧ code = 5 ∨ step = 5 ∧ code = 1 ∨ step = 6 ∧ (code = 2 ∨ code = 3)
  | bIn => step = 5 ∧ (code = 2 ∨ code = 3)
  | outIn => step = 3 ∧ code = 14
  | aluOut => step = 6 ∧ (code = 2 ∨ code = 3)
  | subtract => (step = 5 ∨ step = 6) ∧ code = 3
  | halt => step = 3 ∧ code = 15

theorem due_iff {code : Nibble} {step : Nat} {flags : Flags} {signal : Signal} :
    signal.due (.ofNibble code) step flags = true ↔ signal.Timed code step flags := by
  cases signal with
  | irOut => exact Bool.false_eq_true.to_iff
  | counterEnable =>
    simp only [due, Timed, decide_eq_true_eq, Opcode.not_branches_ofNibble]
  | _ =>
    simp (disch := decide) only [due, Timed, decide_eq_true_eq, Opcode.takesOperand_ofNibble,
      Opcode.addresses_ofNibble, Opcode.branches_ofNibble, Opcode.ofNibble_eq_iff, Opcode.code]

/-- At most one of the lines that drive the bus is due. -/
theorem Timed.unique {code : Nibble} {step : Nat} {flags : Flags} {s t : Signal}
    (first : s ∈ producers) (second : t ∈ producers) (due : s.Timed code step flags)
    (due' : t.Timed code step flags) : s = t := by
  simp only [producers, List.mem_cons, List.not_mem_nil, or_false] at first second
  rcases first with rfl | rfl | rfl | rfl | rfl <;>
    rcases second with rfl | rfl | rfl | rfl | rfl <;>
    grind [Timed]

end Signal

/-! ## The microcode -/

namespace Microcode

/-- A reserved opcode has the timing of the one that does nothing. -/
theorem due_reserved (nibble : Nibble) (step : Nat) (flags : Flags) (signal : Signal) :
    signal.due (.reserved nibble) step flags = signal.due .nop step flags := by
  cases signal <;>
    simp [Signal.due, Opcode.takesOperand, Opcode.branches, Opcode.addresses]

/-- For the opcodes with a meaning, the equations agree with the tables at every step. -/
theorem mem_routine_iff_due : ∀ opcode ∈ Opcode.assigned, ∀ zero carry, ∀ signal ∈ Signal.all,
    ∀ step < 8, decide (signal ∈ (fetch ++ routine ⟨zero, carry⟩ opcode)[step]?.getD []) =
      signal.due opcode step ⟨zero, carry⟩ := by
  decide +kernel

theorem mem_assigned_or_reserved (opcode : Opcode) :
    opcode ∈ Opcode.assigned ∨ ∃ nibble, opcode = .reserved nibble := by
  cases opcode <;> simp [Opcode.assigned]

/-- No instruction has a ninth step. -/
theorem length_routine (flags : Flags) (opcode : Opcode) :
    (fetch ++ routine flags opcode).length ≤ 8 := by
  cases opcode <;> simp [fetch, routine]

/-- **The microcode asserts a line just when it is due.** -/
theorem contains_signals (ir : Nibble) (step : UInt8) (flags : Flags) (signal : Signal) :
    (signals ir step flags).contains signal = signal.due (.ofNibble ir) step.toNat flags := by
  rw [signals, SignalSet.contains_ofList]
  rcases Nat.lt_or_ge step.toNat 8 with lt | ge
  · have member := Signal.mem_all signal
    rcases mem_assigned_or_reserved (.ofNibble ir) with known | ⟨nibble, reserved⟩
    · exact mem_routine_iff_due _ known flags.zero flags.carry signal member _ lt
    · rw [reserved, due_reserved]
      exact mem_routine_iff_due .nop (by decide) flags.zero flags.carry signal member _ lt
  · rw [List.getElem?_eq_none (Nat.le_trans (length_routine flags _) ge)]
    cases signal <;> simp [Signal.due] <;> omega

/-- Steps at which the same lines are due assert the same lines. -/
theorem signals_eq_of_due {step : UInt8} {ir ir' : Nibble} {flags flags' : Flags}
    (same : ∀ signal : Signal, signal.due (.ofNibble ir) step.toNat flags =
      signal.due (.ofNibble ir') step.toNat flags') :
    signals ir step flags = signals ir' step flags' := by
  apply SignalSet.ext_contains
  intro signal
  rw [contains_signals, contains_signals, same]

/-- The first three steps do not depend on what the instruction register and the flags hold. -/
theorem signals_fetch {step : UInt8} (early : step.toNat < 3) (ir ir' : Nibble)
    (flags flags' : Flags) : signals ir step flags = signals ir' step flags' := by
  refine signals_eq_of_due fun signal => ?_
  have : step.toNat = 0 ∨ step.toNat = 1 ∨ step.toNat = 2 := by omega
  rcases this with h | h | h <;> cases signal <;> simp [Signal.due, h]

/-- The flags matter in the fifth step only. -/
theorem signals_flags {step : UInt8} (other : step.toNat ≠ 4) (ir : Nibble)
    (flags flags' : Flags) : signals ir step flags = signals ir step flags' := by
  refine signals_eq_of_due fun signal => ?_
  cases signal <;> simp [Signal.due, other]

end Microcode

end NibbleComputer
