import NibbleComputer.Proofs.Machine.Coherence
import NibbleComputer.Proofs.Machine.InstructionCycle

/-!
# Parts that a program cannot observe

The address register, the instruction register, the second operand register, the bus, the last
result and the lines of the last tick are hidden from a program. An instruction finds there what
earlier ones have left, but it writes each of these parts before it looks at it, so nothing that a
program observes depends on them.

- `Machine.withHidden`: a machine with the hidden parts of another.
- `Machine.withScratch`: a machine with other contents where only the computing opcodes look.
- `Machine.after_fetch_withHidden`: the fetch replaces all hidden parts but those two.
- `Machine.Alike`, `Machine.Alike.tick`: what two machines have in common from there on, and that a
  tick preserves it.
- `Machine.after_hidden`: runs of two machines that a program cannot tell apart.
-/

namespace NibbleComputer.Machine

open Signal

variable {m m' : Machine}

/-! ## The second operand and the last result -/

/-- The machine with the given contents of the second operand register and last result. -/
def withScratch (m : Machine) (b result : Nibble) : Machine :=
  { m with
    registers := { m.registers with b := b }
    alu := { m.alu with result := result } }

/-- The first phase does not look at the second operand unless it computes, and then the result is
new. -/
theorem drive_withScratch {signals : SignalSet} {b : Nibble} (result : Nibble)
    (known : signals.producer? = some aluOut → b = m.registers.b) :
    ∃ result',
      (m.withScratch b result).drive signals = (m.drive signals).withScratch b result' := by
  unfold drive
  cases producer : signals.producer? with
  | none => exact ⟨result, rfl⟩
  | some signal =>
    cases signal with
    | aluOut =>
      obtain rfl := known producer
      exact ⟨_, rfl⟩
    | _ => exact ⟨result, rfl⟩

/-- The second phase replaces the second operand or leaves it alone. -/
theorem latch_withScratch (signals : SignalSet) (b result : Nibble) :
    (m.withScratch b result).latch signals =
      (m.latch signals).withScratch (if signals.contains bIn then m.bus.value else b) result :=
  rfl

/-- The third phase has nothing to do with the second operand. -/
theorem settle_withScratch (signals : SignalSet) (b result : Nibble) :
    (m.withScratch b result).settle signals = (m.settle signals).withScratch b result := by
  unfold settle
  cases signals.contains counterEnable <;> rfl

/-- A tick makes the same of the other parts if it finds the second operand where it computes, and
where it loads the second operand it makes the same of that, too. -/
theorem tick_withScratch {b : Nibble} (result : Nibble)
    (known : m.asserted.contains aluOut = true → b = m.registers.b) :
    ∃ b' result', (m.withScratch b result).tick = m.tick.withScratch b' result' ∧
      (m.halted = false → m.asserted.contains bIn = true → b' = m.tick.registers.b) := by
  cases running : m.halted with
  | true =>
    refine ⟨b, result, ?_, fun absurd => by cases absurd⟩
    rw [tick_of_halted running]
    exact tick_of_halted running
  | false =>
    have source : m.asserted.producer? = some aluOut → b = m.registers.b := fun producer =>
      known (List.find?_some producer)
    obtain ⟨result', driven⟩ := drive_withScratch result source
    refine ⟨if m.asserted.contains bIn then m.settled else b, result', ?_, fun _ loads => ?_⟩
    · -- the lines of the step depend on neither of the two parts
      have ticked : (m.withScratch b result).tick =
          ((((m.withScratch b result).drive m.asserted).latch m.asserted).settle
            m.asserted).advance m.lines := tick_eq_phases running
      rw [ticked, driven, latch_withScratch, settle_withScratch, tick_eq_phases running]
      rfl
    · have loaded : m.tick.registers.b = if m.Due bIn then m.settled else m.registers.b :=
        read_tick running (show Register.b ≠ .pc by decide)
      rw [loaded, if_pos loads, if_pos (contains_asserted.mp loads)]

/-! ## From the fetch on -/

/-- What two machines have in common once both have fetched the same opcode: they are equal except
for the second operand register and the last result, and where the next tick computes, the second
operand is the same, too. -/
structure Alike (m m' : Machine) : Prop where
  within : m.step.toNat < 8
  rest : ∃ b result, m' = m.withScratch b result
  operand : m.asserted.contains aluOut = true → m'.registers.b = m.registers.b

/-- A step that computes follows one of the same instruction that loads the second operand. -/
theorem bIn_of_aluOut_tick (running : m.halted = false) (within : m.step.toNat < 8)
    (computes : m.tick.asserted.contains aluOut = true) : m.asserted.contains bIn = true := by
  rw [asserted, Microcode.contains_signals] at computes ⊢
  simp only [due, decide_eq_true_eq, step_tick running] at computes ⊢
  have sixth : m.step.toNat = 5 := by omega
  rw [ir_tick running, if_neg (by omega)] at computes
  exact ⟨sixth, computes.2⟩

/-- Ticks keep two machines alike. -/
theorem Alike.tick (alike : Alike m m') : Alike m.tick m'.tick := by
  obtain ⟨b, result, rfl⟩ := alike.rest
  obtain ⟨b', result', ticked, loaded⟩ := tick_withScratch (b := b) result alike.operand
  refine ⟨step_after_lt alike.within 1, ⟨b', result', ticked⟩, fun computes => ?_⟩
  cases running : m.halted with
  | true =>
    rw [tick_of_halted running] at computes ⊢
    rw [tick_of_halted (m := m.withScratch b result) running]
    exact alike.operand computes
  | false =>
    rw [ticked]
    exact loaded running (bIn_of_aluOut_tick running alike.within computes)

theorem Alike.after (alike : Alike m m') (n : Nat) : Alike (after n m) (after n m') := by
  induction n generalizing m m' with
  | zero => exact alike
  | succ n ih => exact ih alike.tick

/-! ## The fetch -/

/-- A machine with the hidden parts of another. -/
def withHidden (m inner : Machine) : Machine :=
  { m with
    bus := inner.bus
    registers := { m.registers with
      mar := inner.registers.mar, ir := inner.registers.ir, b := inner.registers.b }
    alu := { m.alu with result := inner.alu.result }
    signals := inner.signals }

/-- Machines that look the same to a program and to the clock differ in the hidden parts only. -/
theorem eq_withHidden (seen : m'.visible = m.visible) (step : m'.step = m.step)
    (ticks : m'.ticks = m.ticks) : m' = m.withHidden m' := by
  obtain ⟨bus, ⟨pc, mar, ir, a, b, out⟩, memory, ⟨flags, result⟩, step', halted, signals, ticks'⟩ :=
    m'
  simp only [visible, Visible.mk.injEq] at seen
  obtain ⟨rfl, rfl, rfl, rfl, rfl, rfl⟩ := seen
  subst step ticks
  rfl

/-- The machine with the given opcode left in the instruction register, and the given contents
where only the computing opcodes look. -/
def withStale (m : Machine) (ir b result : Nibble) : Machine :=
  { m.withScratch b result with registers := { m.registers with ir := ir, b := b } }

section Fetch

attribute [local simp] tick_eq lines advance Microcode.fetch Microcode.stepCount withHidden
  withStale withScratch

variable (running : m.halted = false) (first : m.step = 0) (inner : Machine)

include running first

/-- The first tick addresses the opcode and the second counts. After either of them the opcode
register and the two parts for computing are left. -/
theorem after_withHidden_early {n : Nat} (early : n = 1 ∨ n = 2) :
    after n (m.withHidden inner) =
      (after n m).withStale inner.registers.ir inner.registers.b inner.alu.result := by
  rcases early with rfl | rfl
  · simp [after_succ, running, first]
  · simp [after_succ, running, first]

/-- The third tick loads the opcode. -/
theorem after_fetch_withHidden : after 3 (m.withHidden inner) =
    (after 3 m).withScratch inner.registers.b inner.alu.result := by
  simp [after_succ, running, first]

/-- Whatever the hidden parts were, the machines are alike once they have fetched the opcode. -/
theorem alike_after_fetch : Alike (after 3 m) (after 3 (m.withHidden inner)) := by
  have fourth : (after 3 m).step = 3 := by rw [after_fetch running first]
  refine ⟨by rw [fourth]; decide, ⟨_, _, after_fetch_withHidden running first inner⟩, ?_⟩
  intro computes
  rw [asserted, Microcode.contains_signals, fourth] at computes
  simp [due] at computes

end Fetch

/-! ## The main result -/

/-- **The hidden parts do not matter.** Take two machines at the first step of an instruction that a
program and the clock cannot tell apart, whatever their address, instruction and second operand
registers, buses, last results and last lines are. After any number of ticks they cannot be told
apart either. If their clocks were running, they also agree on the lines, the address register and
the bus from the first tick on, and on the instruction register from the third. -/
theorem after_hidden (m m' : Machine) (first : m.step = 0) (first' : m'.step = 0)
    (seen : m'.visible = m.visible) (ticks : m'.ticks = m.ticks) (n : Nat) :
    ((after n m').visible = (after n m).visible ∧ (after n m').step = (after n m).step ∧
        (after n m').ticks = (after n m).ticks) ∧
      (m.halted = false →
        (1 ≤ n → (after n m').signals = (after n m).signals ∧ (after n m').bus = (after n m).bus ∧
          (after n m').registers.mar = (after n m).registers.mar) ∧
        (3 ≤ n → (after n m').registers.ir = (after n m).registers.ir)) := by
  rw [eq_withHidden seen (first'.trans first.symm) ticks]
  cases running : m.halted with
  | true =>
    -- no tick is made, and the hidden parts stay what they were
    rw [after_of_halted running, after_of_halted (m := m.withHidden m') running]
    exact ⟨⟨rfl, rfl, rfl⟩, fun absurd => by cases absurd⟩
  | false =>
    match n with
    | 0 => exact ⟨⟨rfl, rfl, rfl⟩, fun _ => ⟨fun le => by omega, fun le => by omega⟩⟩
    | 1 | 2 =>
      rw [after_withHidden_early running first m' (by decide)]
      exact ⟨⟨rfl, rfl, rfl⟩, fun _ => ⟨fun _ => ⟨rfl, rfl, rfl⟩, fun le => by omega⟩⟩
    | n + 3 =>
      obtain ⟨b, result, later⟩ := ((alike_after_fetch running first m').after n).rest
      rw [Nat.add_comm, after_add, after_add, later]
      exact ⟨⟨rfl, rfl, rfl⟩, fun _ => ⟨fun _ => ⟨rfl, rfl, rfl⟩, fun _ => rfl⟩⟩

/-- A sum and a conditional jump in two machines that differ in all hidden parts. -/
theorem after_hidden_sum :
    let m : Machine :=
      { memory := Memory.blank.fill [2, 4, 7, 0, 9], registers := { a := 8 }, ticks := 3 }
    let m' : Machine :=
      { m with
        bus := ⟨6⟩
        registers := { m.registers with mar := 1, ir := 15, b := 13 }
        alu := { m.alu with result := 10 }
        signals := .ofList [halt] }
    m.step = 0 ∧ m'.step = 0 ∧ m'.visible = m.visible ∧ m'.ticks = m.ticks ∧
      (after 16 m').visible = (after 16 m).visible ∧
      (after 16 m').registers.ir = (after 16 m).registers.ir ∧
      (after 16 m).visible = { m.visible with pc := 0, a := 1, flags := { carry := true } } := by
  intro m m'
  obtain ⟨⟨seen, -, -⟩, inner⟩ := after_hidden m m' rfl rfl rfl rfl 16
  exact ⟨rfl, rfl, rfl, rfl, seen, (inner rfl).2 (by decide), by decide +kernel⟩

end NibbleComputer.Machine
