import NibbleComputer.Log
import NibbleComputer.Machine.Basic

/-!
# Events of a machine

What a machine reports to a log while it works.

- `Machine.Event`, `Machine.Event.message`: the events and their messages.
- `Machine.tickEvents`: the events of one tick.
- `Machine.runEvents`, `Machine.instructionEvents`: the events of longer runs, tick by tick.
-/

namespace NibbleComputer.Machine

/-- What a machine reports. -/
inductive Event where
  /-- A tick carried out a step with the given opcode nibble and lines. -/
  | tick (step : UInt8) (ir : Nibble) (signals : SignalSet)
  /-- The machine has halted after some ticks, with a value in the output register. -/
  | halted (ticks : UInt64) (out : Nibble)
  /-- The machine has been reset. -/
  | reset
  /-- A program of some words has been loaded. -/
  | loaded (words : Nat)
deriving DecidableEq

/-- The message of an event. -/
def Event.message : Event → Log.Message
  | tick step ir signals =>
    ⟨.trace, "T" ++ toString step ++ " IR=" ++ ir.hex ++ " " ++ signals.display⟩
  | halted ticks out =>
    ⟨.debug, "halted after " ++ toString ticks ++ " ticks, OUT=" ++ out.decimal⟩
  | reset => ⟨.debug, "computer reset"⟩
  | loaded words => ⟨.debug, "loaded " ++ Text.decimal words ++ " words into RAM"⟩

/-- The events of one tick: the step carried out, and the halt if it stopped the clock. -/
def tickEvents (m : Machine) : List Event :=
  if m.halted then []
  else
    let step := .tick m.step m.registers.ir m.asserted
    if m.asserted.contains .halt then [step, .halted (m.ticks + 1) m.tick.registers.out]
    else [step]

/-- The events of a number of ticks. -/
def afterEvents : Nat → Machine → List Event
  | 0, _ => []
  | n + 1, m => m.tickEvents ++ afterEvents n m.tick

/-- The events of a run up to a limit or to the halt. -/
def runEvents : (limit : Nat) → Machine → List Event
  | 0, _ => []
  | limit + 1, m => if m.halted then [] else m.tickEvents ++ runEvents limit m.tick

/-- The events of a run up to the first step of an instruction or to the halt. -/
def finishEvents : (limit : Nat) → Machine → List Event
  | 0, _ => []
  | limit + 1, m =>
    let next := m.tick
    if next.halted || next.step == 0 then m.tickEvents
    else m.tickEvents ++ finishEvents limit next

/-- The events of the current instruction. -/
def instructionEvents (m : Machine) : List Event :=
  finishEvents Microcode.stepCount.toNat m

/-- A limited run reports what its ticks report. -/
theorem runEvents_eq_afterEvents (limit : Nat) (m : Machine) :
    runEvents limit m = afterEvents limit m := by
  induction limit generalizing m with
  | zero => rfl
  | succ limit ih =>
    by_cases h : m.halted = true
    · have quiet : ∀ n, afterEvents n m = [] := by
        intro n
        induction n with
        | zero => rfl
        | succ n ihn => simp [afterEvents, tickEvents, h, ihn]
      rw [quiet]
      simp [runEvents, h]
    · simp [runEvents, afterEvents, h, ih]

end NibbleComputer.Machine
