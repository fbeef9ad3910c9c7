import NibbleComputer.Machine.Event

/-!
# Operations on a machine

Everything that can be done to a machine from outside, as data, so that a history of a machine
is a list.

- `Machine.Operation`: the operations.
- `Machine.Operation.apply`: the machine afterwards and the reply.
- `Machine.Operation.events`: what the operation reports to a log.
- `Machine.perform`: a history, with the replies in order; `Machine.log` its events.
-/

namespace NibbleComputer.Machine

/-- What can be done to a machine. -/
inductive Operation where
  /-- One tick. -/
  | tick
  /-- The ticks up to the end of the current instruction. -/
  | instruction
  /-- At most so many ticks. -/
  | run (limit : Nat)
  /-- Everything but memory to zero. -/
  | reset
  /-- A program into memory. -/
  | load (words : List UInt8)
  /-- A value into a memory cell. -/
  | write (address value : Nibble)
  /-- Every memory cell to zero. -/
  | clear
deriving DecidableEq

/-- What an operation answers. -/
inductive Reply where
  /-- Nothing. -/
  | done
  /-- The number of ticks taken. -/
  | taken (ticks : UInt64)
  /-- A program was refused. -/
  | refused (error : MemoryError)
deriving DecidableEq

namespace Operation

/-- The machine after an operation, and the reply. A refused program leaves the machine as it
was. -/
def apply (m : Machine) : Operation → Machine × Reply
  | tick => (m.tick, .done)
  | instruction => let next := m.instruction; (next, .taken (next.ticks - m.ticks))
  | run limit => let next := m.run limit; (next, .taken (next.ticks - m.ticks))
  | reset => (m.reset, .done)
  | load words =>
    match m.load words with
    | .ok next => (next, .done)
    | .error error => (m, .refused error)
  | write address value => ({ m with memory := m.memory.write address value }, .done)
  | clear => ({ m with memory := .blank }, .done)

/-- What an operation reports to a log. -/
def events (m : Machine) : Operation → List Event
  | tick => m.tickEvents
  | instruction => m.instructionEvents
  | run limit => m.runEvents limit
  | reset => [.reset]
  | load words => match m.load words with
    | .ok _ => [.loaded words.length]
    | .error _ => []
  | write _ _ | clear => []

end Operation

/-- The machine after a history of operations, with the replies in order. -/
def perform (m : Machine) : List Operation → Machine × List Reply
  | [] => (m, [])
  | operation :: others =>
    let step := operation.apply m
    let rest := perform step.1 others
    (rest.1, step.2 :: rest.2)

/-- What a history of operations reports to a log. -/
def log (m : Machine) : List Operation → List Event
  | [] => []
  | operation :: others => operation.events m ++ log (operation.apply m).1 others

end NibbleComputer.Machine
