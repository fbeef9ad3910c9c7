import NibbleComputer.Nibble

/-!
# The arithmetic unit

Sum and difference of two nibbles, with a zero and a carry flag. The unit keeps its last result
and the flags of it until it computes again.

- `Flags`, `Alu`: the flags, and the unit with its last result.
- `Alu.compute`: the unit after a computation.
- `Alu.compute_add`, `Alu.compute_sub`: the result of a sum and of a difference, with its flags.
-/

namespace NibbleComputer

/-- The flags of a computation. -/
structure Flags where
  /-- The result was zero. -/
  zero : Bool := false
  /-- The sum exceeded 15, or the difference was negative. -/
  carry : Bool := false
deriving DecidableEq

/-- The arithmetic unit with its last result. -/
structure Alu where
  flags : Flags := {}
  result : Nibble := 0
deriving DecidableEq

/-- The fields in notation. -/
def Flags.inspect (flags : Flags) : String :=
  Text.record "Flags" [("zero", toString flags.zero), ("carry", toString flags.carry)]

namespace Alu

/-- The unit after it has added `b` to `a` or subtracted `b` from `a`. -/
def compute (a b : Nibble) (subtract : Bool) : Alu :=
  if subtract then
    { result := a - b, flags := { zero := a - b == 0, carry := decide (a < b) } }
  else
    { result := a + b, flags := { zero := a + b == 0, carry := decide (15 < a.val + b.val) } }

/-- The fields in notation. -/
def inspect (alu : Alu) : String :=
  Text.record "Alu" [("flags", alu.flags.inspect), ("result", alu.result.inspect)]

/-- The carry of a sum tells whether it left the range. -/
theorem compute_add (a b : Nibble) : compute a b false =
    { result := a + b
      flags := { zero := a + b == 0, carry := decide (15 < a.val + b.val) } } := rfl

/-- The carry of a difference tells whether it borrowed. -/
theorem compute_sub (a b : Nibble) : compute a b true =
    { result := a - b, flags := { zero := a - b == 0, carry := decide (a.val < b.val) } } := rfl

@[simp] theorem zero_compute (a b : Nibble) (subtract : Bool) :
    (compute a b subtract).flags.zero = ((compute a b subtract).result == 0) := by
  cases subtract <;> rfl

end Alu

end NibbleComputer
