import NibbleComputer.Text.Numeral
import NibbleComputer.Text.Layout

/-!
# Four-bit words

The machine word is a nibble, one of the numbers 0 to 15. Sums and differences wrap around, as
those of `Fin 16` do.

- `Nibble`: the type, with its arithmetic modulo sixteen.
- `Nibble.ofNat`, `Nibble.ofByte`, `Nibble.ofInt`: the low four bits of a number.
- `Nibble.bit`: a single bit.
- `Nibble.decimal`, `Nibble.hex`, `Nibble.bits`, `Nibble.inspect`: its texts.
-/

namespace NibbleComputer

/-- A four-bit word, a number from 0 to 15 with arithmetic modulo sixteen. -/
abbrev Nibble := Fin 16

/-- There are numerals of nibbles, since their number is not zero. -/
instance instNeZeroSixteen : @NeZero Nat Zero.ofOfNat0 16 := ⟨by decide⟩

namespace Nibble

/-- The low four bits of a natural number. -/
def ofNat (n : Nat) : Nibble := Fin.ofNat 16 n

/-- The low four bits of a byte. -/
def ofByte (b : UInt8) : Nibble := ofNat b.toNat

/-- The nibble congruent to an integer modulo sixteen, which is also its low four bits in two's
complement. -/
def ofInt (i : Int) : Nibble := ⟨(i % 16).toNat, by omega⟩

/-- The nibble as a byte. -/
def toByte (n : Nibble) : UInt8 := UInt8.ofNat n.val

/-- All nibbles in ascending order. -/
def all : List Nibble := List.finRange 16

/-- The bit of weight `2 ^ i`; there are four of them, and those beyond are clear. -/
def bit (n : Nibble) (i : Nat) : Bool := n.val.testBit i

/-! ## Texts -/

/-- The decimal numeral. -/
def decimal (n : Nibble) : String := Text.decimal n.val

/-- The hexadecimal digit, in upper case. -/
def hex (n : Nibble) : String := Text.hexadecimal n.val

/-- The binary numeral without leading zeros. -/
def binary (n : Nibble) : String := Text.binary n.val

/-- The four bits, the most significant first. -/
def bits (n : Nibble) : String := Text.padStart 4 '0' n.binary

/-- Both notations together, as in `0xC (1100)`. -/
def inspect (n : Nibble) : String := "0x" ++ n.hex ++ " (" ++ n.bits ++ ")"

/-- A row of nibbles as hexadecimal digits. -/
def hexDigits (ns : List Nibble) : String := String.join (ns.map hex)

/-! ## Basic facts -/

@[simp] theorem val_ofNat (n : Nat) : (ofNat n).val = n % 16 := rfl

@[simp] theorem val_ofInt (i : Int) : ((ofInt i).val : Int) = i % 16 := by
  simp only [ofInt]
  omega

@[simp] theorem ofNat_val (n : Nibble) : ofNat n.val = n := by
  apply Fin.ext
  simp [Nat.mod_eq_of_lt n.isLt]

@[simp] theorem ofInt_natCast (n : Nat) : ofInt n = ofNat n := by
  apply Fin.ext
  simp only [ofInt, val_ofNat]
  omega

@[simp] theorem toNat_toByte (n : Nibble) : n.toByte.toNat = n.val := by
  simp only [toByte, UInt8.toNat_ofNat']
  omega

/-- A nibble survives the way through a byte. -/
@[simp] theorem ofByte_toByte (n : Nibble) : ofByte n.toByte = n := by
  simp [ofByte]

end Nibble

end NibbleComputer
