/-!
# Numerals

Natural numbers and integers as text.

- `Text.decimal`, `Text.hexadecimal`, `Text.binary`: the shortest numeral of a number, with
  upper-case digits.
- `Text.readDigits?`: the number that a nonempty run of digits denotes.
- `Text.readInt64?`: an optional sign and digits, within the signed 64-bit integers.
- `Text.readByte?`: an optional plus sign and digits, below 256.
-/

namespace NibbleComputer.Text

/-! ## Writing -/

/-- The decimal numeral of a number. -/
def decimal (n : Nat) : String :=
  String.ofList (Nat.toDigits 10 n)

/-- The hexadecimal numeral of a number, with upper-case digits. -/
def hexadecimal (n : Nat) : String :=
  String.ofList ((Nat.toDigits 16 n).map Char.toUpper)

/-- The binary numeral of a number. -/
def binary (n : Nat) : String :=
  String.ofList (Nat.toDigits 2 n)

/-! ## Reading -/

/-- The value of an ASCII digit in a base of at most sixteen; letters of either case stand for
ten and above. -/
def digitValue? (base : Nat) (c : Char) : Option Nat :=
  let value? :=
    if '0' ≤ c ∧ c ≤ '9' then some (c.toNat - '0'.toNat)
    else if 'a' ≤ c ∧ c ≤ 'f' then some (c.toNat - 'a'.toNat + 10)
    else if 'A' ≤ c ∧ c ≤ 'F' then some (c.toNat - 'A'.toNat + 10)
    else none
  value?.filter (· < base)

/-- The number with the given digit values, the most significant first. -/
def ofDigitValues (base : Nat) (values : List Nat) : Nat :=
  values.foldl (fun n value => base * n + value) 0

/-- The number that a run of digits denotes; there must be at least one digit, and nothing
else. Leading zeros are allowed. -/
def readDigits? (base : Nat) (digits : List Char) : Option Nat :=
  if digits.isEmpty then none
  else (digits.mapM (digitValue? base)).map (ofDigitValues base)

/-- The integer that an optional sign and digits denote. -/
def readSigned? (base : Nat) : List Char → Option Int
  | '+' :: digits => (readDigits? base digits).map Int.ofNat
  | '-' :: digits => (readDigits? base digits).map fun n => -Int.ofNat n
  | digits => (readDigits? base digits).map Int.ofNat

/-- The integer that an optional sign and digits denote, if it is a signed 64-bit integer. -/
def readInt64? (base : Nat) (text : List Char) : Option Int :=
  (readSigned? base text).filter fun i => Int64.minValue.toInt ≤ i && i ≤ Int64.maxValue.toInt

/-- The number that digits after an optional plus sign denote. -/
def readUnsigned? (base : Nat) : List Char → Option Nat
  | '+' :: digits => readDigits? base digits
  | digits => readDigits? base digits

/-- The number that digits after an optional plus sign denote, if it fits in a byte. -/
def readByte? (base : Nat) (text : List Char) : Option UInt8 :=
  ((readUnsigned? base text).filter (· < UInt8.size)).map UInt8.ofNat

/-- The number that digits after an optional plus sign denote, if it fits in 64 bits. -/
def readUInt64? (base : Nat) (text : List Char) : Option UInt64 :=
  ((readUnsigned? base text).filter (· < UInt64.size)).map UInt64.ofNat

end NibbleComputer.Text
