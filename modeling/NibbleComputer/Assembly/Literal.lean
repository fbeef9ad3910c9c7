import NibbleComputer.Nibble

/-!
# Literals

A number in assembly text is decimal, with an optional sign, or hexadecimal after `0x`, with an
optional sign after the mark. It must be a signed 64-bit integer and stands for the nibble
congruent to it.

- `Assembly.readLiteral?`: the nibble that a word denotes.
-/

namespace NibbleComputer.Assembly

/-- The integer that a literal denotes. -/
def readInteger? : List Char → Option Int
  | '0' :: 'x' :: digits => Text.readInt64? 16 digits
  | '0' :: 'X' :: digits => Text.readInt64? 16 digits
  | word => Text.readInt64? 10 word

/-- The nibble that a literal denotes. -/
def readLiteral? (word : List Char) : Option Nibble :=
  (readInteger? word).map Nibble.ofInt

end NibbleComputer.Assembly
