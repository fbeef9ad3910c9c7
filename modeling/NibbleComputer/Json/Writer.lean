import NibbleComputer.Json.Value

/-!
# Writing JSON

- `Json.Style`: all on one line, or a line for every item with an indentation of two.
- `Json.write`: the text of a value in a style.
-/

namespace NibbleComputer.Json

/-- How a value is laid out. -/
inductive Style where
  /-- Without any white space. -/
  | compact
  /-- Items and members on lines of their own. -/
  | pretty
deriving DecidableEq

/-- What separates the items of a list at some depth. -/
def Style.gap (depth : Nat) : Style → List Char
  | compact => []
  | pretty => '\n' :: List.replicate (2 * depth) ' '

/-- What stands between a key and its value. -/
def Style.colon : Style → List Char
  | compact => [':']
  | pretty => [':', ' ']

/-- A hexadecimal digit in lower case. -/
def lowerHexDigit (n : Nat) : Char :=
  Nat.digitChar (n % 16)

/-- A character inside quotes: quotes, backslashes and control characters are escaped. -/
def escape (c : Char) : List Char :=
  if c = '"' then ['\\', '"']
  else if c = '\\' then ['\\', '\\']
  else if 0x20 ≤ c.toNat then [c]
  else if c = '\n' then ['\\', 'n']
  else if c = '\r' then ['\\', 'r']
  else if c = '\t' then ['\\', 't']
  else if c = '\x08' then ['\\', 'b']
  else if c = '\x0c' then ['\\', 'f']
  else ['\\', 'u', '0', '0', lowerHexDigit (c.toNat / 16), lowerHexDigit c.toNat]

/-- A text between quotes. -/
def quote (text : String) : List Char :=
  '"' :: text.toList.flatMap escape ++ ['"']

/-- The decimal numeral of an integer. -/
def integer : Int → List Char
  | .ofNat n => Nat.toDigits 10 n
  | .negSucc n => '-' :: Nat.toDigits 10 (n + 1)

mutual

/-- The text of a value at some depth. -/
def writeValue (style : Style) (depth : Nat) : Json → List Char
  | .null => ['n', 'u', 'l', 'l']
  | .bool true => ['t', 'r', 'u', 'e']
  | .bool false => ['f', 'a', 'l', 's', 'e']
  | .int value => integer value
  | .numeral literal => literal.toList
  | .string value => quote value
  | .broken => ['"', '\\', 'u', 'd', '8', '0', '0', '"']
  | .array [] => ['[', ']']
  | .array (item :: items) =>
    '[' :: style.gap (depth + 1) ++ writeValue style (depth + 1) item ++
      writeItems style (depth + 1) items ++ style.gap depth ++ [']']
  | .object [] => ['\x7b', '\x7d']
  | .object (member :: members) =>
    '\x7b' :: style.gap (depth + 1) ++ writeMember style (depth + 1) member ++
      writeMembers style (depth + 1) members ++ style.gap depth ++ ['\x7d']

/-- The texts of the items after the first, each behind a comma. -/
def writeItems (style : Style) (depth : Nat) : List Json → List Char
  | [] => []
  | item :: items =>
    ',' :: style.gap depth ++ writeValue style depth item ++ writeItems style depth items

/-- A key and its value. -/
def writeMember (style : Style) (depth : Nat) : String × Json → List Char
  | (key, value) => quote key ++ style.colon ++ writeValue style depth value

/-- The texts of the members after the first, each behind a comma. -/
def writeMembers (style : Style) (depth : Nat) : List (String × Json) → List Char
  | [] => []
  | member :: members =>
    ',' :: style.gap depth ++ writeMember style depth member ++ writeMembers style depth members

end

/-- The text of a value. -/
def write (style : Style) (value : Json) : String :=
  String.ofList (writeValue style 0 value)

@[simp] theorem toList_write (style : Style) (value : Json) :
    (value.write style).toList = writeValue style 0 value := by
  simp [write]

end NibbleComputer.Json
