import NibbleComputer.Json.Value
import NibbleComputer.Text.Numeral

/-!
# Reading JSON

A text is one value, with white space around its parts, and nothing else.

- `Json.readNumber?`: the number that a literal denotes.
- `Json.readString`: the rest of a text in quotes, with half a character in it or not.
- `Json.readValue`: a value at the start of a text, and the text after it.
- `Json.read?`, `Json.parse?`: the value that a whole text denotes.
-/

namespace NibbleComputer.Json

/-- White space between the parts of a text. -/
def isSpace (c : Char) : Bool :=
  c == ' ' || c == '\n' || c == '\r' || c == '\t'

/-- A text without the white space in front. -/
def skipSpace (text : List Char) : List Char :=
  text.dropWhile isSpace

/-! ## Numbers -/

/-- Whether a character may occur in a number. -/
def isNumberChar (c : Char) : Bool :=
  c.isDigit || c == '-' || c == '+' || c == '.' || c == 'e' || c == 'E'

/-- Whether digits are a whole part: at least one, and no zero in front of others. -/
def isWhole : List Char → Bool
  | [] => false
  | ['0'] => true
  | c :: rest => c != '0' && (c :: rest).all Char.isDigit

/-- Whether some characters are digits, at least one. -/
def isDigits (digits : List Char) : Bool :=
  !digits.isEmpty && digits.all Char.isDigit

/-- Whether a text is an exponent, or nothing. -/
def isExponent : List Char → Bool
  | [] => true
  | c :: rest =>
    (c == 'e' || c == 'E') &&
      match rest with
      | '+' :: digits => isDigits digits
      | '-' :: digits => isDigits digits
      | digits => isDigits digits

/-- Whether a text is what may follow the whole part of a number. -/
def isFraction : List Char → Bool
  | '.' :: rest =>
    isDigits (rest.takeWhile Char.isDigit) && isExponent (rest.dropWhile Char.isDigit)
  | rest => isExponent rest

/-- The number that a literal denotes. -/
def readNumber? (literal : List Char) : Option Json :=
  let negative := literal.head? == some '-'
  let body := if negative then literal.tail else literal
  let whole := body.takeWhile Char.isDigit
  let rest := body.dropWhile Char.isDigit
  if !isWhole whole || !isFraction rest then none
  else if rest.isEmpty then
    match Text.readDigits? 10 whole with
    | none => none
    | some n =>
      if !negative then some (.int n)
      else if n = 0 then some (.numeral "-0")
      else some (.int (-n))
  else some (.numeral (String.ofList literal))

/-! ## Texts in quotes -/

/-- The code unit that four hexadecimal digits denote. -/
def codeUnit? (a b c d : Char) : Option Nat :=
  Text.readDigits? 16 [a, b, c, d]

/-- The character of a short escape. -/
def shortEscape? (c : Char) : Option Char :=
  [('"', '"'), ('\\', '\\'), ('/', '/'), ('b', '\x08'), ('f', '\x0c'), ('n', '\n'), ('r', '\r'),
   ('t', '\t')].lookup c

/-- Whether a code unit is the second half of a character beyond the first plane. -/
def isLow (unit : Nat) : Bool :=
  0xDC00 ≤ unit && unit < 0xE000

/-- An item in front of others that have been read. Without the item there are no others either,
but the text behind them stays. -/
def prepend? {α : Type} (item? : Option α) (read : Option (List α) × List Char) :
    Option (List α) × List Char :=
  (item?.bind fun item => read.1.map (item :: ·), read.2)

/-- The rest of a text in quotes after the opening quote, and what follows the closing one. A
character beyond the first plane may be escaped as a pair of halves; with half a character the text
is no text. Control characters are refused. -/
def readString : List Char → Option (Option (List Char) × List Char)
  | [] => none
  | '"' :: rest => some (some [], rest)
  | '\\' :: 'u' :: a :: b :: c :: d :: rest =>
    match codeUnit? a b c d with
    | none => none
    | some unit =>
      if 0xD800 ≤ unit && unit < 0xDC00 then
        match rest with
        | '\\' :: 'u' :: e :: f :: g :: h :: after =>
          match (codeUnit? e f g h).filter isLow with
          | none =>
            (readString ('\\' :: 'u' :: e :: f :: g :: h :: after)).map (prepend? none)
          | some low =>
            let code := 0x10000 + (unit - 0xD800) * 0x400 + (low - 0xDC00)
            (readString after).map (prepend? (some (Char.ofNat code)))
        | rest => (readString rest).map (prepend? none)
      else if isLow unit then (readString rest).map (prepend? none)
      else (readString rest).map (prepend? (some (Char.ofNat unit)))
  | '\\' :: c :: rest =>
    match shortEscape? c with
    | none => none
    | some char => (readString rest).map (prepend? (some char))
  | c :: rest =>
    if c.toNat < 0x20 || c == '\\' then none
    else (readString rest).map (prepend? (some c))

/-- The value of a text in quotes. -/
def ofText : Option (List Char) → Json
  | some text => .string (String.ofList text)
  | none => .broken

/-- The value of an object. -/
def ofMembers : Option (List (String × Json)) → Json
  | some members => .object members
  | none => .broken

/-! ## Values -/

/-- The text after an expected piece. -/
def skip? (expected text : List Char) : Option (List Char) :=
  if expected.isPrefixOf text then some (text.drop expected.length) else none

mutual

/-- A value at the start of a text, and the text after it. The first argument bounds the number
of steps. -/
def readValue : Nat → List Char → Option (Json × List Char)
  | 0, _ => none
  | steps + 1, text =>
    match skipSpace text with
    | [] => none
    | '"' :: rest => (readString rest).map fun read => (ofText read.1, read.2)
    | '[' :: rest =>
      match skipSpace rest with
      | ']' :: rest => some (.array [], rest)
      | _ => (readItems steps rest).map fun read => (.array read.1, read.2)
    | '\x7b' :: rest =>
      match skipSpace rest with
      | '\x7d' :: rest => some (.object [], rest)
      | _ => (readMembers steps rest).map fun read => (ofMembers read.1, read.2)
    | 'n' :: rest => (skip? ['u', 'l', 'l'] rest).map fun rest => (.null, rest)
    | 't' :: rest => (skip? ['r', 'u', 'e'] rest).map fun rest => (.bool true, rest)
    | 'f' :: rest => (skip? ['a', 'l', 's', 'e'] rest).map fun rest => (.bool false, rest)
    | text =>
      (readNumber? (text.takeWhile isNumberChar)).map fun number =>
        (number, text.dropWhile isNumberChar)

/-- The items of a list up to its closing bracket, at least one. -/
def readItems : Nat → List Char → Option (List Json × List Char)
  | 0, _ => none
  | steps + 1, text =>
    match readValue steps text with
    | none => none
    | some (item, rest) =>
      match skipSpace rest with
      | ',' :: rest => (readItems steps rest).map fun read => (item :: read.1, read.2)
      | ']' :: rest => some ([item], rest)
      | _ => none

/-- The members of an object up to its closing brace, at least one. -/
def readMembers : Nat → List Char → Option (Option (List (String × Json)) × List Char)
  | 0, _ => none
  | steps + 1, text =>
    match skipSpace text with
    | '"' :: rest =>
      match readString rest with
      | none => none
      | some (key, rest) =>
        match skipSpace rest with
        | ':' :: rest =>
          match readValue steps rest with
          | none => none
          | some (value, rest) =>
            let member? := key.map fun key => (String.ofList key, value)
            match skipSpace rest with
            | ',' :: rest => (readMembers steps rest).map (prepend? member?)
            | '\x7d' :: rest => some (prepend? member? (some [], rest))
            | _ => none
        | _ => none
    | _ => none

end

/-- The value that some characters denote as a whole. A character takes at most two steps, one
for a list and one for its first item. -/
def read? (text : List Char) : Option Json :=
  match readValue (2 * text.length + 1) text with
  | some (value, rest) => if (skipSpace rest).isEmpty then some value else none
  | none => none

/-- The value that a whole text denotes. -/
def parse? (text : String) : Option Json :=
  read? text.toList

end NibbleComputer.Json
