/-!
# JSON values

- `Json`: a value. An integer literal and any other numeral stay apart, because what counts
  items or bits must be written as an integer.
- `Json.bool?`, `Json.natBelow?`, `Json.items?`: the content of a value of a given kind.
- `Json.fields?`: the values of the named fields of an object.
-/

namespace NibbleComputer

/-- A JSON value. -/
inductive Json where
  | null
  | bool (value : Bool)
  /-- A number written as an integer; the literal `-0` is not one. -/
  | int (value : Int)
  /-- Any other number, as written. -/
  | numeral (literal : String)
  | string (value : String)
  /-- A text in quotes that names half a character, or an object with such a key. Nothing is read
  from it, but it may stand where nothing is asked for. -/
  | broken
  | array (items : List Json)
  /-- The members in the order of the text; a key may occur more than once. -/
  | object (members : List (String × Json))

namespace Json

/-- A number of items as a value. -/
def ofNat (n : Nat) : Json := .int n

/-- The truth value. -/
def bool? : Json → Option Bool
  | .bool value => some value
  | _ => none

/-- The text. -/
def string? : Json → Option String
  | .string value => some value
  | _ => none

/-- The number, if it is an integer from zero up to but not including the bound. -/
def natBelow? (bound : Nat) : Json → Option Nat
  | .int (.ofNat n) => if n < bound then some n else none
  | _ => none

/-- The number, if it fits in a byte. -/
def byte? (value : Json) : Option UInt8 :=
  (value.natBelow? UInt8.size).map UInt8.ofNat

/-- The number, if it fits in 64 bits. -/
def uint64? (value : Json) : Option UInt64 :=
  (value.natBelow? UInt64.size).map UInt64.ofNat

/-- The items of a list. -/
def items? : Json → Option (List Json)
  | .array items => some items
  | _ => none

/-- The value of the only member with the given key. -/
def member? (members : List (String × Json)) (key : String) : Option Json :=
  match members.filter fun member => member.1 == key with
  | [member] => some member.2
  | _ => none

/-- The values of the fields with the given names: of an object that has each of them once, and
possibly others; or of a list that has them and nothing else, in order. -/
def fields? (names : List String) : Json → Option (List Json)
  | .object members => names.mapM (member? members)
  | .array items => if items.length = names.length then some items else none
  | _ => none

/-- The name that stands for itself, as a text or as the only key of an object with no value. -/
def name? : Json → Option String
  | .string name => some name
  | .object [(name, .null)] => some name
  | _ => none

end Json

end NibbleComputer
