/-!
# Columns and records

- `Text.padStart`, `Text.padEnd`: a text brought to a width by fill characters before or after
  it; a longer text stays as it is.
- `Text.record`: the notation `Name { field: value, … }`.
- `Text.braced`: a list of entries in braces.
-/

namespace NibbleComputer.Text

/-- A text with fill characters before it, up to the given width. -/
def padStart (width : Nat) (fill : Char) (text : String) : String :=
  String.ofList (text.toList.leftpad width fill)

/-- A text with spaces after it, up to the given width. -/
def padEnd (width : Nat) (text : String) : String :=
  String.ofList (text.toList.rightpad width ' ')

/-- The entries between braces, separated by commas. -/
def braced (entries : List String) : String :=
  "\x7b" ++ ", ".intercalate entries ++ "\x7d"

/-- A text between double quotes. -/
def quoted (text : String) : String :=
  "\"" ++ text ++ "\""

/-- A record with its name and its fields in order. -/
def record (name : String) (fields : List (String × String)) : String :=
  name ++ " \x7b " ++ ", ".intercalate (fields.map fun field => field.1 ++ ": " ++ field.2) ++
    " \x7d"

/-- One line for every text, each ended by a line feed. -/
def unlines (texts : List String) : String :=
  String.ofList (texts.flatMap fun text => text.toList ++ ['\n'])

@[simp] theorem toList_padEnd (width : Nat) (text : String) :
    (padEnd width text).toList = text.toList ++ List.replicate (width - text.toList.length) ' ' := by
  simp [padEnd, List.rightpad]

@[simp] theorem toList_unlines (texts : List String) :
    (unlines texts).toList = texts.flatMap fun text => text.toList ++ ['\n'] := by
  simp [unlines]

end NibbleComputer.Text
