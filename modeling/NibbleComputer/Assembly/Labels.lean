import NibbleComputer.Assembly.Source

/-!
# Labels

- `Assembly.LabelTable`: addresses by label, in the order of the labels.
- `Assembly.LabelTable.insert`, `Assembly.LabelTable.find?`: definition and look-up; a later
  definition replaces an earlier one.
- `Assembly.collectLabels`: the labels of some lines with the addresses of what follows them.
-/

namespace NibbleComputer.Assembly

/-- The addresses of labels, sorted by label. -/
structure LabelTable where
  entries : List (String × Nat) := []
deriving DecidableEq

namespace LabelTable

/-- The entries with one more, in the place that keeps them sorted; an entry with the same label
is replaced. -/
def insertEntry (label : String) (address : Nat) : List (String × Nat) → List (String × Nat)
  | [] => [(label, address)]
  | entry :: others =>
    if label = entry.1 then (label, address) :: others
    else if label < entry.1 then (label, address) :: entry :: others
    else entry :: insertEntry label address others

/-- The table after a label has been defined. -/
def insert (table : LabelTable) (label : String) (address : Nat) : LabelTable :=
  ⟨insertEntry label address table.entries⟩

/-- The address of a label. -/
def find? (table : LabelTable) (label : String) : Option Nat :=
  table.entries.lookup label

/-- The labels in order, quoted and with their addresses, in braces. -/
def inspect (table : LabelTable) : String :=
  Text.braced (table.entries.map fun entry => Text.quoted entry.1 ++ ": " ++ Text.decimal entry.2)

theorem lookup_insertEntry (label other : String) (address : Nat) (entries : List (String × Nat)) :
    (insertEntry label address entries).lookup other =
      if other = label then some address else entries.lookup other := by
  induction entries with
  | nil =>
    by_cases h : other = label
    · simp [insertEntry, h]
    · simp [insertEntry, List.lookup_cons, h, beq_eq_false_iff_ne.mpr h]
  | cons entry entries ih =>
    obtain ⟨key, value⟩ := entry
    by_cases h : label = key
    · subst h
      by_cases ho : other = label
      · simp [insertEntry, ho]
      · simp [insertEntry, List.lookup_cons, ho, beq_eq_false_iff_ne.mpr ho]
    · by_cases ho : other = label
      · subst ho
        simp only [insertEntry, h, if_false]
        split
        · simp
        · simp [List.lookup_cons, beq_eq_false_iff_ne.mpr h, ih]
      · simp only [insertEntry, h, ho, if_false] at ih ⊢
        split
        · simp [List.lookup_cons, beq_eq_false_iff_ne.mpr ho]
        · simp [List.lookup_cons, ih]

/-- A definition determines the address of its own label and of no other. -/
@[simp] theorem find?_insert (table : LabelTable) (label other : String) (address : Nat) :
    (table.insert label address).find? other =
      if other = label then some address else table.find? other :=
  lookup_insertEntry label other address table.entries

@[simp] theorem find?_empty (label : String) : ({} : LabelTable).find? label = none := rfl

end LabelTable

/-- A label or an operand in the form in which they are compared. -/
def labelKey (word : List Char) : String :=
  String.ofList (Text.upper word)

/-- The table after the labels of some lines have been defined, the first line at the given
address. A label stands for the address of the next statement at or after it. -/
def collectLabels (address : Nat) (table : LabelTable) : List Line → LabelTable
  | [] => table
  | line :: others =>
    let table := match line.label? with
      | some label => table.insert (labelKey label) address
      | none => table
    collectLabels (address + line.width) table others

/-- The labels that some lines define. -/
def labels (lines : List Line) : LabelTable :=
  collectLabels 0 {} lines

end NibbleComputer.Assembly
