import Mathlib.Algebra.GroupWithZero.Nat
import NibbleComputer.Assembly.Labels
import NibbleComputer.Proofs.Assembly.Retained

/-!
# Start addresses

The statements of a program lie one after the other, each as wide as its mnemonic says, so the
start address of a statement is the width of those before it. The first pass gives a label the
address reached so far; here that is the start address of the first statement at or after the
label's last definition.

- `Assembly.size`, `Assembly.start`: the width of some statements, the address of one of them.
- `Assembly.Line.Defines`, `Assembly.LastDefinition`: where a label is defined.
- `Assembly.find?_labels`: the address of a label that is defined somewhere.
- `Assembly.find?_labels_eq_none`: no other label has one.
-/

namespace NibbleComputer.Assembly

/-- The number of nibbles that some statements take together. -/
def size (statements : List Statement) : Nat :=
  (statements.map Statement.width).sum

/-- The start address of the statement at a position: the width of the statements before it. At
the end of the list it is the address after the last statement. -/
def start (statements : List Statement) (position : Nat) : Nat :=
  size (statements.take position)

@[simp] theorem size_nil : size [] = 0 := rfl

@[simp] theorem size_cons (statement : Statement) (others : List Statement) :
    size (statement :: others) = statement.width + size others := rfl

@[simp] theorem size_append (first second : List Statement) :
    size (first ++ second) = size first + size second := by
  simp [size]

@[simp] theorem start_cons_succ (statement : Statement) (others : List Statement)
    (position : Nat) :
    start (statement :: others) (position + 1) = statement.width + start others position := rfl

theorem start_length (statements : List Statement) :
    start statements statements.length = size statements := by
  rw [start, List.take_length]

theorem width_pos (statement : Statement) : 0 < statement.width := by
  unfold Statement.width wordWidth
  split
  · next opcode _ => exact opcode.width_pos
  · exact Nat.one_pos

/-- The next statement starts where a statement ends. -/
theorem start_succ (statements : List Statement) {position : Nat}
    (h : position < statements.length) :
    start statements (position + 1) = start statements position + statements[position].width := by
  rw [start, List.take_succ_eq_append_getElem h, size_append]
  simp [start]

theorem start_le_size (statements : List Statement) (position : Nat) :
    start statements position ≤ size statements := by
  calc start statements position
      ≤ size (statements.take position) + size (statements.drop position) := Nat.le_add_right ..
    _ = size statements := by rw [← size_append, List.take_append_drop]

/-! ## Definitions of labels -/

/-- A line defines the label that compares as the given key. -/
def Line.Defines (line : Line) (key : String) : Prop :=
  line.label?.map labelKey = some key

instance (line : Line) (key : String) : Decidable (line.Defines key) :=
  inferInstanceAs (Decidable (_ = _))

/-- The line is the last of some lines to define a label. -/
def LastDefinition (lines : List Line) (line : Line) (key : String) : Prop :=
  line ∈ lines ∧ line.Defines key ∧
    ∀ other ∈ lines, other.Defines key → other.number ≤ line.number

instance (lines : List Line) (line : Line) (key : String) :
    Decidable (LastDefinition lines line key) :=
  inferInstanceAs (Decidable (_ ∧ _ ∧ _))

/-- Of the members of a list that have a property there is a last one. -/
theorem exists_last {α : Type} {p : α → Prop} {list : List α} (h : ∃ a ∈ list, p a) :
    ∃ before a after, list = before ++ a :: after ∧ p a ∧ ∀ b ∈ after, ¬ p b := by
  induction list with
  | nil => obtain ⟨a, mem, -⟩ := h; cases mem
  | cons c list ih =>
    -- the head is the last one only if the tail has none
    by_cases rest : ∃ a ∈ list, p a
    · obtain ⟨before, a, after, rfl, ha, none⟩ := ih rest
      exact ⟨c :: before, a, after, rfl, ha, none⟩
    · obtain ⟨a, mem, ha⟩ := h
      rcases List.mem_cons.mp mem with rfl | mem
      · exact ⟨[], a, list, rfl, ha, fun b hb pb => rest ⟨b, hb, pb⟩⟩
      · exact absurd ⟨a, mem, ha⟩ rest

/-! ## The first pass -/

theorem statements_append (first second : List Line) :
    statements (first ++ second) = statements first ++ statements second :=
  List.filterMap_append

/-- The width of some lines is that of their statements. -/
theorem sum_width (lines : List Line) : (lines.map Line.width).sum = size (statements lines) := by
  induction lines with
  | nil => rfl
  | cons line lines ih =>
    have one : size (statements [line]) = line.width := by
      rw [Line.width_eq]
      show size ([line].filterMap Line.statement?) = _
      cases h : line.statement? <;> simp [h]
    rw [List.map_cons, List.sum_cons, ih, ← List.singleton_append, statements_append, size_append,
      one]

/-- The first pass goes on at the address that it has reached. -/
theorem collectLabels_append (first second : List Line) (address : Nat) (table : LabelTable) :
    collectLabels address table (first ++ second) =
      collectLabels (address + size (statements first)) (collectLabels address table first)
        second := by
  rw [← sum_width]
  induction first generalizing address table with
  | nil => rfl
  | cons line first ih =>
    rw [List.cons_append, collectLabels, collectLabels, ih, List.map_cons, List.sum_cons,
      Nat.add_assoc]

/-- Lines that do not define a label leave it as it is. -/
theorem find?_collectLabels_of_not_defines {lines : List Line} {key : String}
    (h : ∀ line ∈ lines, ¬ line.Defines key) (address : Nat) (table : LabelTable) :
    (collectLabels address table lines).find? key = table.find? key := by
  induction lines generalizing address table with
  | nil => rfl
  | cons line lines ih =>
    rw [collectLabels, ih fun other mem => h other (List.mem_cons_of_mem _ mem)]
    cases named : line.label? with
    | none => rfl
    | some label =>
      have ne : key ≠ labelKey label := fun same =>
        h line (List.mem_cons_self ..) (by rw [Line.Defines, named, same]; rfl)
      rw [LabelTable.find?_insert, if_neg ne]

/-- The last definition of a label determines its address. -/
theorem find?_collectLabels_append {line : Line} {after : List Line} {key : String}
    (defines : line.Defines key) (none : ∀ other ∈ after, ¬ other.Defines key)
    (before : List Line) (address : Nat) (table : LabelTable) :
    (collectLabels address table (before ++ line :: after)).find? key =
      some (address + size (statements before)) := by
  obtain ⟨label, named, rfl⟩ := Option.map_eq_some_iff.mp defines
  rw [collectLabels_append, collectLabels, named, find?_collectLabels_of_not_defines none,
    LabelTable.find?_insert, if_pos rfl]

/-- A label that no line defines has no address. -/
theorem find?_labels_eq_none {lines : List Line} {key : String}
    (h : ∀ line ∈ lines, ¬ line.Defines key) : (labels lines).find? key = none :=
  find?_collectLabels_of_not_defines h 0 {}

/-! ## Addresses by line number -/

/-- The position of the first statement at or after a line. -/
def positionFrom (statements : List Statement) (number : Nat) : Nat :=
  statements.findIdx fun statement => decide (number ≤ statement.line)

/-- In a numbered source, the statements before a line are those in front of the first at or
after it. -/
theorem positionFrom_append {before after : List Line} {line : Line}
    (ordered : (before ++ line :: after).Pairwise (·.number < ·.number)) :
    positionFrom (statements (before ++ line :: after)) line.number =
      (statements before).length := by
  obtain ⟨-, ordered', lt⟩ := List.pairwise_append.mp ordered
  -- the numbers from the line on are no smaller than its own, those before it are
  have later : ∀ other ∈ line :: after, line.number ≤ other.number := by
    intro other mem
    rcases List.mem_cons.mp mem with rfl | mem
    · exact Nat.le_refl _
    · exact Nat.le_of_lt (List.rel_of_pairwise_cons ordered' mem)
  have early : (statements before).findIdx (fun s => decide (line.number ≤ s.line)) =
      (statements before).length := by
    refine List.findIdx_eq_length.mpr fun statement mem => ?_
    obtain ⟨other, hother, read⟩ := List.mem_filterMap.mp mem
    have := lt other hother line (List.mem_cons_self ..)
    rw [line_statement? read]
    simpa using this
  have late : (statements (line :: after)).findIdx (fun s => decide (line.number ≤ s.line)) = 0 := by
    cases h : statements (line :: after) with
    | nil => rfl
    | cons statement others =>
      have mem : statement ∈ statements (line :: after) := h ▸ List.mem_cons_self ..
      obtain ⟨other, hother, read⟩ := List.mem_filterMap.mp mem
      have := later other hother
      rw [← line_statement? read] at this
      simp [List.findIdx_cons, this]
  rw [positionFrom, statements_append, List.findIdx_append, early, late,
    if_neg (Nat.lt_irrefl _), Nat.zero_add]

/-- A label stands for the start address of the first statement at or after its last definition,
or for the address after all of them. -/
theorem find?_labels {lines : List Line} {line : Line} {key : String}
    (ordered : lines.Pairwise (·.number < ·.number)) (last : LastDefinition lines line key) :
    (labels lines).find? key =
      some (start (statements lines) (positionFrom (statements lines) line.number)) := by
  obtain ⟨mem, defines, latest⟩ := last
  -- what stands after the line has larger numbers and does not define the label again
  obtain ⟨before, after, rfl⟩ := List.append_of_mem mem
  have none : ∀ other ∈ after, ¬ other.Defines key := by
    intro other hother again
    have := latest other (by simp [hother]) again
    have := List.rel_of_pairwise_cons (List.pairwise_append.mp ordered).2.1 hother
    omega
  rw [labels, find?_collectLabels_append defines none, positionFrom_append ordered, start,
    Nat.zero_add, statements_append, List.take_left]

/-- A label that some line defines has a last definition. -/
theorem exists_lastDefinition {lines : List Line} {line : Line} {key : String}
    (ordered : lines.Pairwise (·.number < ·.number)) (mem : line ∈ lines)
    (defines : line.Defines key) : ∃ last, LastDefinition lines last key := by
  obtain ⟨before, last, after, rfl, hlast, none⟩ := exists_last
    (p := fun line : Line => line.Defines key) ⟨line, mem, defines⟩
  refine ⟨last, by simp, hlast, fun other hother again => ?_⟩
  rcases List.mem_append.mp hother with early | late
  · have := (List.pairwise_append.mp ordered).2.2 other early last (List.mem_cons_self ..)
    exact Nat.le_of_lt this
  · rcases List.mem_cons.mp late with rfl | late
    · exact Nat.le_refl _
    · exact absurd again (none other late)

end NibbleComputer.Assembly
