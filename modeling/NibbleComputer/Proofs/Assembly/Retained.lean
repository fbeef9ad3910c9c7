import NibbleComputer.Assembly.Source
import NibbleComputer.Proofs.Text.Words

/-!
# Retained lines

A line of the source is retained if text is left on it once its comment, the blanks around it and
its label are gone. The statements of a program are the first two words of its retained lines.

- `Assembly.remainder`: what is left of a line.
- `Assembly.retained`: the retained lines of a source, as statements.
- `Assembly.statements_sourceLines`: they are the statements that the assembler works on.
- `Assembly.readLines`: lines of text with numbers from a number on.
- `Assembly.pairwise_number`: the lines of a source are numbered in order.
-/

namespace NibbleComputer.Assembly

/-- The text of a line without its comment, its label and the blanks around both. -/
def remainder (line : List Char) : List Char :=
  let text := Text.trim (stripComment line)
  match splitLabel? text with
  | some (_, rest) => Text.trim rest
  | none => text

/-- The statement that a retained line holds: its first two words. -/
def statementOf (text : List Char) (number : Nat) : Statement where
  line := number
  mnemonic := (Text.words text).headD []
  operand? := (Text.words text)[1]?

/-- The retained lines of a source in order, as statements. -/
def retained (source : List Char) : List Statement :=
  (Text.numberedLines source).filterMap fun (line, number) =>
    if remainder line = [] then none else some (statementOf (remainder line) number)

/-! ## Statements are retained lines -/

/-- The words of a line are those of what is left of it. -/
theorem words_read (line : List Char) (number : Nat) :
    (Line.read line number).words = Text.words (remainder line) := by
  unfold Line.read remainder
  dsimp only
  cases splitLabel? (Text.trim (stripComment line)) with
  | none => rfl
  | some parts => exact (Text.words_trim parts.2).symm

theorem number_read (line : List Char) (number : Nat) :
    (Line.read line number).number = number := by
  unfold Line.read
  dsimp only
  split <;> rfl

/-- Something is left of a line only if it has a word. -/
theorem remainder_eq_nil_iff {line : List Char} :
    remainder line = [] ↔ Text.words (remainder line) = [] := by
  unfold remainder
  dsimp only
  split
  · rw [Text.trim_eq_nil_iff, Text.words_trim]
  · rw [Text.trim_eq_nil_iff, Text.words_trim]

/-- A line has a statement if it is retained. -/
theorem statement?_read (line : List Char) (number : Nat) :
    (Line.read line number).statement? =
      if remainder line = [] then none else some (statementOf (remainder line) number) := by
  unfold Line.statement?
  rw [words_read, number_read]
  split
  · next none => rw [if_pos (remainder_eq_nil_iff.mpr none)]
  · next mnemonic others words =>
    have left : remainder line ≠ [] := by
      rw [Ne, remainder_eq_nil_iff, words]
      exact List.cons_ne_nil _ _
    rw [if_neg left, statementOf, words]
    cases others <;> rfl

/-- The statements of a source are its retained lines. -/
theorem statements_sourceLines (source : List Char) :
    statements (sourceLines source) = retained source := by
  rw [statements, sourceLines, List.filterMap_map, retained]
  congr 1
  funext line
  exact statement?_read line.1 line.2

/-! ## Line numbers -/

/-- Some lines of text, taken apart and numbered from a number on. -/
def readLines (first : Nat) (texts : List (List Char)) : List Line :=
  (texts.zipIdx first).map fun line => .read line.1 line.2

theorem readLines_cons (first : Nat) (text : List Char) (texts : List (List Char)) :
    readLines first (text :: texts) = .read text first :: readLines (first + 1) texts := rfl

theorem sourceLines_eq_readLines (source : List Char) :
    sourceLines source = readLines 1 (Text.lines source) := rfl

/-- Positions counted from any number grow along a list. -/
theorem pairwise_zipIdx {α : Type} (list : List α) (first : Nat) :
    (list.zipIdx first).Pairwise (·.2 < ·.2) := by
  induction list generalizing first with
  | nil => exact .nil
  | cons a list ih =>
    rw [List.zipIdx_cons]
    refine .cons (fun entry mem => ?_) (ih (first + 1))
    have := List.le_snd_of_mem_zipIdx mem
    exact this

/-- The lines of a source are numbered in order. -/
theorem pairwise_number (source : List Char) :
    (sourceLines source).Pairwise (·.number < ·.number) := by
  rw [sourceLines, List.pairwise_map]
  refine (pairwise_zipIdx (Text.lines source) 1).imp fun lt => ?_
  rwa [number_read, number_read]

/-- A statement carries the number of its line. -/
theorem line_statement? {line : Line} {statement : Statement}
    (h : line.statement? = some statement) : statement.line = line.number := by
  unfold Line.statement? at h
  split at h
  · cases h
  · cases h
    rfl

end NibbleComputer.Assembly
