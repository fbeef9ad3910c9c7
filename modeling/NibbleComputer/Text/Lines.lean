/-!
# Lines of a text

A line ends at a line feed, and a carriage return directly before that line feed belongs to the
line's end. A last line without a line feed counts if it has any character, and keeps all of
them.

- `Text.lines`: the lines of a text without their ends.
- `Text.numberedLines`: the same with their numbers, counted from one.
-/

namespace NibbleComputer.Text

/-- The lines of a text, without the characters that end them. -/
def lines : List Char → List (List Char)
  | [] => []
  | '\n' :: rest => [] :: lines rest
  | '\r' :: '\n' :: rest => [] :: lines rest
  | c :: rest =>
    match lines rest with
    | [] => [[c]]
    | line :: others => (c :: line) :: others

/-- The lines of a text, each with its number, counted from one. -/
def numberedLines (text : List Char) : List (List Char × Nat) :=
  (lines text).zipIdx 1

@[simp] theorem lines_nil : lines [] = [] := by
  simp [lines]

@[simp] theorem lines_newline (rest : List Char) : lines ('\n' :: rest) = [] :: lines rest := by
  simp [lines]

@[simp] theorem lines_return_newline (rest : List Char) :
    lines ('\r' :: '\n' :: rest) = [] :: lines rest := by
  simp [lines]

/-- A character joins the line behind it, if they are no line end. -/
theorem lines_cons_of_head? {c : Char} (newline : c ≠ '\n') {rest : List Char}
    (next : rest.head? ≠ some '\n') :
    lines (c :: rest) = match lines rest with
      | [] => [[c]]
      | line :: others => (c :: line) :: others := by
  rw [lines]
  · exact newline
  · rintro tail - rfl
    exact next rfl

/-- A character that ends no line joins the line that follows it. -/
theorem lines_cons {c : Char} (newline : c ≠ '\n') (ret : c ≠ '\r') (rest : List Char) :
    lines (c :: rest) = match lines rest with
      | [] => [[c]]
      | line :: others => (c :: line) :: others := by
  rw [lines]
  · exact newline
  · exact fun _ h _ => ret h

/-- A text free of line ends is the first line of whatever follows it after a line feed. -/
theorem lines_append_newline {line : List Char} (newline : '\n' ∉ line) (ret : '\r' ∉ line)
    (rest : List Char) : lines (line ++ '\n' :: rest) = line :: lines rest := by
  induction line with
  | nil => simp
  | cons c line ih =>
    simp only [List.mem_cons, not_or] at newline ret
    rw [List.cons_append, lines_cons (Ne.symm newline.1) (Ne.symm ret.1), ih newline.2 ret.2]

end NibbleComputer.Text
