import NibbleComputer.Proofs.Assembly.Addresses
import NibbleComputer.Proofs.Assembly.Scanning
import NibbleComputer.Proofs.Text.Lines

/-!
# The extent of a source

Whatever the assembler reads is a part of the source, and a statement has no fewer characters than
it takes nibbles. So the addresses that the first pass counts, and the numbers of the lines, do not
exceed the length of the source.

- `Assembly.remainder_sublist`: what is left of a line.
- `Assembly.width_read_le`: the width of a line.
- `Assembly.size_sourceLines_le`: the width of the lines of a source.
-/

namespace NibbleComputer.Assembly

theorem rest_suffix_of_splitLabel? {text label rest : List Char}
    (split : splitLabel? text = some (label, rest)) : rest <:+ text := by
  unfold splitLabel? at split
  dsimp only at split
  split at split
  · cases split
  next colon behind found =>
  split at split
  · cases split
    exact (List.suffix_cons colon rest).trans (found ▸ List.dropWhile_suffix _)
  · cases split

/-- What is left of a line is a part of it. -/
theorem remainder_sublist (line : List Char) : (remainder line).Sublist line := by
  have text : (Text.trim (stripComment line)).Sublist line :=
    (Text.trim_sublist _).trans (prefix_of_stripComment line).sublist
  unfold remainder
  dsimp only
  split
  · next rest split =>
    exact (Text.trim_sublist rest).trans ((rest_suffix_of_splitLabel? split).sublist.trans text)
  · exact text

/-- A word has at least as many characters as it takes nibbles. -/
theorem wordWidth_le_length {word : List Char} (ne : word ≠ []) : wordWidth word ≤ word.length := by
  unfold wordWidth
  split
  · next opcode found =>
    have same : Text.sameIgnoringCase opcode.mnemonic.toList word = true := by
      simpa using List.find?_some found
    have letters : ∀ opcode ∈ Opcode.assigned, opcode.width ≤ opcode.mnemonic.toList.length := by
      decide
    have length : opcode.mnemonic.toList.length = word.length := by
      simpa using congrArg List.length (beq_iff_eq.mp same)
    exact length ▸ letters opcode (Opcode.mem_assigned_of_ofMnemonic? found)
  · exact List.length_pos_iff.mpr ne

/-- A line has at least as many characters as its statement takes nibbles. -/
theorem width_read_le (line : List Char) (number : Nat) :
    (Line.read line number).width ≤ line.length := by
  unfold Line.width
  rw [words_read]
  split
  · exact Nat.zero_le _
  · next word others words =>
    have mem : word ∈ Text.words (remainder line) := words ▸ List.mem_cons_self
    calc wordWidth word
        ≤ word.length := wordWidth_le_length (Text.ne_nil_of_mem_words mem)
      _ ≤ line.length :=
        ((Text.sublist_of_mem_words mem).trans (remainder_sublist line)).length_le

theorem statements_cons (line : Line) (lines : List Line) :
    statements (line :: lines) = line.statement?.toList ++ statements lines := by
  unfold statements
  rw [List.filterMap_cons]
  cases line.statement? <;> rfl

theorem size_statements_cons (line : Line) (lines : List Line) :
    size (statements (line :: lines)) = line.width + size (statements lines) := by
  rw [← sum_width, ← sum_width, List.map_cons, List.sum_cons]

/-- Some lines have at least as many characters as their statements take nibbles. -/
theorem size_readLines_le (first : Nat) (lines : List (List Char)) :
    size (statements (readLines first lines)) ≤ lines.flatten.length := by
  induction lines generalizing first with
  | nil => exact Nat.le_refl _
  | cons line lines ih =>
    rw [readLines_cons, size_statements_cons, List.flatten_cons, List.length_append]
    exact Nat.add_le_add (width_read_le line first) (ih (first + 1))

/-- A source has at least as many characters as its statements take nibbles. -/
theorem size_sourceLines_le (source : List Char) :
    size (statements (sourceLines source)) ≤ source.length :=
  (size_readLines_le 1 (Text.lines source)).trans (Text.flatten_lines_sublist source).length_le

end NibbleComputer.Assembly
