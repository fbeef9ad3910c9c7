import Mathlib.Data.List.Forall2
import NibbleComputer.Text.Layout
import NibbleComputer.Text.Lines

/-!
# Texts made of lines

- `Text.lines_unlines`: the lines of a text that is made of lines.
- `Text.flatten_lines_sublist`, `Text.length_lines_le`: the lines are parts of the text, and no more
  than it has characters.
- `Text.lines_append_lineFeed`: the lines of a text to which more is appended on a new line.
- `Text.withReturns`, `Text.lines_withReturns`: the lines of a text whose line feeds are given
  carriage returns.
-/

namespace NibbleComputer.Text

/-- Texts without line ends are the lines of the text that puts a line feed after each. -/
theorem lines_unlines {texts : List String}
    (h : ∀ text ∈ texts, '\n' ∉ text.toList ∧ '\r' ∉ text.toList) :
    lines (unlines texts).toList = texts.map String.toList := by
  rw [toList_unlines]
  induction texts with
  | nil => rfl
  | cons text texts ih =>
    obtain ⟨newline, ret⟩ := h text (List.mem_cons_self ..)
    rw [List.flatMap_cons, List.append_assoc, List.singleton_append,
      lines_append_newline newline ret, ih fun other mem => h other (List.mem_cons_of_mem _ mem),
      List.map_cons]

/-! ## Parts of a text -/

/-- The lines are parts of the text one behind the other. -/
theorem flatten_lines_sublist (text : List Char) : (lines text).flatten.Sublist text := by
  fun_induction lines text with
  | case1 => exact List.Sublist.refl _
  | case2 rest ih => exact ih.cons _
  | case3 rest ih => exact (ih.cons _).cons _
  | case4 c rest newline ret none ih => exact (List.nil_sublist rest).cons_cons c
  | case5 c rest newline ret line others some ih =>
    rw [some] at ih
    exact ih.cons_cons c

/-- There are no more lines than characters. -/
theorem length_lines_le (text : List Char) : (lines text).length ≤ text.length := by
  fun_induction lines text with
  | case1 => exact Nat.le_refl _
  | case2 rest ih => exact Nat.succ_le_succ ih
  | case3 rest ih => exact Nat.le_succ_of_le (Nat.succ_le_succ ih)
  | case4 c rest newline ret none ih => exact Nat.succ_le_succ (Nat.zero_le _)
  | case5 c rest newline ret line others some ih =>
    rw [some] at ih
    exact Nat.le_succ_of_le ih

/-! ## Text on a new line -/

theorem lines_eq_nil_iff {text : List Char} : lines text = [] ↔ text = [] := by
  fun_cases lines text <;> simp

/-- A text goes on with a line feed and more text. Its own lines stay, except that a return at the
very end now ends the last of them, and the lines of what follows stay as they are. If the text was
empty or had ended its last line, there is an empty line between. -/
theorem lines_append_lineFeed (text rest : List Char) :
    ∃ first gap, lines (text ++ '\n' :: rest) = first ++ (gap ++ lines rest) ∧
      List.Forall₂ (fun line other => line = other ∨ line = other ++ ['\r']) (lines text) first ∧
      (gap = [] ∨ gap = [[]]) := by
  fun_induction lines text with
  | case1 =>
    refine ⟨[], [[]], ?_, .nil, .inr rfl⟩
    rw [List.nil_append, lines_newline]
    rfl
  | case2 text ih =>
    obtain ⟨first, gap, whole, same, empty⟩ := ih
    refine ⟨[] :: first, gap, ?_, .cons (.inl rfl) same, empty⟩
    rw [List.cons_append, lines_newline, whole]
    rfl
  | case3 text ih =>
    obtain ⟨first, gap, whole, same, empty⟩ := ih
    refine ⟨[] :: first, gap, ?_, .cons (.inl rfl) same, empty⟩
    rw [List.cons_append, List.cons_append, lines_return_newline, whole]
    rfl
  | case4 c text newline ret none ih =>
    -- the last character, and nothing of the text behind it
    obtain rfl : text = [] := lines_eq_nil_iff.mp none
    by_cases last : c = '\r'
    · subst last
      exact ⟨[[]], [], lines_return_newline rest, .cons (.inr rfl) .nil, .inl rfl⟩
    · refine ⟨[[c]], [], ?_, .cons (.inl rfl) .nil, .inl rfl⟩
      rw [List.cons_append, lines_cons newline last, List.nil_append, lines_newline]
      rfl
  | case5 c text newline ret line others some ih =>
    obtain ⟨first, gap, whole, same, empty⟩ := ih
    rw [some] at same
    obtain ⟨line', others', one, rest', rfl⟩ := List.forall₂_cons_left_iff.mp same
    refine ⟨(c :: line') :: others', gap, ?_, .cons ?_ rest', empty⟩
    · rw [List.cons_append, lines, whole]
      · rfl
      · exact newline
      · -- a return before a line feed would be the end of a line, so that the text goes on otherwise
        rintro tail rfl next
        cases text with
        | nil => rw [lines_nil] at some; cases some
        | cons d text =>
          obtain ⟨rfl, -⟩ := List.cons.inj next
          exact ret text rfl rfl
    · exact one.imp (congrArg (c :: ·)) (congrArg (c :: ·))

/-! ## Line ends -/

/-- A text with a carriage return before every line feed. -/
def withReturns (text : List Char) : List Char :=
  text.flatMap fun c => if c = '\n' then ['\r', '\n'] else [c]

@[simp] theorem withReturns_nil : withReturns [] = [] := rfl

@[simp] theorem withReturns_newline (rest : List Char) :
    withReturns ('\n' :: rest) = '\r' :: '\n' :: withReturns rest := rfl

@[simp] theorem withReturns_cons {c : Char} (newline : c ≠ '\n') (rest : List Char) :
    withReturns (c :: rest) = c :: withReturns rest := by
  simp [withReturns, newline]

/-- A line feed does not come first. -/
theorem head?_withReturns (text : List Char) : (withReturns text).head? ≠ some '\n' := by
  cases text with
  | nil => simp
  | cons c text =>
    by_cases newline : c = '\n'
    · simp [newline]
    · simp [newline]

/-- The lines keep their texts, except that a return which ended a line with its line feed before
is now left on it. -/
theorem lines_withReturns (text : List Char) :
    List.Forall₂ (fun line other => other = line ∨ other = line ++ ['\r'])
      (lines text) (lines (withReturns text)) := by
  fun_induction lines text with
  | case1 => exact .nil
  | case2 rest ih =>
    rw [withReturns_newline, lines_return_newline]
    exact .cons (.inl rfl) ih
  | case3 rest ih =>
    rw [withReturns_cons (by decide), withReturns_newline,
      lines_cons_of_head? (by decide) (by simp), lines_return_newline]
    exact .cons (.inr rfl) ih
  -- any other character, a lone return among them, joins the line behind it on both sides
  | case4 c rest newline ret none ih =>
    rw [withReturns_cons newline, lines_cons_of_head? newline (head?_withReturns rest)]
    rw [none] at ih
    rw [List.forall₂_nil_left_iff.mp ih]
    exact .cons (.inl rfl) .nil
  | case5 c rest newline ret line others some ih =>
    rw [withReturns_cons newline, lines_cons_of_head? newline (head?_withReturns rest)]
    rw [some] at ih
    obtain ⟨line', others', first, rest', lines⟩ := List.forall₂_cons_left_iff.mp ih
    rw [lines]
    exact .cons (first.imp (congrArg (c :: ·)) (congrArg (c :: ·))) rest'

end NibbleComputer.Text
