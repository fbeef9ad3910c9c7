import Mathlib.Data.List.TakeWhile
import NibbleComputer.Text.Blank

/-!
# Words and blanks

A blank separates words and is part of none, so the words of a text do not change when blanks at
its ends are removed.

- `Text.pieces_append_cut`: cutting a text at one of its cuts.
- `Text.words_append_blank`: the words on both sides of a blank.
- `Text.words_trim`: trimming keeps the words.
- `Text.words_eq_nil_iff`, `Text.trim_eq_nil_iff`: a text without words is one that trims away.
- `Text.trim_sublist`, `Text.sublist_of_mem_words`: what is left of a text, and its words, are parts
  of it.
- `Text.exists_first_word`: a text that starts with no blank starts with its first word.
-/

namespace NibbleComputer.Text

/-! ## Cutting -/

/-- A text is cut at each of its cuts separately. -/
theorem pieces_append_cut {cut : Char → Bool} {c : Char} (h : cut c = true)
    (before after : List Char) :
    pieces cut (before ++ c :: after) = pieces cut before ++ pieces cut after := by
  induction before with
  | nil => simp [pieces, h]
  | cons d before ih =>
    rw [List.cons_append]
    by_cases hd : cut d = true
    · simp [pieces, hd, ih]
    · obtain ⟨piece, others, first⟩ := List.exists_cons_of_ne_nil (pieces_ne_nil cut before)
      simp [pieces, hd, ih, first]

/-- A text without a cut is one piece. -/
theorem pieces_of_uncut {cut : Char → Bool} {text : List Char} (h : ∀ c ∈ text, cut c = false) :
    pieces cut text = [text] := by
  induction text with
  | nil => rfl
  | cons c text ih =>
    have hc : cut c = false := h c (List.mem_cons_self ..)
    have rest := ih fun d hd => h d (List.mem_cons_of_mem c hd)
    simp [pieces, hc, rest]

/-! ## Words -/

theorem words_append_blank {c : Char} (h : isBlank c = true) (before after : List Char) :
    words (before ++ c :: after) = words before ++ words after := by
  rw [words, pieces_append_cut h, List.filter_append]
  rfl

/-- A nonempty text without blanks is a word. -/
theorem words_of_unblank {word : List Char} (ne : word ≠ [])
    (h : ∀ c ∈ word, isBlank c = false) : words word = [word] := by
  rw [words, pieces_of_uncut h]
  simp [ne]

theorem words_eq_nil_of_blank {text : List Char} (h : ∀ c ∈ text, isBlank c = true) :
    words text = [] := by
  induction text with
  | nil => rfl
  | cons c text ih =>
    rw [words_cons_of_isBlank (h c (List.mem_cons_self ..))]
    exact ih fun d hd => h d (List.mem_cons_of_mem c hd)

/-- Blanks after a text add no word. -/
theorem words_append_of_blank (text : List Char) {tail : List Char}
    (h : ∀ c ∈ tail, isBlank c = true) : words (text ++ tail) = words text := by
  cases tail with
  | nil => rw [List.append_nil]
  | cons c tail =>
    rw [words_append_blank (h c (List.mem_cons_self ..)),
      words_eq_nil_of_blank fun d hd => h d (List.mem_cons_of_mem c hd), List.append_nil]

/-! ## Trimming -/

theorem words_trimStart (text : List Char) : words (trimStart text) = words text := by
  unfold trimStart
  induction text with
  | nil => rfl
  | cons c text ih =>
    rw [List.dropWhile_cons]
    split
    · next blank => rw [ih, words_cons_of_isBlank blank]
    · rfl

/-- A text is its part without trailing blanks, and those. -/
theorem exists_trimEnd_append (text : List Char) :
    ∃ tail, text = trimEnd text ++ tail ∧ ∀ c ∈ tail, isBlank c = true := by
  refine ⟨(text.reverse.takeWhile isBlank).reverse, ?_, fun c hc => ?_⟩
  · rw [trimEnd, ← List.reverse_append, List.takeWhile_append_dropWhile, List.reverse_reverse]
  · exact List.mem_takeWhile_imp (List.mem_reverse.mp hc)

theorem words_trimEnd (text : List Char) : words (trimEnd text) = words text := by
  obtain ⟨tail, split, blank⟩ := exists_trimEnd_append text
  calc words (trimEnd text)
      = words (trimEnd text ++ tail) := (words_append_of_blank _ blank).symm
    _ = words text := by rw [← split]

@[simp] theorem words_trim (text : List Char) : words (trim text) = words text := by
  rw [trim, words_trimEnd, words_trimStart]

/-- Nothing is trimmed from the start of a text that starts with no blank. -/
theorem trimStart_cons {c : Char} (h : isBlank c = false) (text : List Char) :
    trimStart (c :: text) = c :: text :=
  List.dropWhile_cons_of_neg (by simp [h])

/-- What is trimmed from the end of a text lies behind its characters that are no blanks. -/
theorem trimEnd_append_cons {c : Char} (h : isBlank c = false) (before after : List Char) :
    trimEnd (before ++ c :: after) = before ++ c :: trimEnd after := by
  have stop : (c :: before.reverse).dropWhile isBlank = c :: before.reverse :=
    List.dropWhile_cons_of_neg (by simp [h])
  unfold trimEnd
  rw [List.reverse_append, List.reverse_cons, List.append_assoc, List.singleton_append,
    List.dropWhile_append]
  split
  · next gone => simp [stop, List.isEmpty_iff.mp gone]
  · simp

/-- Only a text of blanks has no words. -/
theorem words_eq_nil_iff {text : List Char} : words text = [] ↔ ∀ c ∈ text, isBlank c = true := by
  refine ⟨fun none => ?_, words_eq_nil_of_blank⟩
  induction text with
  | nil => simp
  | cons c text ih =>
    by_cases blank : isBlank c = true
    · rw [words_cons_of_isBlank blank] at none
      simpa [blank] using ih none
    · obtain ⟨piece, others, first⟩ := List.exists_cons_of_ne_nil (pieces_ne_nil isBlank text)
      simp [words, pieces, blank, first] at none

/-- Only a text of blanks trims away. -/
theorem trim_eq_nil_iff {text : List Char} : trim text = [] ↔ words text = [] := by
  constructor
  · intro gone
    rw [← words_trim, gone]
    rfl
  · intro none
    have blank := words_eq_nil_iff.mp none
    have start : trimStart text = [] := List.dropWhile_eq_nil_iff.mpr blank
    rw [trim, start]
    rfl

/-! ## Parts of a text -/

theorem trim_sublist (text : List Char) : (trim text).Sublist text := by
  have back : (trimEnd (trimStart text)).Sublist (trimStart text) := by
    have := (List.dropWhile_sublist isBlank (l := (trimStart text).reverse)).reverse
    rwa [List.reverse_reverse] at this
  exact back.trans (List.dropWhile_sublist isBlank)

theorem flatten_pieces_sublist (cut : Char → Bool) (text : List Char) :
    (pieces cut text).flatten.Sublist text := by
  fun_induction pieces cut text with
  | case1 => exact List.Sublist.refl _
  | case2 c rest isCut ih => exact ih.cons c
  | case3 c rest isCut none ih => exact List.nil_sublist rest |>.cons_cons c
  | case4 c rest isCut piece others some ih =>
    rw [some] at ih
    exact ih.cons_cons c

/-- A word is a part of the text. -/
theorem sublist_of_mem_words {text word : List Char} (mem : word ∈ words text) : word.Sublist text :=
  (List.sublist_flatten_of_mem (List.mem_filter.mp mem).1).trans
    (flatten_pieces_sublist isBlank text)

/-! ## The first word -/

/-- A text that starts with no blank is its first word, and more behind a blank if it has more. -/
theorem exists_first_word {c : Char} (first : isBlank c = false) (text : List Char) :
    ∃ word, words word = [word] ∧ (c :: text = word ∨
      ∃ blank rest, isBlank blank = true ∧ c :: text = word ++ blank :: rest) := by
  have shape := List.takeWhile_append_dropWhile (p := fun d => !isBlank d) (l := c :: text)
  have word : words ((c :: text).takeWhile fun d => !isBlank d) =
      [(c :: text).takeWhile fun d => !isBlank d] := by
    refine words_of_unblank ?_ fun d mem => ?_
    · simp [first]
    · simpa using List.mem_takeWhile_imp mem
  refine ⟨_, word, ?_⟩
  have stop := List.head?_dropWhile_not (fun d => !isBlank d) (c :: text)
  cases rest : (c :: text).dropWhile fun d => !isBlank d with
  | nil =>
    rw [rest, List.append_nil] at shape
    exact .inl shape.symm
  | cons blank rest' =>
    rw [rest] at shape stop
    exact .inr ⟨blank, rest', by simpa using stop, shape.symm⟩

/-- What is trimmed starts with no blank. -/
theorem trim_eq_nil_or_cons (text : List Char) :
    trim text = [] ∨ ∃ c rest, trim text = c :: rest ∧ isBlank c = false := by
  have stop := List.head?_dropWhile_not isBlank text
  unfold trim
  cases start : trimStart text with
  | nil => exact .inl rfl
  | cons c rest =>
    rw [← trimStart, start] at stop
    exact .inr ⟨c, trimEnd rest, trimEnd_append_cons stop [] rest, stop⟩

end NibbleComputer.Text
