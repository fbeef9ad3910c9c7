import NibbleComputer.Assembly.Source
import NibbleComputer.Proofs.Text.Case
import NibbleComputer.Proofs.Text.Words

/-!
# The parts of a source line

Where the comment of a line starts and what is a label in front of its statement.

- `Assembly.stripComment_append`: the comment of a line in two parts, with
  `Assembly.stripComment_append_semicolon`, `Assembly.stripComment_append_slashes` and
  `Assembly.stripComment_append_blank` for what the second may start with.
- `Assembly.splitLabel?_of_notMem`, `Assembly.splitLabel?_append_colon`: the label of a text.
- `Assembly.splitLabel?_append_blank`: a label ends before the first blank.
- `Assembly.stripComment_lower`, `Assembly.splitLabel?_lower`: neither depends on case.
-/

namespace NibbleComputer.Assembly

/-- A character of another kind is not in a text whose characters are all of one kind. -/
theorem notMem_of_all {kind : Char → Bool} {text : List Char} (chars : text.all kind = true)
    {mark : Char} (h : kind mark = false) : mark ∉ text := by
  intro mem
  rw [List.all_eq_true.mp chars mark mem] at h
  cases h

/-! ## Comments -/

/-- A character that starts no comment belongs to the line. -/
theorem stripComment_cons {c : Char} {rest : List Char} (semicolon : c ≠ ';')
    (slashes : c = '/' → rest.head? ≠ some '/') :
    stripComment (c :: rest) = c :: stripComment rest := by
  rw [stripComment]
  · exact semicolon
  · rintro tail rfl rfl
    exact slashes rfl rfl

/-- What stands in front of the comment is the start of the line. -/
theorem prefix_of_stripComment (line : List Char) : stripComment line <+: line := by
  fun_induction stripComment line with
  | case1 => exact List.prefix_refl _
  | case2 rest => exact List.nil_prefix
  | case3 rest => exact List.nil_prefix
  | case4 c rest semicolon slashes ih => exact List.cons_prefix_cons.mpr ⟨rfl, ih⟩

/-- A line without comment marks is no shorter without its comment. -/
theorem stripComment_of_notMem {text : List Char} (semicolon : ';' ∉ text) (slash : '/' ∉ text) :
    stripComment text = text := by
  induction text with
  | nil => rfl
  | cons c text ih =>
    simp only [List.mem_cons, not_or] at semicolon slash
    rw [stripComment_cons (Ne.symm semicolon.1) fun h => absurd h.symm slash.1,
      ih semicolon.2 slash.2]

/-- A comment starts in the first part of a line or in the second, unless its two slashes stand on
different sides. -/
theorem stripComment_append {line tail : List Char}
    (apart : line.getLast? = some '/' → tail.head? ≠ some '/') :
    stripComment (line ++ tail) =
      if stripComment line = line then line ++ stripComment tail else stripComment line := by
  fun_induction stripComment line with
  | case1 => rfl
  | case2 rest => simp [stripComment]
  | case3 rest => simp [stripComment]
  | case4 c rest semicolon slashes ih =>
    have apart' : rest.getLast? = some '/' → tail.head? ≠ some '/' := by
      cases rest with
      | nil => simp
      | cons d rest => rwa [List.getLast?_cons_cons] at apart
    -- the next character is that of the rest, or of the second part if nothing is left
    have first : c = '/' → (rest ++ tail).head? ≠ some '/' := by
      rintro rfl
      cases rest with
      | nil => exact apart rfl
      | cons d rest => exact fun head => slashes rest rfl (by rw [Option.some.inj head])
    rw [List.cons_append, stripComment_cons semicolon first, ih apart']
    simp only [List.cons.injEq, true_and]
    split <;> rfl

/-- What a semicolon starts is a comment. -/
theorem stripComment_append_semicolon (line comment : List Char) :
    stripComment (line ++ ';' :: comment) = stripComment line := by
  have nothing : stripComment (';' :: comment) = [] := rfl
  rw [stripComment_append (by simp), nothing, List.append_nil]
  split
  · next whole => exact whole.symm
  · rfl

/-- What two slashes start is a comment too, unless the first of them follows another slash. -/
theorem stripComment_append_slashes {line : List Char} (last : line.getLast? ≠ some '/')
    (comment : List Char) : stripComment (line ++ '/' :: '/' :: comment) = stripComment line := by
  have nothing : stripComment ('/' :: '/' :: comment) = [] := rfl
  rw [stripComment_append fun slash => absurd slash last, nothing, List.append_nil]
  split
  · next whole => exact whole.symm
  · rfl

/-- A blank belongs to the line, unless it stands in the comment. -/
theorem stripComment_append_blank {c : Char} (blank : Text.isBlank c = true)
    (before after : List Char) :
    stripComment (before ++ c :: after) =
      if stripComment before = before then before ++ c :: stripComment after
      else stripComment before := by
  have semicolon : c ≠ ';' := by
    rintro rfl
    exact absurd blank (by decide)
  have slash : c ≠ '/' := by
    rintro rfl
    exact absurd blank (by decide)
  rw [stripComment_append (by simp [slash]), stripComment_cons semicolon fun h => absurd h slash]

/-! ## Labels -/

/-- The letters and digits of ASCII by their codes. -/
theorem ranges_of_isAlphanum {c : Char} (h : c.isAlphanum = true) :
    (65 ≤ c.toNat ∧ c.toNat ≤ 90) ∨ (97 ≤ c.toNat ∧ c.toNat ≤ 122) ∨
      (48 ≤ c.toNat ∧ c.toNat ≤ 57) := by
  rcases Bool.or_eq_true_iff.mp h with letter | digit
  · rcases Bool.or_eq_true_iff.mp letter with upper | lower
    · exact .inl (of_decide_eq_true upper)
    · have bounds := Bool.and_eq_true_iff.mp lower
      exact .inr (.inl ⟨of_decide_eq_true bounds.1, of_decide_eq_true bounds.2⟩)
  · exact .inr (.inr (Char.isDigit_iff_toNat.mp digit))

theorem isBlank_of_isLabelChar {c : Char} (h : isLabelChar c = true) : Text.isBlank c = false := by
  rcases Bool.or_eq_true_iff.mp h with letter | mark
  · have ranges := ranges_of_isAlphanum letter
    simp only [Text.isBlank, Text.blankRanges, List.any_cons, List.any_nil, Bool.or_eq_false_iff,
      Bool.and_eq_false_iff, decide_eq_false_iff_not, and_true]
    omega
  · rw [beq_iff_eq.mp mark]
    decide

theorem splitLabel?_of_notMem {text : List Char} (colon : ':' ∉ text) :
    splitLabel? text = none := by
  have plain : text.dropWhile (· != ':') = [] :=
    List.dropWhile_eq_nil_iff.mpr fun c mem => bne_iff_ne.mpr fun h => colon (h ▸ mem)
  unfold splitLabel?
  rw [plain]

/-- What stands before the first colon is a label if it is a word. -/
theorem splitLabel?_append_colon {label : List Char} (colon : ':' ∉ label) (rest : List Char) :
    splitLabel? (label ++ ':' :: rest) =
      if !label.isEmpty && label.all isLabelChar then some (label, rest) else none := by
  have plain : ∀ c ∈ label, (c != ':') = true :=
    fun c mem => bne_iff_ne.mpr fun h => colon (h ▸ mem)
  unfold splitLabel?
  rw [List.takeWhile_append_of_pos plain, List.dropWhile_append_of_pos plain]
  simp

theorem splitLabel?_append {label : List Char} (ne : label ≠ [])
    (chars : label.all isLabelChar = true) (rest : List Char) :
    splitLabel? (label ++ ':' :: rest) = some (label, rest) := by
  rw [splitLabel?_append_colon (notMem_of_all chars (by decide)), chars]
  simp [ne]

/-- A label ends before the first blank. -/
theorem splitLabel?_append_blank {c : Char} (blank : Text.isBlank c = true)
    (before after : List Char) :
    splitLabel? (before ++ c :: after) =
      (splitLabel? before).map fun parts => (parts.1, parts.2 ++ c :: after) := by
  have unlabelled : isLabelChar c = false := by
    by_contra label
    rw [isBlank_of_isLabelChar (eq_true_of_ne_false label)] at blank
    cases blank
  by_cases first : ':' ∈ before
  · obtain ⟨label, rest, rfl, plain⟩ := List.eq_append_cons_of_mem first
    rw [List.append_assoc, List.cons_append, splitLabel?_append_colon plain,
      splitLabel?_append_colon plain]
    split <;> rfl
  rw [splitLabel?_of_notMem first, Option.map_none]
  have ne : ':' ≠ c := by
    rintro rfl
    exact absurd blank (by decide)
  by_cases second : ':' ∈ after
  · -- the blank stands in the text before the colon
    obtain ⟨between, rest, rfl, plain⟩ := List.eq_append_cons_of_mem second
    have colon : ':' ∉ before ++ c :: between := by simp [first, ne, plain]
    have shape : before ++ c :: (between ++ ':' :: rest) =
        (before ++ c :: between) ++ ':' :: rest := by simp
    rw [shape, splitLabel?_append_colon colon, if_neg]
    simp [unlabelled]
  · exact splitLabel?_of_notMem (by simp [first, ne, second])

/-! ## Case -/

theorem stripComment_lower (line : List Char) :
    stripComment (Text.lower line) = Text.lower (stripComment line) := by
  fun_induction stripComment line with
  | case1 => rfl
  | case2 rest => rfl
  | case3 rest => rfl
  | case4 c rest semicolon slashes ih =>
    have semicolon' : c.toLower ≠ ';' := (Text.toLower_eq_iff (by decide)).not.mpr semicolon
    rw [Text.lower_cons, stripComment_cons semicolon', ih, Text.lower_cons]
    intro slash head
    cases rest with
    | nil => cases head
    | cons d rest =>
      have second : d = '/' := (Text.toLower_eq_iff (by decide)).mp (Option.some.inj head)
      exact slashes rest ((Text.toLower_eq_iff (by decide)).mp slash) (by rw [second])

theorem all_isLabelChar_lower (text : List Char) :
    (Text.lower text).all isLabelChar = text.all isLabelChar := by
  rw [Text.lower, List.all_map]
  congr 1
  exact funext fun c => Text.comp_toLower (f := isLabelChar) (by decide) c

theorem splitLabel?_lower (text : List Char) :
    splitLabel? (Text.lower text) =
      (splitLabel? text).map fun parts => (Text.lower parts.1, Text.lower parts.2) := by
  have colon : ∀ text : List Char, ':' ∉ text → ':' ∉ Text.lower text := by
    intro text plain mem
    obtain ⟨c, mem, colon⟩ := List.mem_map.mp mem
    exact plain ((Text.toLower_eq_iff (by decide)).mp colon ▸ mem)
  by_cases first : ':' ∈ text
  · obtain ⟨label, rest, rfl, plain⟩ := List.eq_append_cons_of_mem first
    have shape : Text.lower (label ++ ':' :: rest) = Text.lower label ++ ':' :: Text.lower rest :=
      Text.lower_append ..
    rw [shape, splitLabel?_append_colon plain, splitLabel?_append_colon (colon label plain),
      all_isLabelChar_lower, Text.lower, List.isEmpty_map]
    split <;> rfl
  · rw [splitLabel?_of_notMem first, splitLabel?_of_notMem (colon text first)]
    rfl

end NibbleComputer.Assembly
