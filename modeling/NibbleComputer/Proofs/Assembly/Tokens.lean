import Mathlib.Data.List.Forall2
import Mathlib.Logic.Relation
import NibbleComputer.Proofs.Assembly.Letters
import NibbleComputer.Proofs.Assembly.Scanning
import NibbleComputer.Proofs.Text.Lines

/-!
# Sources as tokens

The assembler sees of a line no more than its tokens, which are its words before the comment. It
looks for a label in the text of the line, but a label holds no blank, and so it is part of the
first token. Hence the layout of a source, its comments and the case of its letters do not matter.

- `Assembly.tokens`: the tokens of a line.
- `Assembly.Line.ofTokens`, `Assembly.read_eq_ofTokens`: a line taken apart, from its tokens.
- `Assembly.SameTokens`: sources with the same tokens up to case, `Assembly.agree_of_sameTokens`
  how they assemble.
- `Assembly.Edit`, `Assembly.alike_of_eqvGen`: changes to a line that keep its tokens.
- `Assembly.assemble_tokens`: sources that the assembler does not tell apart.
-/

namespace NibbleComputer.Assembly

/-- The tokens of a line: its words before the comment. -/
def tokens (line : List Char) : List (List Char) :=
  Text.words (stripComment line)

/-- A line taken apart, from its tokens. -/
def Line.ofTokens (tokens : List (List Char)) (number : Nat) : Line :=
  match tokens with
  | [] => { number, label? := none, words := [] }
  | first :: others =>
    match splitLabel? first with
    | some (label, rest) => { number, label? := some label, words := Text.words rest ++ others }
    | none => { number, label? := none, words := first :: others }

/-! ## Lines from tokens -/

/-- The tokens of a line determine how it is taken apart. -/
theorem read_eq_ofTokens (line : List Char) (number : Nat) :
    Line.read line number = Line.ofTokens (tokens line) number := by
  unfold Line.read tokens
  rw [← Text.words_trim]
  dsimp only
  rcases Text.trim_eq_nil_or_cons (stripComment line) with gone | ⟨c, text, left, first⟩
  · rw [gone]
    rfl
  obtain ⟨word, alone, whole | ⟨blank, rest, isBlank, whole⟩⟩ := Text.exists_first_word first text
  · rw [left, whole, alone, Line.ofTokens]
    cases splitLabel? word with
    | none => rfl
    | some parts => simp
  · -- what stands behind the first blank is the same text behind a label and without one
    rw [left, whole, Text.words_append_blank isBlank, alone, splitLabel?_append_blank isBlank,
      List.singleton_append, Line.ofTokens]
    cases splitLabel? word with
    | none => rfl
    | some parts => simp [Text.words_append_blank isBlank]

theorem ofTokens_lower (tokens : List (List Char)) (number : Nat) :
    (Line.ofTokens tokens number).lower = Line.ofTokens (tokens.map Text.lower) number := by
  cases tokens with
  | nil => rfl
  | cons first others =>
    rw [List.map_cons, Line.ofTokens, Line.ofTokens, splitLabel?_lower]
    cases splitLabel? first with
    | none => rfl
    | some parts => simp [Line.lower, Text.words_lower]

theorem tokens_lower (line : List Char) :
    tokens (Text.lower line) = (tokens line).map Text.lower := by
  rw [tokens, stripComment_lower, Text.words_lower, tokens]

/-! ## The same tokens -/

/-- Two lines whose tokens are the same up to case. -/
def Alike (line other : List Char) : Prop :=
  List.Forall₂ (fun v w => Text.sameIgnoringCase v w = true) (tokens line) (tokens other)

/-- Two sources with as many lines, which are alike line by line. -/
def SameTokens (source other : String) : Prop :=
  List.Forall₂ Alike (Text.lines source.toList) (Text.lines other.toList)

theorem alike_iff {line other : List Char} :
    Alike line other ↔ (tokens line).map Text.lower = (tokens other).map Text.lower := by
  rw [Alike, ← List.forall₂_eq_eq_eq, List.forall₂_map_left_iff, List.forall₂_map_right_iff]
  simp only [Text.sameIgnoringCase_iff]

theorem sourceLines_lower (source : List Char) :
    (sourceLines source).map Line.lower =
      (((Text.lines source).map fun line => (tokens line).map Text.lower).zipIdx 1).map
        fun entry => Line.ofTokens entry.1 entry.2 := by
  rw [sourceLines, Text.numberedLines, List.map_map, List.zipIdx_map, List.map_map]
  refine List.map_congr_left fun entry _ => ?_
  simp [read_eq_ofTokens, ofTokens_lower]

/-- Sources with the same tokens give the same program, or the same error up to case. -/
theorem agree_of_sameTokens {source other : String} (same : SameTokens source other) :
    Agree (assemble source) (assemble other) := by
  have tokens : (Text.lines source.toList).map (fun line => (tokens line).map Text.lower) =
      (Text.lines other.toList).map fun line => (tokens line).map Text.lower := by
    rw [← List.forall₂_eq_eq_eq, List.forall₂_map_left_iff, List.forall₂_map_right_iff]
    exact List.Forall₂.imp (fun _ _ => alike_iff.mp) same
  refine agree_of_mapError_eq ?_
  rw [assemble, assemble, ← assembleLines_lower, ← assembleLines_lower, sourceLines_lower, tokens,
    sourceLines_lower]

/-! ## Changes that keep the tokens -/

/-- A change to a line. -/
inductive Edit : List Char → List Char → Prop
  /-- A comment is added behind a semicolon. -/
  | semicolon (line comment : List Char) : Edit line (line ++ ';' :: comment)
  /-- A comment is added behind two slashes, which a slash before them would move. -/
  | slashes {line : List Char} (last : line.getLast? ≠ some '/') (comment : List Char) :
    Edit line (line ++ '/' :: '/' :: comment)
  /-- The line is indented. -/
  | indent {gap : List Char} (blank : ∀ c ∈ gap, Text.isBlank c = true) (line : List Char) :
    Edit line (gap ++ line)
  /-- Blanks are added at the end. -/
  | trail (line : List Char) {gap : List Char} (blank : ∀ c ∈ gap, Text.isBlank c = true) :
    Edit line (line ++ gap)
  /-- A gap is replaced by other blanks. -/
  | gap (before : List Char) {c d : Char} {gap other : List Char}
    (blank : ∀ e ∈ c :: gap, Text.isBlank e = true)
    (blank' : ∀ e ∈ d :: other, Text.isBlank e = true) (after : List Char) :
    Edit (before ++ c :: gap ++ after) (before ++ d :: other ++ after)
  /-- Letters change their case. -/
  | letters {line other : List Char} (same : Text.sameIgnoringCase line other = true) :
    Edit line other

/-- The tokens on both sides of a blank, if the line has not ended before. -/
theorem tokens_append_blank {c : Char} (blank : Text.isBlank c = true) (before after : List Char) :
    tokens (before ++ c :: after) =
      if stripComment before = before then tokens before ++ tokens after else tokens before := by
  unfold tokens
  rw [stripComment_append_blank blank]
  split
  · next whole => rw [Text.words_append_blank blank, whole]
  · rfl

theorem tokens_blank_append {gap : List Char} (blank : ∀ c ∈ gap, Text.isBlank c = true)
    (line : List Char) : tokens (gap ++ line) = tokens line := by
  induction gap with
  | nil => rfl
  | cons c gap ih =>
    have rest := ih fun d mem => blank d (List.mem_cons_of_mem c mem)
    exact (tokens_append_blank (blank c (List.mem_cons_self ..)) [] (gap ++ line)).trans rest

/-- The tokens on both sides of a gap. -/
theorem tokens_append_gap (before : List Char) {c : Char} {gap : List Char}
    (blank : ∀ e ∈ c :: gap, Text.isBlank e = true) (after : List Char) :
    tokens (before ++ c :: gap ++ after) =
      if stripComment before = before then tokens before ++ tokens after else tokens before := by
  rw [List.append_assoc, List.cons_append, tokens_append_blank (blank c (List.mem_cons_self ..)),
    tokens_blank_append fun d mem => blank d (List.mem_cons_of_mem c mem)]

theorem Edit.alike {line other : List Char} (edit : Edit line other) : Alike line other := by
  rw [alike_iff]
  cases edit with
  | semicolon _ comment => rw [tokens, tokens, stripComment_append_semicolon]
  | slashes last comment => rw [tokens, tokens, stripComment_append_slashes last]
  | indent blank _ => rw [tokens_blank_append blank]
  | @trail _ gap blank =>
    cases gap with
    | nil => rw [List.append_nil]
    | cons c gap =>
      -- blanks at the end are a gap with nothing behind it
      have nothing : tokens [] = [] := rfl
      have whole := tokens_append_gap line blank []
      rw [List.append_nil, nothing, List.append_nil, ite_self] at whole
      rw [whole]
  | gap before blank blank' after =>
    rw [tokens_append_gap before blank, tokens_append_gap before blank']
  | letters same =>
    rw [← tokens_lower, ← tokens_lower, Text.sameIgnoringCase_iff.mp same]

/-- Any number of changes, there and back, keeps the tokens. -/
theorem alike_of_eqvGen {line other : List Char} (edits : Relation.EqvGen Edit line other) :
    Alike line other := by
  rw [alike_iff]
  induction edits with
  | rel line other edit => exact alike_iff.mp edit.alike
  | refl line => rfl
  | symm line other _ ih => exact ih.symm
  | trans line between other _ _ first second => exact first.trans second

/-! ## Sources that assemble alike -/

/-- Two sources whose lines come from each other by changes that keep the tokens. -/
def SameUpToEdits (source other : String) : Prop :=
  List.Forall₂ (Relation.EqvGen Edit) (Text.lines source.toList) (Text.lines other.toList)

theorem sameTokens_of_edits {source other : String} (edits : SameUpToEdits source other) :
    SameTokens source other := by
  refine List.Forall₂.imp ?_ edits
  intro line other changed
  exact alike_of_eqvGen changed

/-- A return that is left on a line is a blank at its end. -/
theorem sameTokens_withReturns (source : String) :
    SameTokens source (String.ofList (Text.withReturns source.toList)) := by
  rw [SameTokens, String.toList_ofList]
  refine List.Forall₂.imp ?_ (Text.lines_withReturns source.toList)
  rintro line other (rfl | rfl)
  · exact alike_iff.mpr rfl
  · exact (Edit.trail line (List.all_eq_true.mp (by decide))).alike

/-- The assembler sees only tokens. Sources with the same tokens up to case, line by line, give the
same program, or errors of the same kind on the same line with the same text up to case. So do
sources that differ in comments, blanks and the case of letters, and sources with line ends of
different kinds. -/
theorem assemble_tokens :
    (∀ source other, SameTokens source other → Agree (assemble source) (assemble other)) ∧
    (∀ source other, SameUpToEdits source other → Agree (assemble source) (assemble other)) ∧
    ∀ source, Agree (assemble source)
      (assemble (String.ofList (Text.withReturns source.toList))) := by
  refine ⟨?_, ?_, ?_⟩
  · intro source other same
    exact agree_of_sameTokens same
  · intro source other edits
    exact agree_of_sameTokens (sameTokens_of_edits edits)
  · intro source
    exact agree_of_sameTokens (sameTokens_withReturns source)

/-- A program in two layouts, an error with two texts, and a line that is indented and given a
comment. -/
theorem assemble_tokens_layouts :
    let program := "top: ldi 0x1F ; start\njmp TOP\n"
    let layout := "\tTOP:\u3000LDI 0X1f\r\n\r  Jmp\u00A0top//back"
    (SameTokens program layout ∧ Agree (assemble program) (assemble layout)) ∧
    (SameTokens "LDA zero" "lda Zero" ∧ assemble "LDA zero" ≠ assemble "lda Zero" ∧
      Agree (assemble "LDA zero") (assemble "lda Zero")) ∧
    (SameUpToEdits "HLT" "  HLT;stop" ∧ Agree (assemble "HLT") (assemble "  HLT;stop")) := by
  intro program layout
  have layouts : SameTokens program layout := by
    unfold SameTokens Alike program layout
    decide
  have texts : SameTokens "LDA zero" "lda Zero" := by
    unfold SameTokens Alike
    decide
  have indented : Edit "HLT".toList ("  ".toList ++ "HLT".toList) :=
    .indent (List.all_eq_true.mp (by decide)) _
  have commented : Edit "  HLT".toList ("  HLT".toList ++ ';' :: "stop".toList) := .semicolon ..
  have edits : SameUpToEdits "HLT" "  HLT;stop" :=
    .cons (.trans _ _ _ (.rel _ _ indented) (.rel _ _ commented)) .nil
  exact ⟨⟨layouts, assemble_tokens.1 _ _ layouts⟩,
    ⟨texts, by decide, assemble_tokens.1 _ _ texts⟩, edits, assemble_tokens.2.1 _ _ edits⟩

end NibbleComputer.Assembly
