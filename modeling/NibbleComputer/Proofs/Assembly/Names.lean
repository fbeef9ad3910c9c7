import NibbleComputer.Proofs.Assembly.Faults
import NibbleComputer.Proofs.Assembly.Layout
import NibbleComputer.Proofs.Assembly.Literals
import NibbleComputer.Proofs.Assembly.Scanning

/-!
# The names of labels

Which operands name a label. A label is defined as a word of ASCII letters, digits and underscores,
but operands are looked up in upper case, and ten letters beyond ASCII have an upper case of ASCII
letters. So an operand that is no literal names a label as it is written, the case of ASCII letters
apart, or by such a letter.

- `Assembly.strays`: the ten letters, `Assembly.upperChar_label_iff` that there are no others.
- `Assembly.same_of_upper_eq`: two words with the same upper case.
- `Assembly.Names`, `Assembly.Matches`: an operand is the name of a label that some line defines, or
  has the same upper case.
- `Assembly.operand_names_label`: the operands of a source that assembles.
-/

namespace NibbleComputer.Assembly

variable {lines : List Line} {word name : List Char} {c : Char}

/-! ## Upper case within ASCII -/

/-- The letters beyond ASCII with an upper case of ASCII letters: the sharp s, the dotless i, the
long s and the ligatures of f, i, l, s and t. -/
def strays : List Nat :=
  [0xDF, 0x131, 0x17F, 0xFB00, 0xFB01, 0xFB02, 0xFB03, 0xFB04, 0xFB05, 0xFB06]

/-- A label character is one of ASCII. -/
theorem toNat_lt_of_isLabelChar (label : isLabelChar c = true) : c.toNat < 128 := by
  rcases Bool.or_eq_true_iff.mp label with letter | mark
  · have ranges := ranges_of_isAlphanum letter
    omega
  · rw [beq_iff_eq.mp mark]
    decide

/-- What a code point stands for is no label character beyond ASCII. -/
theorem lt_of_isLabelChar_ofNat {code : Nat} (label : isLabelChar (Char.ofNat code) = true) :
    code < 128 := by
  by_cases valid : code.isValidChar
  · have same : (Char.ofNat code).toNat = code := by
      rw [Char.ofNat, dif_pos valid]
      rfl
    rw [← same]
    exact toNat_lt_of_isLabelChar label
  · -- what is no code point stands for the first character, which is no label character
    have zero : Char.ofNat code = Char.ofNat 0 := by
      rw [Char.ofNat, dif_neg valid]
      rfl
    rw [zero] at label
    exact absurd label (by decide)

/-- A longer upper case has a character beyond ASCII, except for strays. -/
theorem stray_of_expansion : ∀ entry ∈ Text.upperExpansions,
    (∀ code ∈ entry.2, code < 128) → entry.1 ∈ strays := by
  decide

/-- The upper case of a range of letters lies beyond ASCII, except for strays. -/
theorem stray_of_range : ∀ range ∈ Text.upperRanges,
    128 ≤ range.image ∨ range.first = range.last ∧ range.first ∈ strays := by
  decide +kernel

/-- Within ASCII, only label characters have an upper case of label characters. -/
theorem upperChar_label_iff_of_ascii (ascii : c.toNat < 128) :
    (∀ d ∈ Text.upperChar c, isLabelChar d = true) ↔ isLabelChar c = true := by
  have letters : ∀ n < 128, isLabelChar (Char.ofNat n).toUpper = isLabelChar (Char.ofNat n) := by
    decide
  have same := letters c.toNat ascii
  rw [Char.ofNat_toNat] at same
  rw [Text.upperChar_of_ascii ascii, List.forall_mem_singleton, same]

/-- Beyond ASCII, only strays have an upper case of label characters. -/
theorem stray_of_upperChar (beyond : ¬ c.toNat < 128)
    (label : ∀ d ∈ Text.upperChar c, isLabelChar d = true) : c.toNat ∈ strays := by
  rw [Text.upperChar, if_neg beyond] at label
  split at label
  · next codes found =>
    obtain ⟨before, after, split, -⟩ := List.lookup_eq_some_iff.mp found
    refine stray_of_expansion (c.toNat, codes) (by rw [split]; simp) fun code mem => ?_
    exact lt_of_isLabelChar_ofNat (label _ (List.mem_map_of_mem mem))
  split at label
  · next range found =>
    have image : range.image + (c.toNat - range.first) < 128 :=
      lt_of_isLabelChar_ofNat (label _ (List.mem_singleton_self _))
    rcases stray_of_range range (List.mem_of_find?_eq_some found) with large | ⟨single, stray⟩
    · omega
    · -- the range is one letter, which is the character
      have holds : range.holds c.toNat = true := (List.find?_eq_some_iff_append.mp found).1
      simp only [Text.CaseRange.holds, Bool.and_eq_true, decide_eq_true_eq] at holds
      have first : c.toNat = range.first := by omega
      rwa [first]
  · exact absurd (toNat_lt_of_isLabelChar (label c (List.mem_singleton_self c))) beyond

theorem upperChar_label_of_stray (stray : c.toNat ∈ strays) :
    ∀ d ∈ Text.upperChar c, isLabelChar d = true := by
  have table : ∀ code ∈ strays, (Text.upperChar (Char.ofNat code)).all isLabelChar = true := by
    decide
  have all := table c.toNat stray
  rw [Char.ofNat_toNat] at all
  exact List.all_eq_true.mp all

/-- An upper case of label characters is that of a label character or of a stray. -/
theorem upperChar_label_iff :
    (∀ d ∈ Text.upperChar c, isLabelChar d = true) ↔ isLabelChar c = true ∨ c.toNat ∈ strays := by
  constructor
  · intro label
    by_cases ascii : c.toNat < 128
    · exact .inl ((upperChar_label_iff_of_ascii ascii).mp label)
    · exact .inr (stray_of_upperChar ascii label)
  · rintro (label | stray)
    · exact (upperChar_label_iff_of_ascii (toNat_lt_of_isLabelChar label)).mpr label
    · exact upperChar_label_of_stray stray

/-- A word with the upper case of a name consists of label characters and strays. -/
theorem label_or_stray_of_upper_eq (chars : ∀ c ∈ name, isLabelChar c = true)
    (same : Text.upper word = Text.upper name) :
    ∀ c ∈ word, isLabelChar c = true ∨ c.toNat ∈ strays := by
  intro c mem
  refine upperChar_label_iff.mp fun d upper => ?_
  have there : d ∈ Text.upper name := same ▸ List.mem_flatMap.mpr ⟨c, mem, upper⟩
  obtain ⟨c', mem', upper'⟩ := List.mem_flatMap.mp there
  exact upperChar_label_iff.mpr (.inl (chars c' mem')) d upper'

/-- A text of label characters keeps its lower case in upper case. -/
theorem lower_upper_of_label (chars : ∀ c ∈ word, isLabelChar c = true) :
    Text.lower (Text.upper word) = Text.lower word := by
  have letters : ∀ n < 128, (Char.ofNat n).toUpper.toLower = (Char.ofNat n).toLower := by decide
  have ascii : ∀ c ∈ word, c.toNat < 128 := fun c mem => toNat_lt_of_isLabelChar (chars c mem)
  rw [Text.upper_of_ascii ascii, Text.lower, List.map_map]
  refine List.map_congr_left fun c mem => ?_
  have same := letters c.toNat (ascii c mem)
  rwa [Char.ofNat_toNat] at same

/-- A word with the upper case of a name is that name up to the case of ASCII letters, unless it has
a stray. -/
theorem same_of_upper_eq (chars : ∀ c ∈ name, isLabelChar c = true)
    (same : Text.upper word = Text.upper name) (plain : ∀ c ∈ word, c.toNat ∉ strays) :
    Text.sameIgnoringCase word name = true := by
  have label : ∀ c ∈ word, isLabelChar c = true := fun c mem =>
    (label_or_stray_of_upper_eq chars same c mem).resolve_right (plain c mem)
  rw [Text.sameIgnoringCase_iff, ← lower_upper_of_label label, same, lower_upper_of_label chars]

/-! ## Names -/

/-- What is split off a text as a label is a word of label characters. -/
theorem label_of_splitLabel? {text rest : List Char}
    (split : splitLabel? text = some (name, rest)) :
    name ≠ [] ∧ ∀ c ∈ name, isLabelChar c = true := by
  by_cases colon : ':' ∈ text
  · obtain ⟨label, rest', rfl, plain⟩ := List.eq_append_cons_of_mem colon
    rw [splitLabel?_append_colon plain] at split
    split at split
    · next chars =>
      cases split
      simpa using chars
    · cases split
  · rw [splitLabel?_of_notMem colon] at split
    cases split

/-- The lines of a source define labels of label characters only. -/
theorem label_of_mem_sourceLines {source : List Char} {line : Line}
    (mem : line ∈ sourceLines source) (named : line.label? = some name) :
    name ≠ [] ∧ ∀ c ∈ name, isLabelChar c = true := by
  obtain ⟨⟨text, number⟩, -, rfl⟩ := List.mem_map.mp mem
  unfold Line.read at named
  dsimp only at named
  split at named
  · next label rest split =>
    cases named
    exact label_of_splitLabel? split
  · cases named

/-- The word is the name of a label that some line defines, up to the case of ASCII letters. -/
def Names (lines : List Line) (word : List Char) : Prop :=
  ∃ line ∈ lines, ∃ name ∈ line.label?, Text.sameIgnoringCase word name = true

instance : Decidable (Names lines word) :=
  inferInstanceAs (Decidable (∃ line ∈ lines, ∃ name ∈ line.label?, _ = true))

/-- The word has the upper case of a label that some line defines. -/
def Matches (lines : List Line) (word : List Char) : Prop :=
  ∃ line ∈ lines, ∃ name ∈ line.label?, Text.upper word = Text.upper name

/-- The words that have an address are those with the upper case of a label. -/
theorem find?_labels_eq_none_iff_not_matches :
    (labels lines).find? (labelKey word) = none ↔ ¬ Matches lines word := by
  rw [find?_labels_eq_none_iff]
  simp [Matches, Line.Defines, labelKey, String.ofList_inj, eq_comm]

/-- The word is a literal of 64 bits. -/
def IsLiteral (word : List Char) : Prop :=
  ∃ number, Literal word number ∧ Text.IsInt64 number

theorem readInteger?_eq_none_iff : readInteger? word = none ↔ ¬ IsLiteral word := by
  rw [Option.eq_none_iff_forall_ne_some]
  simp [IsLiteral, readInteger?_eq_some_iff]

/-- A word with the upper case of a label is the name of that label, unless it has a stray. -/
theorem names_of_matches {source : List Char} (matching : Matches (sourceLines source) word)
    (plain : ∀ c ∈ word, c.toNat ∉ strays) : Names (sourceLines source) word := by
  obtain ⟨line, mem, name, named, same⟩ := matching
  have chars := (label_of_mem_sourceLines mem named).2
  exact ⟨line, mem, name, named, same_of_upper_eq chars same plain⟩

/-- The operand of an encoded statement of two nibbles matches a label, or it is a literal. -/
theorem Encodes.exists_operand {statement : Statement} {nibbles : List Nibble}
    (rules : Encodes (labels lines) statement nibbles) (wide : statement.width = 2) :
    ∃ word, statement.operand? = some word ∧ (Matches lines word ∨ IsLiteral word) := by
  rw [← rules.length_eq] at wide
  cases rules with
  | data => cases wide
  | single => cases wide
  | @double opcode word value code mnemonic takes operand resolves =>
    refine ⟨word, operand, ?_⟩
    cases resolves with
    | label found =>
      left
      by_contra unmatched
      rw [find?_labels_eq_none_iff_not_matches.mpr unmatched] at found
      cases found
    | literal absent read => exact .inr ⟨_, readInteger?_eq_some_iff.mp read⟩

/-! ## The main result -/

/-- The operand of a statement of two nibbles that assembles. -/
theorem exists_operand_of_assemble {source : String} {program : Program} {statement : Statement}
    (assembled : assemble source = .ok program) (mem : statement ∈ retained source.toList)
    (wide : statement.width = 2) :
    ∃ word, statement.operand? = some word ∧
      (Matches (sourceLines source.toList) word ∨ IsLiteral word) := by
  obtain ⟨position, inside, rfl⟩ := List.getElem_of_mem mem
  obtain ⟨code, rules, -⟩ := exists_encodes_at assembled inside
  rw [labels_of_assemble assembled] at rules
  exact rules.exists_operand wide

/-- **Operands are names or literals.** The labels of a source are words of ASCII letters, digits
and underscores. If the source assembles, each of its instructions of two nibbles has an operand
that is the name of a label up to the case of ASCII letters, or a literal of 64 bits, or has one of
the ten letters beyond ASCII that are ASCII letters in upper case, and is then the name of a label
in upper case. So a source does not assemble if such an operand is no literal and has a character
that is neither one of these letters nor of those that labels consist of. -/
theorem operand_names_label (source : String) :
    let lines := sourceLines source.toList
    let statements := retained source.toList
    (∀ line ∈ lines, ∀ name ∈ line.label?, name ≠ [] ∧ ∀ c ∈ name, isLabelChar c = true) ∧
      (∀ program, assemble source = .ok program →
        ∀ statement ∈ statements, statement.width = 2 →
          ∃ word, statement.operand? = some word ∧
            (Names lines word ∨ IsLiteral word ∨
              (∃ c ∈ word, c.toNat ∈ strays) ∧ Matches lines word)) ∧
      ∀ statement ∈ statements, statement.width = 2 → ∀ word, statement.operand? = some word →
        ¬ IsLiteral word → (∃ c ∈ word, isLabelChar c = false ∧ c.toNat ∉ strays) →
          ∃ error, assemble source = .error error := by
  intro lines statements
  refine ⟨fun line mem name named => label_of_mem_sourceLines mem named, ?_, ?_⟩
  · intro program assembled statement mem wide
    obtain ⟨word, operand, matching | literal⟩ := exists_operand_of_assemble assembled mem wide
    · refine ⟨word, operand, ?_⟩
      by_cases stray : ∃ c ∈ word, c.toNat ∈ strays
      · exact .inr (.inr ⟨stray, matching⟩)
      · exact .inl (names_of_matches matching fun c mem code => stray ⟨c, mem, code⟩)
    · exact ⟨word, operand, .inr (.inl literal)⟩
  · intro statement mem wide word operand unread ⟨c, inWord, other, plain⟩
    cases assembled : assemble source with
    | error error => exact ⟨error, rfl⟩
    | ok program =>
      -- the operand would match a label, and have no character but those of labels and strays
      obtain ⟨word', operand', found⟩ := exists_operand_of_assemble assembled mem wide
      obtain rfl : word = word' := Option.some.inj (operand.symm.trans operand')
      rcases found with matching | literal
      · obtain ⟨line, defined, name, named, same⟩ := matching
        have chars := (label_of_mem_sourceLines defined named).2
        rcases label_or_stray_of_upper_eq chars same c inWord with label | stray
        · rw [other] at label
          cases label
        · exact absurd stray plain
      · exact absurd literal unread

/-- A label that an operand names with a sharp s, and an operand with an accent that names none. -/
theorem operand_names_label_accents :
    let source := "gross: SUB groß"
    let program : Program :=
      { code := Memory.blank.fill [3, 0], size := 2, labels := ⟨[("GROSS", 0)]⟩ }
    let statement : Statement := ⟨1, "SUB".toList, some "groß".toList⟩
    let accented := "e: JMP é"
    let jump : Statement := ⟨1, "JMP".toList, some "é".toList⟩
    (assemble source = .ok program ∧ retained source.toList = [statement] ∧ statement.width = 2 ∧
        ((∃ c ∈ "groß".toList, c.toNat ∈ strays) ∧
          Matches (sourceLines source.toList) "groß".toList)) ∧
      retained accented.toList = [jump] ∧ jump.width = 2 ∧ ¬ IsLiteral "é".toList ∧
        ∃ error, assemble accented = .error error := by
  intro source program statement accented jump
  have assembled : assemble source = .ok program := by
    dsimp only [source, program]
    rfl
  have lines : retained source.toList = [statement] := by decide +kernel
  have jumps : retained accented.toList = [jump] := by decide +kernel
  have unread : ¬ IsLiteral "é".toList := readInteger?_eq_none_iff.mp (by decide)
  obtain ⟨-, operands, -⟩ := operand_names_label source
  obtain ⟨-, -, fails⟩ := operand_names_label accented
  obtain ⟨word, operand, found⟩ := operands program assembled statement (by simp [lines]) rfl
  obtain rfl := Option.some.inj operand
  refine ⟨⟨assembled, lines, rfl, ?_⟩, jumps, rfl, unread, ?_⟩
  · -- the operand is neither the label as written nor a literal
    have unnamed : ¬ Names (sourceLines source.toList) "groß".toList := by decide +kernel
    have unread' : ¬ IsLiteral "groß".toList := readInteger?_eq_none_iff.mp (by decide)
    exact (found.resolve_left unnamed).resolve_left unread'
  · have accent : ∃ c ∈ "é".toList, isLabelChar c = false ∧ c.toNat ∉ strays :=
      ⟨'é', by simp, by decide, by decide⟩
    exact fails jump (by simp [jumps]) rfl "é".toList rfl unread accent

/-- **A long s names the label s.** The operand is not its name in ASCII, nor a literal, but the
source assembles. -/
theorem operand_names_label_long_s :
    let source := "s: DATA 1\nLDA ſ"
    let program : Program :=
      { code := Memory.blank.fill [1, 1, 0], size := 3, labels := ⟨[("S", 0)]⟩ }
    let statement : Statement := ⟨2, "LDA".toList, some "ſ".toList⟩
    assemble source = .ok program ∧ statement ∈ retained source.toList ∧ statement.width = 2 ∧
      ¬ Names (sourceLines source.toList) "ſ".toList ∧ ¬ IsLiteral "ſ".toList ∧
        ∃ c ∈ "ſ".toList, isLabelChar c = false := by
  intro source program statement
  have assembled : assemble source = .ok program := by
    dsimp only [source, program]
    rfl
  have lines : retained source.toList = [⟨1, "DATA".toList, some "1".toList⟩, statement] := by
    decide +kernel
  have unnamed : ¬ Names (sourceLines source.toList) "ſ".toList := by decide +kernel
  have unread : ¬ IsLiteral "ſ".toList := readInteger?_eq_none_iff.mp (by decide)
  exact ⟨assembled, by simp [lines], rfl, unnamed, unread, 'ſ', by simp, by decide⟩

end NibbleComputer.Assembly
