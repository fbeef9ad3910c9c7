import NibbleComputer.Assembly.Labels
import NibbleComputer.Listing
import NibbleComputer.Memory
import NibbleComputer.Proofs.Assembly.Retained
import NibbleComputer.Proofs.Assembly.Scanning
import NibbleComputer.Proofs.Text.Lines
import NibbleComputer.Proofs.Text.Numerals

/-!
# Listings as source text

A row of a listing is a line of assembly source: its address is the label, its text the statement,
and its column of cells lies behind a comment mark. So the lines of a listing are three empty ones
and then a labelled statement for each row.

- `Assembly.read_labelled`: a line with a label and a comment, taken apart.
- `Listing.Row.line`: a row as a source line, `Listing.rowLines` all of them.
- `Listing.lines_render`, `Listing.sourceLines_render`: the lines of a listing as they are and as
  the assembler reads them.
-/

namespace NibbleComputer

/-! ## Labelled lines with a comment -/

namespace Assembly

/-- A line that consists of a label, a statement and a comment. -/
theorem read_labelled {label text : List Char} (ne : label ≠ [])
    (chars : label.all isLabelChar = true) (semicolon : ';' ∉ text) (slash : '/' ∉ text)
    (comment : List Char) (number : Nat) :
    Line.read ((label ++ ':' :: text) ++ ';' :: comment) number =
      { number, label? := some label, words := Text.words text } := by
  have stripped : stripComment ((label ++ ':' :: text) ++ ';' :: comment) =
      label ++ ':' :: text := by
    rw [stripComment_append_semicolon]
    refine stripComment_of_notMem ?_ ?_
    · simp only [List.mem_append, List.mem_cons, not_or]
      exact ⟨notMem_of_all chars (by decide), by decide, semicolon⟩
    · simp only [List.mem_append, List.mem_cons, not_or]
      exact ⟨notMem_of_all chars (by decide), by decide, slash⟩
  -- a label starts with no blank, and the colon keeps the blanks before the statement
  have trimmed : Text.trim (label ++ ':' :: text) = label ++ ':' :: Text.trimEnd text := by
    obtain ⟨c, label, rfl⟩ := List.exists_cons_of_ne_nil ne
    have first := isBlank_of_isLabelChar (List.all_eq_true.mp chars c (List.mem_cons_self ..))
    rw [Text.trim, List.cons_append, Text.trimStart_cons first, ← List.cons_append,
      Text.trimEnd_append_cons (by decide)]
  unfold Line.read
  dsimp only
  rw [stripped, trimmed, splitLabel?_append ne chars]
  dsimp only
  rw [Text.words_trimEnd]

end Assembly

/-! ## The text of an instruction -/

namespace Instruction

open Assembly

/-- The operand as the text shows it. -/
def operandWord? (instruction : Instruction) : Option (List Char) :=
  if instruction.opcode.takesOperand then
    some (instruction.operand?.elim "?" Nibble.decimal).toList
  else none

/-- A mnemonic is a word of letters. -/
theorem mnemonic_word (opcode : Opcode) :
    opcode.mnemonic.toList ≠ [] ∧ opcode.mnemonic.toList.all isLabelChar = true := by
  have nop : Opcode.nop.mnemonic.toList ≠ [] ∧
      Opcode.nop.mnemonic.toList.all isLabelChar = true := by decide
  cases opcode with
  | reserved nibble => exact nop
  | _ => decide

/-- An operand is a numeral or a question mark. -/
theorem operand_word (operand? : Option Nibble) :
    (operand?.elim "?" Nibble.decimal).toList ≠ [] ∧
      (operand?.elim "?" Nibble.decimal).toList.all (fun c => isLabelChar c || c == '?') = true := by
  cases operand? with
  | none => decide
  | some operand =>
    revert operand
    decide

/-- The text of an instruction with an operand. -/
theorem text_of_takesOperand {instruction : Instruction}
    (takes : instruction.opcode.takesOperand = true) :
    instruction.text.toList = instruction.opcode.mnemonic.toList ++
      ' ' :: (instruction.operand?.elim "?" Nibble.decimal).toList := by
  unfold text
  rw [if_pos takes]
  cases instruction.operand? <;> simp

theorem text_of_alone {instruction : Instruction}
    (alone : instruction.opcode.takesOperand = false) :
    instruction.text = instruction.opcode.mnemonic := by
  unfold text
  rw [alone]
  rfl

/-- The words of an instruction's text are the mnemonic and the operand. -/
theorem words_text (instruction : Instruction) :
    Text.words instruction.text.toList =
      instruction.opcode.mnemonic.toList :: instruction.operandWord?.toList := by
  obtain ⟨ne, letters⟩ := mnemonic_word instruction.opcode
  have mnemonic := Text.words_of_unblank ne fun c mem =>
    isBlank_of_isLabelChar (List.all_eq_true.mp letters c mem)
  unfold operandWord?
  cases takes : instruction.opcode.takesOperand with
  | false =>
    rw [text_of_alone takes, mnemonic]
    rfl
  | true =>
    obtain ⟨ne, digits⟩ := operand_word instruction.operand?
    have operand := Text.words_of_unblank ne fun c mem => by
      rcases Bool.or_eq_true_iff.mp (List.all_eq_true.mp digits c mem) with digit | question
      · exact isBlank_of_isLabelChar digit
      · rw [beq_iff_eq.mp question]
        decide
    rw [text_of_takesOperand takes, Text.words_append_blank (by decide), mnemonic, operand]
    rfl

/-- The characters of an instruction's text. -/
def isTextChar (c : Char) : Bool :=
  isLabelChar c || c == ' ' || c == '?'

theorem all_isTextChar_of_label {text : List Char} (h : text.all isLabelChar = true) :
    text.all isTextChar = true := by
  refine List.all_eq_true.mpr fun c mem => ?_
  simp [isTextChar, List.all_eq_true.mp h c mem]

theorem all_isTextChar_text (instruction : Instruction) :
    instruction.text.toList.all isTextChar = true := by
  have letters := all_isTextChar_of_label (mnemonic_word instruction.opcode).2
  cases takes : instruction.opcode.takesOperand with
  | false => rw [text_of_alone takes, letters]
  | true =>
    have operand : (instruction.operand?.elim "?" Nibble.decimal).toList.all isTextChar = true := by
      refine List.all_eq_true.mpr fun c mem => ?_
      have digit := List.all_eq_true.mp (operand_word instruction.operand?).2 c mem
      simpa [isTextChar, or_right_comm] using Or.inl digit
    rw [text_of_takesOperand takes, List.all_append, List.all_cons, letters, operand]
    rfl

end Instruction

/-! ## Rows -/

namespace Listing

open Assembly

/-- The addresses of the rows lie among those of the cells. -/
theorem address_of_mem_rows {address : Nat} {cells : List Nibble} {row : Row}
    (mem : row ∈ rows address cells) :
    address ≤ row.address ∧ row.address < address + cells.length := by
  fun_induction rows address cells with
  | case1 => cases mem
  | case2 address head takes =>
    cases List.mem_singleton.mp mem
    exact ⟨Nat.le_refl _, Nat.lt_succ_self _⟩
  | case3 address head takes operand rest ih =>
    simp only [List.length_cons]
    rcases List.mem_cons.mp mem with rfl | later
    · dsimp only
      omega
    · have := ih later
      omega
  | case4 address head rest alone ih =>
    simp only [List.length_cons]
    rcases List.mem_cons.mp mem with rfl | later
    · dsimp only
      omega
    · have := ih later
      omega

/-- An address is a label, of digits and capitals. -/
theorem hexadecimal_label (address : Nat) : (Text.hexadecimal address).toList ≠ [] ∧
    (Text.hexadecimal address).toList.all isLabelChar = true := by
  have numeral := Text.numeral_hexadecimal address
  have digit : ∀ value < 16, isLabelChar (Nat.digitChar value) = true ∧
      isLabelChar (Nat.digitChar value).toUpper = true := by decide
  refine ⟨numeral.ne_nil, List.all_eq_true.mpr fun c mem => ?_⟩
  obtain ⟨value, below, rfl | rfl⟩ := numeral.exists_isDigit c mem
  · exact (digit value below).1
  · exact (digit value below).2

theorem labelKey_hexadecimal : ∀ address < memorySize,
    labelKey (Text.hexadecimal address).toList = Text.hexadecimal address := by
  decide

def Row.line (row : Row) (number : Nat) : Line where
  number := number
  label? := some (Text.hexadecimal row.address).toList
  words := row.instruction.opcode.mnemonic.toList :: row.instruction.operandWord?.toList

def Row.column (row : Row) : String :=
  " ".intercalate (row.instruction.raw.map Nibble.hex)

/-- The column of cells holds digits and blanks. -/
theorem Row.all_isTextChar_column (row : Row) :
    row.column.toList.all Instruction.isTextChar = true := by
  have digit : ∀ n : Nibble, n.hex.toList.all Instruction.isTextChar = true := by decide
  unfold column Instruction.raw
  cases row.instruction.operand? with
  | none =>
    rw [Option.toList_none, List.map_cons, List.map_nil, String.intercalate_singleton]
    exact digit _
  | some operand =>
    rw [Option.toList_some, List.map_cons, List.map_cons, List.map_nil,
      String.intercalate_cons_cons, String.intercalate_singleton, String.toList_append,
      String.toList_append, List.all_append, List.all_append, digit, digit]
    rfl

/-- A row is a label, the text among blanks, and the column of cells as a comment. -/
theorem Row.toList_display (row : Row) : ∃ statement : List Char,
    Text.words statement = Text.words row.instruction.text.toList ∧
      statement.all Instruction.isTextChar = true ∧
      row.display.toList = ((Text.hexadecimal row.address).toList ++ ':' :: statement) ++
        ';' :: ' ' :: row.column.toList := by
  let fill := List.replicate (8 - row.instruction.text.toList.length) ' ' ++ [' ']
  have space : ∀ c ∈ fill, c = ' ' := by
    intro c mem
    rcases List.mem_append.mp mem with inner | last
    · exact List.eq_of_mem_replicate inner
    · exact List.mem_singleton.mp last
  have blank : fill.all Instruction.isTextChar = true := by
    refine List.all_eq_true.mpr fun c mem => ?_
    rw [space c mem]
    decide
  refine ⟨' ' :: (row.instruction.text.toList ++ fill), ?_, ?_, ?_⟩
  · rw [Text.words_cons_of_isBlank (by decide), Text.words_append_of_blank]
    intro c mem
    rw [space c mem]
    decide
  · rw [List.all_cons, List.all_append, row.instruction.all_isTextChar_text, blank]
    rfl
  · simp [display, column, fill]

/-- A character that no row uses is not in a row. -/
theorem Row.notMem_display {row : Row} {mark : Char}
    (text : Instruction.isTextChar mark = false) (colon : mark ≠ ':') (semicolon : mark ≠ ';') :
    mark ∉ row.display.toList := by
  obtain ⟨statement, -, chars, shown⟩ := row.toList_display
  have label := Instruction.all_isTextChar_of_label (hexadecimal_label row.address).2
  have space : mark ≠ ' ' := by
    rintro rfl
    exact absurd text (by decide)
  rw [shown]
  simp only [List.mem_append, List.mem_cons, not_or]
  exact ⟨⟨notMem_of_all label text, colon, notMem_of_all chars text⟩, semicolon, space,
    notMem_of_all row.all_isTextChar_column text⟩

/-- The assembler reads a row as its label and its words. -/
theorem Row.read_display (row : Row) (number : Nat) :
    Line.read row.display.toList number = row.line number := by
  obtain ⟨statement, words, chars, shown⟩ := row.toList_display
  obtain ⟨ne, label⟩ := hexadecimal_label row.address
  rw [shown, read_labelled ne label (notMem_of_all chars (by decide))
    (notMem_of_all chars (by decide)), words, Instruction.words_text, line]

/-! ## The listing -/

/-- Some rows as source lines, numbered from a given number on. -/
def rowLines (first : Nat) (rows : List Row) : List Line :=
  (rows.zipIdx first).map fun (row, number) => row.line number

/-- The header as source lines, all of them empty. -/
def headerLines : List Line := [⟨1, none, []⟩, ⟨2, none, []⟩, ⟨3, none, []⟩]

/-- The lines of a listing are those of the header and one for each row. -/
theorem lines_render (cells : List Nibble) : Text.lines (render cells).toList =
    (header ++ (rows 0 cells).map Row.display).map String.toList := by
  have top : ∀ text ∈ header, '\n' ∉ text.toList ∧ '\r' ∉ text.toList := by decide
  refine Text.lines_unlines (List.forall_mem_append.mpr ⟨top, List.forall_mem_map.mpr ?_⟩)
  exact fun row _ => ⟨Row.notMem_display (by decide) (by decide) (by decide),
    Row.notMem_display (by decide) (by decide) (by decide)⟩

/-- The source lines of a listing are the empty ones of the header and one for each row. -/
theorem sourceLines_render (cells : List Nibble) : sourceLines (render cells).toList =
    headerLines ++ rowLines (header.length + 1) (rows 0 cells) := by
  have body : ((((rows 0 cells).map Row.display).map String.toList).zipIdx (header.length + 1)).map
      (fun line => Line.read line.1 line.2) = rowLines (header.length + 1) (rows 0 cells) := by
    rw [rowLines, List.map_map, List.zipIdx_map, List.map_map]
    refine List.map_congr_left fun (row, number) _ => ?_
    simp only [Function.comp_apply, Prod.map_apply, id_eq]
    exact row.read_display number
  rw [sourceLines, Text.numberedLines, lines_render, List.map_append, List.zipIdx_append,
    List.map_append, ← body]
  rfl

end Listing

end NibbleComputer
