import NibbleComputer.Proofs.Assembly.Layout
import NibbleComputer.Proofs.Listing.Source

/-!
# Reassembling a listing

A listing is source text, and assembling it gives the listed cells back. The two notations meet in
the operands: they are printed in decimal, while every row starts with its address in hexadecimal
as a label, and labels come before literals. An operand below ten that spells a label spells the
address that it is, and no label spells a larger operand, so that the labels change nothing.

A nibble without a meaning shows as the instruction that does nothing and becomes zero. If the last
row lacks its operand, assembly fails on that row.

- `Listing.ReservedAt`, `Listing.endsTruncated`: what does not come back.
- `Listing.find?_labels_rowLines`: the labels of a listing.
- `Listing.encodeFrom_rowLines`: the second pass over the rows.
- `Listing.assemble_render`: assembling a listing.
-/

namespace NibbleComputer

/-- Whether a nibble has no meaning as an opcode. -/
def Nibble.isReserved (n : Nibble) : Bool :=
  9 ≤ n && n ≤ 13

namespace Instruction

/-- Whether the opcode takes an operand and there is no cell for it. -/
def isTruncated (instruction : Instruction) : Bool :=
  instruction.opcode.takesOperand && instruction.operand?.isNone

/-- The nibbles that the text of an instruction stands for. -/
def respelled (instruction : Instruction) : List Nibble :=
  (if instruction.head.isReserved then 0 else instruction.head) :: instruction.operand?.toList

end Instruction

namespace Listing

open Assembly

/-- A row at an address shows a nibble without a meaning as an instruction. -/
def ReservedAt (rows : List Row) (address : Nat) : Prop :=
  ∃ row ∈ rows, row.address = address ∧ row.instruction.head.isReserved = true

instance (rows : List Row) (address : Nat) : Decidable (ReservedAt rows address) :=
  inferInstanceAs (Decidable (∃ row ∈ rows, _))

/-- Whether the last row lacks its operand. -/
def endsTruncated (rows : List Row) : Bool :=
  rows.getLast?.any (·.instruction.isTruncated)

/-- The nibbles that the texts of some rows stand for. -/
def respelled (rows : List Row) : List Nibble :=
  rows.flatMap (·.instruction.respelled)

/-! ## Nibbles of the rows -/

@[simp] theorem respelled_cons (row : Row) (others : List Row) :
    respelled (row :: others) = row.instruction.respelled ++ respelled others := rfl

theorem endsTruncated_cons {row : Row} (whole : row.instruction.isTruncated = false)
    (others : List Row) : endsTruncated (row :: others) = endsTruncated others := by
  cases others with
  | nil => simp [endsTruncated, whole]
  | cons next others => simp [endsTruncated, List.getLast?_cons_cons]

theorem reservedAt_cons {row : Row} {others : List Row} {address : Nat} :
    ReservedAt (row :: others) address ↔
      row.address = address ∧ row.instruction.head.isReserved = true ∨ ReservedAt others address := by
  simp [ReservedAt]

theorem length_respelled (address : Nat) (cells : List Nibble) :
    (respelled (rows address cells)).length = cells.length := by
  conv_rhs => rw [← flatMap_raw_rows address cells]
  rw [respelled, List.length_flatMap, List.length_flatMap]
  rfl

/-- No row lies in front of the first cell. -/
theorem not_reservedAt_of_lt {address below : Nat} (lt : below < address) (cells : List Nibble) :
    ¬ ReservedAt (rows address cells) below := by
  rintro ⟨row, mem, rfl, -⟩
  exact absurd (address_of_mem_rows mem).1 (Nat.not_le_of_lt lt)

/-- An opcode with an operand has a meaning. -/
theorem isReserved_of_takesOperand : ∀ head : Nibble,
    (Opcode.ofNibble head).takesOperand = true → head.isReserved = false := by
  decide

/-- The rows stand for the cells, except that a nibble without a meaning becomes zero where a row
shows it as an instruction. -/
theorem getD_respelled (address : Nat) (cells : List Nibble) (i : Nat) :
    (respelled (rows address cells))[i]?.getD 0 =
      if ReservedAt (rows address cells) (address + i) then 0 else cells[i]?.getD 0 := by
  fun_induction rows address cells generalizing i with
  | case1 => simp [respelled]
  | case2 address head takes =>
    have known := isReserved_of_takesOperand head takes
    simp [respelled, Instruction.respelled, known, ReservedAt]
  | case3 address head takes operand rest ih =>
    have known := isReserved_of_takesOperand head takes
    simp only [reservedAt_cons, known, Bool.false_eq_true, and_false, false_or, respelled_cons,
      Instruction.respelled, if_false, Option.toList_some, List.cons_append, List.nil_append]
    -- the operand is no row of its own
    rcases i with _ | _ | i
    · rw [if_neg (not_reservedAt_of_lt (by omega) rest)]
      rfl
    · rw [if_neg (not_reservedAt_of_lt (by omega) rest)]
      rfl
    · simpa [Nat.add_assoc, Nat.add_comm 2 i] using ih i
  | case4 address head rest alone ih =>
    simp only [respelled_cons, Instruction.respelled, Option.toList_none, List.cons_append,
      List.nil_append]
    cases i with
    | zero =>
      have front := not_reservedAt_of_lt (Nat.lt_succ_self address) rest
      simp [reservedAt_cons, front]
    | succ i =>
      have other : address ≠ address + (i + 1) := by omega
      simpa [reservedAt_cons, other, Nat.add_assoc, Nat.add_comm 1 i] using ih i

/-! ## The labels -/

theorem wordWidth_mnemonic : ∀ head : Nibble,
    wordWidth (Opcode.ofNibble head).mnemonic.toList = (Opcode.ofNibble head).width := by
  decide

@[simp] theorem rowLines_nil (first : Nat) : rowLines first [] = [] := rfl

@[simp] theorem rowLines_cons (first : Nat) (row : Row) (others : List Row) :
    rowLines first (row :: others) = row.line first :: rowLines (first + 1) others := by
  simp [rowLines, List.zipIdx_cons]

theorem exists_of_mem_rowLines {first : Nat} {rows : List Row} {line : Line}
    (mem : line ∈ rowLines first rows) : ∃ row ∈ rows, ∃ number, line = row.line number := by
  obtain ⟨⟨row, number⟩, entry, rfl⟩ := List.mem_map.mp mem
  exact ⟨row, List.fst_mem_of_mem_zipIdx entry, number, rfl⟩

/-- A row defines its address as a label. -/
theorem Row.defines_line {row : Row} (inside : row.address < memorySize) {number : Nat}
    {key : String} : (row.line number).Defines key ↔ key = Text.hexadecimal row.address := by
  rw [Line.Defines, line, Option.map_some, labelKey_hexadecimal _ inside, Option.some_inj,
    eq_comm]

/-- In rows with the first at an address, that address is the label of the first only. -/
theorem not_defines_of_lt {address below first : Nat} {cells : List Nibble}
    (fits : address + cells.length ≤ memorySize) (lt : below < address) :
    ∀ line ∈ rowLines first (rows address cells), ¬ line.Defines (Text.hexadecimal below) := by
  intro line mem defines
  obtain ⟨row, shown, number, rfl⟩ := exists_of_mem_rowLines mem
  have bounds := address_of_mem_rows shown
  have inside : row.address < memorySize := by omega
  have same := Text.hexadecimal_inj ((Row.defines_line inside).mp defines)
  omega

theorem collectLabels_row (row : Row) (inside : row.address < memorySize) (number : Nat)
    (table : LabelTable) (others : List Line) :
    collectLabels row.address table (row.line number :: others) =
      collectLabels (row.address + row.instruction.opcode.width)
        (table.insert (Text.hexadecimal row.address) row.address) others := by
  have width : (row.line number).width = row.instruction.opcode.width :=
    wordWidth_mnemonic row.instruction.head
  rw [collectLabels, width]
  show collectLabels _ (table.insert (labelKey (Text.hexadecimal row.address).toList) _) _ = _
  rw [labelKey_hexadecimal _ inside]

/-- The first pass gives every row its own address. -/
theorem find?_collectLabels_rowLines (first address : Nat) {cells : List Nibble}
    (fits : address + cells.length ≤ memorySize) (table : LabelTable) {row : Row}
    (mem : row ∈ rows address cells) :
    (collectLabels address table (rowLines first (rows address cells))).find?
      (Text.hexadecimal row.address) = some row.address := by
  fun_induction rows address cells generalizing first table with
  | case1 => cases mem
  | case2 address head takes =>
    cases List.mem_singleton.mp mem
    rw [rowLines_cons, rowLines_nil,
      collectLabels_row ⟨address, head, none⟩ (Nat.lt_of_succ_le fits)]
    simp [collectLabels]
  | case3 address head takes operand rest ih =>
    rw [List.length_cons, List.length_cons] at fits
    have inside : address < memorySize := by omega
    have width : (Opcode.ofNibble head).width = 2 := by simp [Opcode.width, takes]
    rw [rowLines_cons, collectLabels_row ⟨address, head, some operand⟩ inside]
    simp only [Instruction.opcode, width]
    rcases List.mem_cons.mp mem with rfl | later
    · rw [find?_collectLabels_of_not_defines (not_defines_of_lt (by omega) (by simp))]
      simp
    · exact ih (first + 1) (by omega) _ later
  | case4 address head rest alone ih =>
    rw [List.length_cons] at fits
    have inside : address < memorySize := by omega
    have width : (Opcode.ofNibble head).width = 1 := by simp [Opcode.width, alone]
    rw [rowLines_cons, collectLabels_row ⟨address, head, none⟩ inside]
    simp only [Instruction.opcode, width]
    rcases List.mem_cons.mp mem with rfl | later
    · rw [find?_collectLabels_of_not_defines (not_defines_of_lt (by omega) (by simp))]
      simp
    · exact ih (first + 1) (by omega) _ later

/-- The labels of a listing are the addresses of its rows, and each stands for itself. -/
theorem find?_labels_rowLines (first : Nat) {cells : List Nibble}
    (fits : cells.length ≤ memorySize) (key : String) (address : Nat) :
    (labels (headerLines ++ rowLines first (rows 0 cells))).find? key = some address ↔
      ∃ row ∈ rows 0 cells, row.address = address ∧ key = Text.hexadecimal address := by
  have fits' : 0 + cells.length ≤ memorySize := by omega
  have top : labels (headerLines ++ rowLines first (rows 0 cells)) =
      collectLabels 0 {} (rowLines first (rows 0 cells)) := rfl
  rw [top]
  constructor
  · intro found
    -- some row defines the label, and no table has two addresses for it
    by_cases defined : ∃ row ∈ rows 0 cells, key = Text.hexadecimal row.address
    · obtain ⟨row, mem, rfl⟩ := defined
      rw [find?_collectLabels_rowLines first 0 fits' {} mem, Option.some_inj] at found
      exact ⟨row, mem, found, by rw [found]⟩
    · rw [find?_collectLabels_of_not_defines, LabelTable.find?_empty] at found
      · cases found
      · intro line mem defines
        obtain ⟨row, shown, number, rfl⟩ := exists_of_mem_rowLines mem
        have bounds := address_of_mem_rows shown
        exact defined ⟨row, shown, (Row.defines_line (by omega)).mp defines⟩
  · rintro ⟨row, mem, rfl, rfl⟩
    exact find?_collectLabels_rowLines first 0 fits' {} mem

/-! ## The operands -/

/-- Every label of the table is the address that it stands for, in hexadecimal. -/
def SpellsAddresses (labels : LabelTable) : Prop :=
  ∀ key address, labels.find? key = some address →
    address < memorySize ∧ key = Text.hexadecimal address

/-- An operand that is printed in decimal keeps its value, whether or not it spells a label. -/
theorem resolves_decimal {labels : LabelTable} (spells : SpellsAddresses labels) (n : Nibble) :
    Resolves labels n.decimal.toList n := by
  have literal : ∀ n : Nibble, readInteger? n.decimal.toList = some (n.val : Int) := by decide
  -- below ten both notations agree, and from ten on a numeral is the label of no cell
  have collision : ∀ n : Nibble, ∀ address < memorySize,
      labelKey n.decimal.toList = Text.hexadecimal address → address = n.val := by decide
  cases found : labels.find? (labelKey n.decimal.toList) with
  | none => simpa using Resolves.literal found (literal n)
  | some address =>
    obtain ⟨inside, key⟩ := spells _ _ found
    have same := collision n address inside key
    rw [same] at found
    simpa using Resolves.label found

/-- The question mark is neither a label nor a literal. -/
theorem resolve?_question {labels : LabelTable} (spells : SpellsAddresses labels) :
    resolve? labels ['?'] = none := by
  have none : ∀ address < memorySize, labelKey ['?'] ≠ Text.hexadecimal address := by decide
  have absent : labels.find? (labelKey ['?']) = Option.none := by
    cases found : labels.find? (labelKey ['?']) with
    | none => rfl
    | some address =>
      obtain ⟨inside, key⟩ := spells _ _ found
      exact absurd key (none address inside)
  rw [resolve?, absent]
  rfl

/-! ## The second pass -/

def Row.statement (row : Row) (number : Nat) : Statement where
  line := number
  mnemonic := row.instruction.opcode.mnemonic.toList
  operand? := row.instruction.operandWord?

/-- The mnemonic of a nibble is that of an opcode with the same operands, which is coded as zero
if the nibble has no meaning and as the nibble otherwise. -/
theorem exists_ofMnemonic? : ∀ head : Nibble, ∃ opcode ∈ Opcode.assigned,
    Opcode.ofMnemonic? (Opcode.ofNibble head).mnemonic.toList = some opcode ∧
      opcode.code = (if head.isReserved then 0 else head) ∧
      opcode.takesOperand = (Opcode.ofNibble head).takesOperand ∧
      Text.sameIgnoringCase (Opcode.ofNibble head).mnemonic.toList dataWord = false := by
  decide

theorem statements_rowLines_cons (first : Nat) (row : Row) (others : List Row) :
    statements (rowLines first (row :: others)) =
      row.statement first :: statements (rowLines (first + 1) others) := by
  have read : (row.line first).statement? = some (row.statement first) := by
    cases h : row.instruction.operandWord? <;> simp [Line.statement?, Row.line, Row.statement, h]
  rw [rowLines_cons, statements, List.filterMap_cons_some read]
  rfl

section Encoding

variable {labels : LabelTable} {address number : Nat} {head : Nibble}

theorem not_isData (operand? : Option Nibble)
    (data : Text.sameIgnoringCase (Opcode.ofNibble head).mnemonic.toList dataWord = false) :
    ¬ (Row.statement ⟨address, head, operand?⟩ number).IsData :=
  Bool.eq_false_iff.mp data

theorem encode_single (inside : address < memorySize)
    (alone : (Opcode.ofNibble head).takesOperand = false) :
    encode labels address (Row.statement ⟨address, head, none⟩ number) =
      .ok (Instruction.mk head none).respelled := by
  obtain ⟨opcode, -, mnemonic, code, takes, data⟩ := exists_ofMnemonic? head
  have rules : Encodes labels (Row.statement ⟨address, head, none⟩ number) [opcode.code] :=
    .single (not_isData none data) mnemonic (takes.trans alone)
  rw [code] at rules
  refine encode_eq_ok_iff.mpr ⟨rules, ?_⟩
  rw [← rules.length_eq]
  exact inside

theorem encode_double (spells : SpellsAddresses labels) (inside : address + 1 < memorySize)
    (takes : (Opcode.ofNibble head).takesOperand = true) (operand : Nibble) :
    encode labels address (Row.statement ⟨address, head, some operand⟩ number) =
      .ok (Instruction.mk head (some operand)).respelled := by
  obtain ⟨opcode, -, mnemonic, code, same, data⟩ := exists_ofMnemonic? head
  have word : (Instruction.mk head (some operand)).operandWord? = some operand.decimal.toList :=
    if_pos takes
  have rules : Encodes labels (Row.statement ⟨address, head, some operand⟩ number)
      [opcode.code, operand] :=
    .double (not_isData (some operand) data) mnemonic (same.trans takes) word
      (resolves_decimal spells operand)
  rw [code] at rules
  refine encode_eq_ok_iff.mpr ⟨rules, ?_⟩
  rw [← rules.length_eq]
  exact inside

/-- A row that lacks its operand. Room for the operand is looked for before the operand. -/
theorem encode_truncated (spells : SpellsAddresses labels) (inside : address < memorySize)
    (takes : (Opcode.ofNibble head).takesOperand = true) :
    encode labels address (Row.statement ⟨address, head, none⟩ number) =
      .error (if address + 1 = memorySize then .programTooLarge else .invalidOperand "?") := by
  obtain ⟨opcode, -, mnemonic, -, same, data⟩ := exists_ofMnemonic? head
  have word : (Instruction.mk head none).operandWord? = some ['?'] := by
    simp [Instruction.operandWord?, Instruction.opcode, takes]
  have read : Opcode.ofMnemonic? (Row.statement ⟨address, head, none⟩ number).mnemonic =
      some opcode := mnemonic
  rw [encode_of_lt inside, if_neg (not_isData none data), read]
  show encodeInstruction labels address opcode (Instruction.mk head none).operandWord? = _
  rw [word, encodeInstruction, same, takes]
  by_cases full : address + 1 = memorySize
  · simp [full]
  · have room : ¬ memorySize ≤ address + 1 := by omega
    simp [full, room, resolve?_question spells]

end Encoding

/-- The second pass over some rows gives the nibbles that they stand for, unless the last of them
lacks its operand. -/
theorem encodeFrom_rowLines {labels : LabelTable} (spells : SpellsAddresses labels)
    (first address : Nat) {cells : List Nibble} (fits : address + cells.length ≤ memorySize) :
    encodeFrom labels address (statements (rowLines first (rows address cells))) =
      if endsTruncated (rows address cells) then
        .error
          { line := first + (rows address cells).length - 1
            fault :=
              if address + cells.length = memorySize then .programTooLarge
              else .invalidOperand "?" }
      else .ok (respelled (rows address cells)) := by
  fun_induction rows address cells generalizing first with
  | case1 => rfl
  | case2 address head takes =>
    have last : endsTruncated [⟨address, head, none⟩] = true := by
      simpa [endsTruncated, Instruction.isTruncated, Instruction.opcode] using takes
    rw [statements_rowLines_cons, encodeFrom, encode_truncated spells fits takes, if_pos last]
    rfl
  | case3 address head takes operand rest ih =>
    rw [List.length_cons, List.length_cons] at fits
    have whole : (Instruction.mk head (some operand)).isTruncated = false := Bool.and_false _
    rw [statements_rowLines_cons,
      encodeFrom_cons_of_ok (encode_double spells (by omega) takes operand)]
    show (encodeFrom labels (address + 2) _).map _ = _
    rw [ih (first + 1) (by omega), endsTruncated_cons whole]
    split
    · simp only [Except.map, List.length_cons, Nat.add_assoc, Nat.add_comm 1, Nat.add_comm 2]
    · rfl
  | case4 address head rest alone ih =>
    rw [List.length_cons] at fits
    have whole : (Instruction.mk head none).isTruncated = false := by
      simpa [Instruction.isTruncated, Instruction.opcode] using alone
    rw [statements_rowLines_cons,
      encodeFrom_cons_of_ok (encode_single (by omega) (by simpa using alone))]
    show (encodeFrom labels (address + 1) _).map _ = _
    rw [ih (first + 1) (by omega), endsTruncated_cons whole]
    split
    · simp only [Except.map, List.length_cons, Nat.add_assoc, Nat.add_comm 1]
    · rfl

/-! ## The round trip -/

theorem spellsAddresses_labels (first : Nat) {cells : List Nibble}
    (fits : cells.length ≤ memorySize) :
    SpellsAddresses (labels (headerLines ++ rowLines first (rows 0 cells))) := by
  intro key address found
  obtain ⟨row, mem, rfl, rfl⟩ := (find?_labels_rowLines first fits key address).mp found
  have bounds := address_of_mem_rows mem
  exact ⟨by omega, rfl⟩

/-- **Reassembling a listing.** The listing of at most sixteen cells whose last row does not lack
its operand assembles. The program is as long as the cells; it holds the cells and zeros after
them, except that a nibble without a meaning becomes zero where a row shows it as an instruction,
so that memory is what it was if no row does. The labels are the addresses of the rows in
hexadecimal, each bound to itself. If the last row lacks its operand, assembly fails on that row:
for want of room if there are sixteen cells, on the question mark if there are fewer. -/
theorem assemble_render (cells : List Nibble) (fits : cells.length ≤ memorySize) :
    (endsTruncated (rows 0 cells) = false →
      ∃ program, assemble (render cells) = .ok program ∧
        program.size = cells.length ∧
        (∀ address : Nibble, program.code.read address =
          if ReservedAt (rows 0 cells) address.val then 0 else cells[address.val]?.getD 0) ∧
        ((∀ address, ¬ ReservedAt (rows 0 cells) address) →
          program.code = Memory.blank.fill cells) ∧
        ∀ key address, program.labels.find? key = some address ↔
          ∃ row ∈ rows 0 cells, row.address = address ∧ key = Text.hexadecimal address) ∧
    (endsTruncated (rows 0 cells) = true →
      assemble (render cells) =
        .error
          { line := header.length + (rows 0 cells).length
            fault :=
              if cells.length = memorySize then .programTooLarge else .invalidOperand "?" }) := by
  have spells := spellsAddresses_labels (header.length + 1) fits
  have run := encodeFrom_rowLines spells (header.length + 1) 0
    (Nat.le_trans (Nat.le_of_eq (Nat.zero_add _)) fits)
  have top : statements (headerLines ++ rowLines (header.length + 1) (rows 0 cells)) =
      statements (rowLines (header.length + 1) (rows 0 cells)) := rfl
  rw [assemble, sourceLines_render, assembleLines, top, run]
  constructor
  · intro whole
    rw [whole]
    refine ⟨_, rfl, length_respelled 0 cells, fun address => ?_, fun known => ?_,
      find?_labels_rowLines _ fits⟩
    · rw [Memory.read_fill, Memory.read_blank, getD_respelled, Nat.zero_add]
    · refine Memory.ext_read fun address => ?_
      rw [Memory.read_fill, Memory.read_fill, Memory.read_blank, getD_respelled, Nat.zero_add,
        if_neg (known address)]
  · intro truncated
    rw [truncated, Nat.zero_add, Nat.add_right_comm]
    rfl

/-- An operand that spells a label in front of a nibble without a meaning, and opcodes without an
operand below the end of memory and at it. -/
theorem assemble_render_collision :
    (∃ program, assemble (render [1, 2, 9]) = .ok program ∧ program.size = 3 ∧
      program.code = Memory.blank.fill [1, 2] ∧ program.labels.find? "2" = some 2) ∧
    assemble (render [9, 1]) = .error ⟨5, .invalidOperand "?"⟩ ∧
    assemble (render (List.replicate 15 0 ++ [1])) = .error ⟨19, .programTooLarge⟩ := by
  refine ⟨?_, ?_, ?_⟩
  · obtain ⟨program, assembled, size, code, -, labels⟩ :=
      (assemble_render [1, 2, 9] (by decide)).1 (by decide)
    refine ⟨program, assembled, size, Memory.ext_read fun address => ?_, ?_⟩
    · rw [code address, Memory.read_fill, Memory.read_blank]
      revert address
      decide
    · rw [labels]
      decide
  · exact (assemble_render [9, 1] (by decide)).2 (by decide)
  · exact (assemble_render (List.replicate 15 0 ++ [1]) (by decide)).2 (by decide)

end Listing

end NibbleComputer
