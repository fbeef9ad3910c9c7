import Mathlib.Data.List.Chain
import NibbleComputer.Proofs.Listing.Source

/-!
# A listing covers the cells

The rows of a listing lie one behind the other: each begins where the one before it ends, and
together they show every cell once, whatever the number of cells. This is read off the printed
text: the address stands in front of the first colon, the cells behind the first semicolon.

- `Listing.readRow?`: the address and the cells that a printed line shows.
- `Listing.Walk`: the walk from one instruction to the next, `Listing.walk_rows` that the rows are
  those of the walk.
- `Listing.Tiling`: lines that cover some cells.
- `Listing.render_tiles`: the lines of a listing cover the listed cells, so that no other cells have
  the same listing.
-/

namespace NibbleComputer.Listing

/-! ## Reading a printed line -/

/-- The nibble that a single hexadecimal digit shows. -/
def readCell? : List Char → Option Nibble
  | [c] => (Text.digitValue? 16 c).map Nibble.ofNat
  | _ => none

/-- The address of a line of a listing, and its column of cells. -/
def readRow? (line : List Char) : Option (Nat × List Nibble) := do
  let address ← Text.readDigits? 16 (line.takeWhile (· != ':'))
  let raw ← (Text.words ((line.dropWhile (· != ';')).drop 1)).mapM readCell?
  return (address, raw)

example : readRow? "1F: JMP ?    ; 6".toList = some (31, [6]) := by decide

/-- What a row shows of itself. -/
def Row.entry (row : Row) : Nat × List Nibble :=
  (row.address, row.instruction.raw)

theorem readCell?_hex : ∀ nibble : Nibble, readCell? nibble.hex.toList = some nibble := by
  decide

theorem isBlank_hex : ∀ nibble : Nibble, nibble.hex.toList ≠ [] ∧
    nibble.hex.toList.all (fun c => !Text.isBlank c) = true := by
  decide

/-- The words of the column are the digits of the cells. -/
theorem Row.words_column (row : Row) :
    Text.words row.column.toList = row.instruction.raw.map fun nibble => nibble.hex.toList := by
  have word (nibble : Nibble) : Text.words nibble.hex.toList = [nibble.hex.toList] := by
    obtain ⟨ne, digit⟩ := isBlank_hex nibble
    exact Text.words_of_unblank ne fun c mem => by simpa using List.all_eq_true.mp digit c mem
  unfold column Instruction.raw
  cases row.instruction.operand? with
  | none =>
    rw [Option.toList_none, List.map_cons, List.map_nil, String.intercalate_singleton, word]
    rfl
  | some operand =>
    rw [Option.toList_some, List.map_cons, List.map_cons, List.map_nil,
      String.intercalate_cons_cons, String.intercalate_singleton, String.toList_append,
      String.toList_append, List.append_assoc]
    show Text.words (_ ++ ' ' :: operand.hex.toList) = _
    rw [Text.words_append_blank (by decide), word, word]
    rfl

/-- The cells of a column are read as they are. -/
theorem mapM_readCell?_hex (cells : List Nibble) :
    (cells.map fun nibble => nibble.hex.toList).mapM readCell? = some cells := by
  induction cells with
  | nil => rfl
  | cons nibble cells ih =>
    rw [List.map_cons, List.mapM_cons, readCell?_hex, ih]
    rfl

/-- A printed row shows its address and its cells. -/
theorem Row.readRow?_display (row : Row) : readRow? row.display.toList = some row.entry := by
  obtain ⟨statement, -, chars, shown⟩ := row.toList_display
  have label := (hexadecimal_label row.address).2
  have differs {text : List Char} {p : Char → Bool} {mark : Char} (all : text.all p = true)
      (other : p mark = false) : ∀ c ∈ text, (c != mark) = true := by
    intro c mem
    rw [bne_iff_ne]
    rintro rfl
    exact Assembly.notMem_of_all all other mem
  have address : row.display.toList.takeWhile (· != ':') =
      (Text.hexadecimal row.address).toList := by
    rw [shown, List.append_assoc, List.takeWhile_append_of_pos (differs label (by decide))]
    simp
  have raw : (row.display.toList.dropWhile (· != ';')).drop 1 = ' ' :: row.column.toList := by
    have front : ∀ c ∈ (Text.hexadecimal row.address).toList ++ ':' :: statement,
        (c != ';') = true := by
      simp only [List.mem_append, List.mem_cons]
      rintro c (digit | rfl | char)
      · exact differs label (by decide) c digit
      · decide
      · exact differs chars (by decide) c char
    rw [shown, List.dropWhile_append_of_pos front]
    simp
  rw [readRow?, address, raw, (Text.readDigits?_eq_some_iff (by decide)).mpr
    (Text.numeral_hexadecimal row.address), Text.words_cons_of_isBlank (by decide),
    row.words_column]
  simp only [mapM_readCell?_hex]
  rfl

/-! ## The walk over the cells -/

/-- The walk from an address on: the instruction there is shown, and the walk goes on behind it as
long as there are cells. -/
inductive Walk (cells : List Nibble) : Nat → List Row → Prop
  | done {address : Nat} (past : cells.length ≤ address) : Walk cells address []
  | line {address : Nat} {instruction : Instruction} {others : List Row}
      (here : Instruction.at? cells address = some instruction)
      (rest : Walk cells (address + instruction.width) others) :
      Walk cells address ({ address, instruction } :: others)

variable {cells : List Nibble} {address : Nat} {shown : List Row}

/-- The rows of a listing are those of the walk. -/
theorem walk_rows {rest : List Nibble} (left : cells.drop address = rest) :
    Walk cells address (rows address rest) := by
  fun_induction rows address rest with
  | case1 address => exact .done (List.drop_eq_nil_iff.mp left)
  | case2 address head takes =>
    refine .line (by simp [Instruction.at?, left, Instruction.first?]) (.done ?_)
    apply List.drop_eq_nil_iff.mp
    rw [← List.drop_drop, left]
    rfl
  | case3 address head takes operand rest ih =>
    refine .line (by simp [Instruction.at?, left, Instruction.first?, takes]) (ih ?_)
    rw [← List.drop_drop, left]
    rfl
  | case4 address head rest alone ih =>
    refine .line (by simp [Instruction.at?, left, Instruction.first?, alone]) (ih ?_)
    rw [← List.drop_drop, left]
    rfl

/-- A row shows the instruction at its address. -/
theorem Walk.at?_of_mem (walk : Walk cells address shown) :
    ∀ row ∈ shown, Instruction.at? cells row.address = some row.instruction := by
  induction walk with
  | done => simp
  | line here _ ih => exact List.forall_mem_cons.mpr ⟨here, ih⟩

/-- The first row begins where the walk does. -/
theorem Walk.head? (walk : Walk cells address shown) :
    ∀ row ∈ shown.head?, row.address = address := by
  cases walk with
  | done => simp
  | line => simp

/-- Each row begins where the one before it ends. -/
theorem Walk.isChain (walk : Walk cells address shown) : shown.IsChain
    fun row next => next.address = row.address + row.instruction.width := by
  induction walk with
  | done => exact .nil
  | line _ rest ih => exact ih.cons rest.head?

/-- The cells of an instruction lie among the cells. -/
theorem add_width_le {instruction : Instruction}
    (here : Instruction.at? cells address = some instruction) :
    address + instruction.width ≤ cells.length := by
  have count : instruction.width = min instruction.width (cells.length - address) := by
    rw [← List.length_drop, ← List.length_take]
    exact congrArg List.length (Instruction.raw_of_first? here)
  have pos : 0 < instruction.width := Nat.succ_pos _
  omega

/-- The last row ends at the last cell. -/
theorem Walk.getLast? (walk : Walk cells address shown) :
    ∀ row ∈ shown.getLast?, row.address + row.instruction.width = cells.length := by
  induction walk with
  | done => simp
  | @line address instruction others here rest ih =>
    cases rest with
    | done past =>
      rintro row last
      obtain rfl : _ = row := by simpa using last
      exact Nat.le_antisymm (add_width_le here) past
    | line => rwa [List.getLast?_cons_cons]

/-- The rows show the cells from the address on. -/
theorem Walk.flatMap_raw (walk : Walk cells address shown) :
    shown.flatMap (·.instruction.raw) = cells.drop address := by
  induction walk with
  | done past => exact (List.drop_eq_nil_iff.mpr past).symm
  | @line address instruction others here rest ih =>
    rw [List.flatMap_cons, ih, Instruction.raw_of_first? here, ← List.drop_drop]
    exact List.take_append_drop _ _

/-! ## The main result -/

/-- Lines with addresses and cells that cover some cells without a gap. -/
structure Tiling (cells : List Nibble) (entries : List (Nat × List Nibble)) : Prop where
  /-- The first line begins at the first cell. -/
  first : ∀ entry ∈ entries.head?, entry.1 = 0
  /-- Each further line begins where the one before it ends. -/
  next : entries.IsChain fun entry next => next.1 = entry.1 + entry.2.length
  /-- The last line ends at the last cell. -/
  last : ∀ entry ∈ entries.getLast?, entry.1 + entry.2.length = cells.length
  /-- A line shows as many cells from its address on as the instruction there has. -/
  slice : ∀ entry ∈ entries,
    entry.2 = (cells.drop entry.1).take (Instruction.describeAt cells entry.1).2
  /-- A line shows one or two cells. -/
  width : ∀ entry ∈ entries, entry.2.length = 1 ∨ entry.2.length = 2
  /-- It shows two if the first of them takes an operand and there is a cell for it. -/
  pair : ∀ entry ∈ entries, entry.2.length = 2 ↔
    (∃ head ∈ entry.2.head?, (Opcode.ofNibble head).takesOperand = true) ∧
      entry.1 + 1 < cells.length
  /-- Together the lines show every cell once and in order. -/
  whole : entries.flatMap (·.2) = cells

/-- An instruction has a second cell if its opcode takes an operand and there is one. -/
theorem length_raw_eq_two_iff {instruction : Instruction}
    (first : Instruction.first? cells = some instruction) : instruction.raw.length = 2 ↔
      instruction.opcode.takesOperand = true ∧ 1 < cells.length := by
  cases cells with
  | nil => cases first
  | cons head rest =>
    obtain rfl := Option.some.inj first
    by_cases takes : (Opcode.ofNibble head).takesOperand = true
    · cases rest <;> simp [Instruction.raw, Instruction.opcode, takes]
    · simp [Instruction.raw, Instruction.opcode, takes]

/-- The rows of a walk from the first cell on cover the cells. -/
theorem Walk.tiling (walk : Walk cells 0 shown) : Tiling cells (shown.map Row.entry) where
  first := by
    simpa [Row.entry] using walk.head?
  next := (List.isChain_map Row.entry).mpr walk.isChain
  last := by
    rw [List.getLast?_map]
    simpa [Row.entry, Instruction.width] using walk.getLast?
  slice := List.forall_mem_map.mpr fun row mem => by
    have here := walk.at?_of_mem row mem
    show row.instruction.raw =
      (cells.drop row.address).take (Instruction.describeAt cells row.address).2
    rw [Instruction.describeAt, here]
    exact Instruction.raw_of_first? here
  width := List.forall_mem_map.mpr fun row _ => by
    show row.instruction.raw.length = 1 ∨ row.instruction.raw.length = 2
    unfold Instruction.raw
    cases row.instruction.operand? <;> simp
  pair := List.forall_mem_map.mpr fun row mem => by
    show row.instruction.raw.length = 2 ↔
      (∃ head ∈ some row.instruction.head, (Opcode.ofNibble head).takesOperand = true) ∧
        row.address + 1 < cells.length
    rw [length_raw_eq_two_iff (walk.at?_of_mem row mem), List.length_drop, Nat.lt_sub_iff_add_lt']
    simp [Instruction.opcode]
  whole := by
    rw [List.flatMap_map]
    exact walk.flatMap_raw

theorem tiling_rows (cells : List Nibble) : Tiling cells ((rows 0 cells).map Row.entry) :=
  (walk_rows List.drop_zero).tiling

/-- The body of a listing shows the rows. -/
theorem readRow?_render (cells : List Nibble) :
    ((Text.lines (render cells).toList).drop header.length).map readRow? =
      ((rows 0 cells).map Row.entry).map some := by
  rw [lines_render]
  simp [Row.readRow?_display]

/-- **A listing covers the listed cells.** Below its three lines at the top, each line shows an
address and some cells. The first address is zero, each other one is that of the first cell that
the lines before it leave, and the last line ends at the last cell. A line has the one or two cells
of the instruction at its address; it has two if the first of them takes an operand and there is a
cell for it. Together they show every cell once and in order, however many there are. So no other
cells have the same listing. -/
theorem render_tiles (cells : List Nibble) :
    let lines := Text.lines (render cells).toList
    lines.take header.length = header.map String.toList ∧
      (∃ entries, (lines.drop header.length).map readRow? = entries.map some ∧
        Tiling cells entries) ∧
      ∀ others, render others = render cells ↔ others = cells := by
  intro lines
  refine ⟨?_, ⟨_, readRow?_render cells, tiling_rows cells⟩, fun others => ⟨?_, ?_⟩⟩
  · rw [show lines = _ from lines_render cells]
    rfl
  · intro same
    have entries : (rows 0 others).map Row.entry = (rows 0 cells).map Row.entry := by
      have read := readRow?_render others
      rw [same, readRow?_render cells] at read
      exact ((List.map_inj_right fun _ _ => Option.some.inj).mp read).symm
    rw [← (tiling_rows others).whole, entries]
    exact (tiling_rows cells).whole
  · rintro rfl
    rfl

end NibbleComputer.Listing
