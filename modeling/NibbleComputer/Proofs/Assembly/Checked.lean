import NibbleComputer.Proofs.Assembly.Encoding
import NibbleComputer.Proofs.Assembly.Extent
import NibbleComputer.Proofs.Memory.Updates
import NibbleComputer.Proofs.Text.Bytes

/-!
# Assembly with checks

The assembler once more, with the steps that are not defined for all values: a text is cut at a
position in bytes, which may be inside a character, a cell of the image is written at a number,
which may be beyond memory, and positions, addresses and line numbers are sums of numbers with a
limit. Each of these steps is checked, and there is no result if a check fails. None does, so the
checked assembler is the assembler.

- `Assembly.cutComment?`, `Assembly.cutLabel?`: the parts of a line by positions.
- `Assembly.Scan`, `Assembly.scan?`: the first pass.
- `Assembly.storeAll?`, `Assembly.emit?`: the second pass.
- `Assembly.assemble?`, `Assembly.assemble?_eq`: both passes.
-/

namespace NibbleComputer.Assembly

variable {limit : Nat}

/-! ## The parts of a line -/

/-- A line, cut at the first position of a comment mark. -/
def cutComment? (line : List Char) : Option (List Char) := do
  let marks := [Text.position? ['/', '/'] line, Text.position? [';'] line].filterMap id
  let (text, _) ← Text.cut? line (marks.min?.getD (String.utf8Len line))
  return text

/-- The label of a text, cut off at the first colon, and the text from the next position on. -/
def cutLabel? (limit : Nat) (text : List Char) : Option (Option (List Char × List Char)) :=
  match Text.position? [':'] text with
  | none => some none
  | some colon => do
    let (label, _) ← Text.cut? text colon
    if !label.isEmpty && label.all isLabelChar then
      let (_, rest) ← Text.cut? text (← add? limit colon 1)
      return some (label, rest)
    else
      return none

/-- The first position of either mark is where the comment starts. -/
theorem min_position? (line : List Char) :
    ([Text.position? ['/', '/'] line, Text.position? [';'] line].filterMap id).min?.getD
      (String.utf8Len line) = String.utf8Len (stripComment line) := by
  rw [Text.position?_eq (by simp) (by simp), Text.position?_eq (by simp) (by simp)]
  fun_induction stripComment line with
  | case1 => rfl
  | case2 rest =>
    have here : Text.before? [';'] (';' :: rest) = some [] := if_pos (by simp)
    cases Text.before? ['/', '/'] (';' :: rest) <;> simp [here]
  | case3 rest =>
    have here : Text.before? ['/', '/'] ('/' :: '/' :: rest) = some [] := if_pos (by simp)
    cases Text.before? [';'] ('/' :: '/' :: rest) <;> simp [here]
  | case4 c rest semicolon slashes ih =>
    -- no mark starts here, so that both positions are those in the rest, one character further on
    have single := Text.not_prefix_cons (Ne.symm semicolon) rest
    have double : ¬ ['/', '/'] <+: c :: rest := by
      rintro ⟨tail, begins⟩
      cases begins
      exact slashes tail rfl rfl
    rw [Text.before?, Text.before?, if_neg single, if_neg double]
    revert ih
    cases Text.before? ['/', '/'] rest <;> cases Text.before? [';'] rest <;>
      simp [Nat.add_min_add_right]

/-- Comments are cut off between characters. -/
theorem cutComment?_eq (line : List Char) : cutComment? line = some (stripComment line) := by
  obtain ⟨comment, split⟩ := prefix_of_stripComment line
  have cut : Text.cut? line (String.utf8Len (stripComment line)) =
      some (stripComment line, comment) := Text.cut?_eq_some_iff.mpr ⟨split.symm, rfl⟩
  rw [← min_position? line] at cut
  unfold cutComment?
  simp only [cut]
  rfl

/-- Labels are cut off between characters. -/
theorem cutLabel?_eq {text : List Char} (short : String.utf8Len text < limit) :
    cutLabel? limit text = some (splitLabel? text) := by
  unfold cutLabel?
  rw [Text.position?_eq (by simp) (by simp)]
  by_cases colon : ':' ∈ text
  · obtain ⟨label, rest, rfl, plain⟩ := List.eq_append_cons_of_mem colon
    have shape : label ++ ':' :: rest = (label ++ [':']) ++ rest := by simp
    have length : String.utf8Len label + 1 = String.utf8Len (label ++ [':']) := by
      rw [String.utf8Len_append]
      rfl
    have next : String.utf8Len label + 1 < limit := by
      rw [shape, String.utf8Len_append] at short
      omega
    have first := Text.cut?_append label (':' :: rest)
    have second : Text.cut? (label ++ ':' :: rest) (String.utf8Len label + 1) =
        some (label ++ [':'], rest) := Text.cut?_eq_some_iff.mpr ⟨shape, length⟩
    rw [Text.before?_append plain, splitLabel?_append_colon plain, Option.map_some]
    simp only [first, second, add?_of_lt next, Option.bind_eq_bind, Option.bind_some]
    split <;> rfl
  · rw [Text.before?_of_notMem colon, splitLabel?_of_notMem colon]
    rfl

/-! ## The first pass -/

/-- What the first pass knows at a line: the address reached, the labels, and the statements. -/
structure Scan where
  address : Nat := 0
  labels : LabelTable := {}
  statements : List Statement := []

/-- The statement of a text is retained, with the number of its line, and the address moves on. -/
def Scan.retain? (limit : Nat) (scan : Scan) (text : List Char) (index : Nat) : Option Scan :=
  if text = [] then some scan
  else do
    let statement := statementOf text (← add? limit index 1)
    let address ← add? limit scan.address statement.width
    return { scan with address, statements := scan.statements ++ [statement] }

/-- The first pass on a line with its place in the source, counted from zero. -/
def Scan.read? (limit : Nat) (scan : Scan) (line : List Char × Nat) : Option Scan := do
  let text := Text.trim (← cutComment? line.1)
  match ← cutLabel? limit text with
  | none => scan.retain? limit text line.2
  | some (label, rest) =>
    let labels := scan.labels.insert (labelKey label) scan.address
    { scan with labels }.retain? limit (Text.trim rest) line.2

/-- The first pass on a source. -/
def scan? (limit : Nat) (source : List Char) : Option Scan :=
  (Text.lines source).zipIdx.foldlM (Scan.read? limit) {}

/-- What the first pass knows behind a line. -/
def Scan.add (scan : Scan) (line : Line) : Scan where
  address := scan.address + line.width
  labels := match line.label? with
    | some label => scan.labels.insert (labelKey label) scan.address
    | none => scan.labels
  statements := scan.statements ++ line.statement?.toList

/-- The text that is left of a line moves the address on by the width of the line. -/
theorem Scan.retain?_eq {scan : Scan} {text : List Char} {index : Nat} {line : Line}
    (left : line.statement? = if text = [] then none else some (statementOf text (index + 1)))
    (number : index + 1 < limit) (address : scan.address + line.width < limit) :
    scan.retain? limit text index = some
      { scan with
        address := scan.address + line.width
        statements := scan.statements ++ line.statement?.toList } := by
  rw [line.width_eq] at address ⊢
  unfold Scan.retain?
  split
  · next gone => simp [left, gone]
  · next some =>
    rw [if_neg some] at left
    rw [left, Option.map_some, Option.getD_some] at address
    simp only [add?_of_lt number, add?_of_lt address, left, Option.bind_eq_bind, Option.bind_some]
    rfl

/-- The first pass on one line. -/
theorem Scan.read?_eq {scan : Scan} {line : List Char} {index : Nat}
    (short : String.utf8Len line < limit) (number : index + 1 < limit)
    (address : scan.address + (Line.read line (index + 1)).width < limit) :
    scan.read? limit (line, index) = some (scan.add (Line.read line (index + 1))) := by
  have part : (Text.trim (stripComment line)).Sublist line :=
    (Text.trim_sublist _).trans (prefix_of_stripComment line).sublist
  have short' : String.utf8Len (Text.trim (stripComment line)) < limit :=
    (String.utf8Len_le_of_sublist part).trans_lt short
  have left := statement?_read line (index + 1)
  unfold Scan.read? Scan.add
  simp only [cutComment?_eq, cutLabel?_eq short', Option.bind_eq_bind, Option.bind_some]
  cases split : splitLabel? (Text.trim (stripComment line)) with
  | none =>
    have rest : remainder line = Text.trim (stripComment line) := by simp [remainder, split]
    have label : (Line.read line (index + 1)).label? = none := by simp [Line.read, split]
    rw [rest] at left
    rw [label]
    exact Scan.retain?_eq left number address
  | some parts =>
    have rest : remainder line = Text.trim parts.2 := by simp [remainder, split]
    have label : (Line.read line (index + 1)).label? = some parts.1 := by simp [Line.read, split]
    rw [rest] at left
    rw [label]
    exact Scan.retain?_eq left number address

/-- The first pass on some lines. -/
theorem foldlM_read?_eq {lines : List (List Char)} {scan : Scan} {index : Nat}
    (short : ∀ line ∈ lines, String.utf8Len line < limit)
    (number : index + lines.length < limit)
    (address : scan.address + size (statements (readLines (index + 1) lines)) < limit) :
    (lines.zipIdx index).foldlM (Scan.read? limit) scan = some
      { address := scan.address + size (statements (readLines (index + 1) lines))
        labels := collectLabels scan.address scan.labels (readLines (index + 1) lines)
        statements := scan.statements ++ statements (readLines (index + 1) lines) } := by
  induction lines generalizing scan index with
  | nil => simp [readLines, statements, collectLabels]
  | cons line lines ih =>
    obtain ⟨first, others⟩ := List.forall_mem_cons.mp short
    rw [List.length_cons] at number
    rw [readLines_cons, size_statements_cons] at address ⊢
    have behind : (scan.add (Line.read line (index + 1))).address +
        size (statements (readLines (index + 1 + 1) lines)) < limit := by
      show scan.address + (Line.read line (index + 1)).width + _ < limit
      omega
    rw [List.zipIdx_cons, List.foldlM_cons, Scan.read?_eq first (by omega) (by omega)]
    simp only [Option.bind_eq_bind, Option.bind_some]
    rw [ih others (by omega) behind, statements_cons, ← Nat.add_assoc, ← List.append_assoc]
    rfl

/-- The first pass on a source. -/
theorem scan?_eq {source : List Char} (short : String.utf8Len source < limit) :
    scan? limit source = some
      { address := size (retained source)
        labels := labels (sourceLines source)
        statements := retained source } := by
  have parts := Text.flatten_lines_sublist source
  have bytes := Text.length_le_utf8Len source
  have lines : ∀ line ∈ Text.lines source, String.utf8Len line < limit := fun line mem =>
    (String.utf8Len_le_of_sublist ((List.sublist_flatten_of_mem mem).trans parts)).trans_lt short
  have number : 0 + (Text.lines source).length < limit := by
    have := Text.length_lines_le source
    omega
  have address : 0 + size (statements (sourceLines source)) < limit := by
    have := size_sourceLines_le source
    omega
  have first := @foldlM_read?_eq limit (Text.lines source) {} 0 lines number address
  rw [scan?, first, ← sourceLines_eq_readLines, statements_sourceLines, Nat.zero_add]
  rfl

/-! ## The second pass -/

/-- A cell takes a nibble, if there is a cell with the address. -/
def store? (code : Memory) (address : Nat) (nibble : Nibble) : Option Memory :=
  if address < memorySize then some (code.write (.ofNat address) nibble) else none

/-- The cells from an address on take some nibbles, and the address moves on. -/
def storeAll? (limit : Nat) (code : Memory) (address : Nat) : List Nibble → Option (Memory × Nat)
  | [] => some (code, address)
  | nibble :: others => do
    storeAll? limit (← store? code address nibble) (← add? limit address 1) others

/-- The nibbles of a statement. If the opcode takes an operand, its address is computed. -/
def encode? (limit : Nat) (labels : LabelTable) (address : Nat) (statement : Statement) :
    Option (Except Fault (List Nibble)) :=
  if (Opcode.ofMnemonic? statement.mnemonic).any Opcode.takesOperand then
    (add? limit address 1).map fun _ => encode labels address statement
  else some (encode labels address statement)

/-- The second pass from a statement on. -/
def emit? (limit : Nat) (labels : LabelTable) (code : Memory) (address : Nat) :
    List Statement → Option (Except Error (Memory × Nat))
  | [] => some (.ok (code, address))
  | statement :: others =>
    if memorySize ≤ address then
      some (.error { line := statement.line, fault := .programTooLarge })
    else do
      match ← encode? limit labels address statement with
      | .error fault => return .error { line := statement.line, fault }
      | .ok nibbles =>
        let (code, address) ← storeAll? limit code address nibbles
        emit? limit labels code address others

/-- The program of a source, or its first error. -/
def assemble? (limit : Nat) (source : String) : Option (Except Error Program) := do
  let scan ← scan? limit source.toList
  let result ← emit? limit scan.labels Memory.blank 0 scan.statements
  return result.map fun (code, size) => { code, size, labels := scan.labels }

/-- No nibble is written beyond memory if there is room for all of them. -/
theorem storeAll?_eq {done nibbles : List Nibble} (room : done.length + nibbles.length ≤ memorySize)
    (address : done.length + nibbles.length < limit) :
    storeAll? limit (Memory.blank.fill done) done.length nibbles =
      some (Memory.blank.fill (done ++ nibbles), (done ++ nibbles).length) := by
  induction nibbles generalizing done with
  | nil => rw [List.append_nil]; rfl
  | cons nibble nibbles ih =>
    rw [List.length_cons] at room address
    have stored : store? (Memory.blank.fill done) done.length nibble =
        some (Memory.blank.fill (done ++ [nibble])) := by
      rw [store?, if_pos (by omega), Memory.write_fill_length (by omega)]
    have length : done.length + 1 = (done ++ [nibble]).length := by simp
    have shape : done ++ nibble :: nibbles = (done ++ [nibble]) ++ nibbles := by simp
    rw [storeAll?, stored, add?_of_lt (by omega), shape, length]
    exact ih (by simp; omega) (by simp; omega)

/-- The checked encoder computes the address of an operand. -/
theorem encode?_eq {labels : LabelTable} {address : Nat} {statement : Statement}
    (room : address + statement.width < limit) :
    encode? limit labels address statement = some (encode labels address statement) := by
  have next : address + 1 < limit := by
    have := width_pos statement
    omega
  rw [encode?, add?_of_lt next]
  split <;> rfl

/-- The second pass behind some nibbles: the image holds them, and the address is their number. -/
theorem emit?_eq {labels : LabelTable} {done : List Nibble} {statements : List Statement}
    (room : done.length ≤ memorySize) (address : done.length + size statements < limit) :
    emit? limit labels (Memory.blank.fill done) done.length statements =
      some ((encodeFrom labels done.length statements).map fun nibbles =>
        (Memory.blank.fill (done ++ nibbles), (done ++ nibbles).length)) := by
  induction statements generalizing done with
  | nil => simp only [emit?, encodeFrom, Except.map, List.append_nil]
  | cons statement others ih =>
    rw [size_cons] at address
    by_cases beyond : memorySize ≤ done.length
    · simp only [emit?, if_pos beyond, encodeFrom, encode, Except.map]
    rw [emit?, if_neg beyond, encode?_eq (by omega)]
    cases encoded : encode labels done.length statement with
    | error fault =>
      simp only [encodeFrom, encoded, Except.map]
      rfl
    | ok nibbles =>
      -- a statement that has been encoded has room for its nibbles, which keeps the address inside
      obtain ⟨rules, fits⟩ := encode_eq_ok_iff.mp encoded
      rw [← rules.length_eq] at fits address
      have length : done.length + nibbles.length = (done ++ nibbles).length :=
        List.length_append.symm
      have stored : storeAll? limit (Memory.blank.fill done) done.length nibbles =
          some (Memory.blank.fill (done ++ nibbles), (done ++ nibbles).length) :=
        storeAll?_eq fits (by omega)
      have behind := @ih (done ++ nibbles) (length ▸ fits) (by omega)
      rw [encodeFrom_cons_of_ok encoded, length]
      simp only [stored, behind, Option.bind_eq_bind, Option.bind_some]
      cases encodeFrom labels (done ++ nibbles).length others with
      | error error => simp only [Except.map]
      | ok rest => simp only [Except.map, List.append_assoc]

/-! ## Both passes -/

/-- No check of the assembler fails. -/
theorem assemble?_eq {source : String} (short : source.utf8ByteSize < limit) :
    assemble? limit source = some (assemble source) := by
  rw [← String.utf8Len_toList] at short
  have bound : size (retained source.toList) < limit := by
    have := size_sourceLines_le source.toList
    rw [statements_sourceLines] at this
    exact (this.trans (Text.length_le_utf8Len _)).trans_lt short
  have second := @emit?_eq limit (labels (sourceLines source.toList)) [] (retained source.toList)
    (Nat.zero_le _) (by simpa using bound)
  have blank : Memory.blank.fill [] = Memory.blank := by decide
  simp only [blank, List.length_nil, List.nil_append] at second
  unfold assemble? assemble assembleLines
  simp only [scan?_eq short, second, statements_sourceLines, Option.bind_eq_bind, Option.bind_some]
  cases encodeFrom (labels (sourceLines source.toList)) 0 (retained source.toList) <;> rfl

end NibbleComputer.Assembly
