import Mathlib.Data.Nat.Find
import NibbleComputer.Proofs.Assembly.Encoding

/-!
# The first error of a source

A source that does not assemble has a line that fails where it stands, and the assembler reports the
first such line. What a line fails of is told here by itself, apart from the code that looks for it:
the flaws that a statement can have are listed in the order in which they count, and a statement
fails of the first that it has.

- `Assembly.Flaw`: the flaws of a statement at an address, with their ranks.
- `Assembly.Fails`: the flaw of the lowest rank.
- `Assembly.encode_eq_error_iff`: the assembler on a statement that fails.
- `Assembly.encodeFrom_eq_error_iff`: the assembler on a list of statements.
- `Assembly.assemble_fails_first`: the error of a source.
-/

namespace NibbleComputer.Assembly

variable {lines : List Line} {labels : LabelTable} {address : Nat} {statement : Statement}
  {fault : Fault}

/-! ## What can be wrong with a statement -/

/-- The flaws that a statement at an address can have in a program with the given source lines. A
flaw of a lower rank counts before one of a higher rank. -/
inductive Flaw (lines : List Line) (address : Nat) (statement : Statement) : Nat → Fault → Prop
  /-- The statement starts beyond the last cell. -/
  | beyond (outside : memorySize ≤ address) : Flaw lines address statement 0 .programTooLarge
  /-- A raw nibble has no second word, or one that is no literal. -/
  | data (data : statement.IsData) (unread : statement.operand?.bind readInteger? = none) :
    Flaw lines address statement 1
      (.invalidData (String.ofList (statement.operand?.getD [])))
  /-- The first word names no opcode. -/
  | unknown (code : ¬ statement.IsData)
    (mnemonic : Opcode.ofMnemonic? statement.mnemonic = none) :
    Flaw lines address statement 2
      (.unknownInstruction (String.ofList (Text.upper statement.mnemonic)))
  /-- The opcode is in the last cell, and its operand would be beyond. -/
  | crossing {opcode : Opcode} (mnemonic : Opcode.ofMnemonic? statement.mnemonic = some opcode)
    (takes : opcode.takesOperand = true) (last : address + 1 = memorySize) :
    Flaw lines address statement 3 .programTooLarge
  /-- The opcode takes an operand, but there is no second word. The error names the opcode by its
  own mnemonic, not as the source writes it. -/
  | missing {opcode : Opcode} (mnemonic : Opcode.ofMnemonic? statement.mnemonic = some opcode)
    (takes : opcode.takesOperand = true) (single : statement.operand? = none) :
    Flaw lines address statement 4 (.missingOperand opcode)
  /-- The opcode takes an operand, but the second word is neither a label that some line defines
  nor a literal. -/
  | operand {opcode : Opcode} {word : List Char}
    (mnemonic : Opcode.ofMnemonic? statement.mnemonic = some opcode)
    (takes : opcode.takesOperand = true) (second : statement.operand? = some word)
    (unnamed : ∀ line ∈ lines, ¬ line.Defines (labelKey word))
    (unread : readInteger? word = none) :
    Flaw lines address statement 5 (.invalidOperand (String.ofList word))

/-- A statement has no flaw of a rank below the given one. -/
def FlawlessBelow (lines : List Line) (address : Nat) (statement : Statement) (rank : Nat) : Prop :=
  ∀ earlier < rank, ∀ fault, ¬ Flaw lines address statement earlier fault

/-- A statement fails of the first flaw that it has. -/
def Fails (lines : List Line) (address : Nat) (statement : Statement) (fault : Fault) : Prop :=
  ∃ rank, Flaw lines address statement rank fault ∧ FlawlessBelow lines address statement rank

theorem flawlessBelow_zero : FlawlessBelow lines address statement 0 :=
  fun earlier lt => absurd lt (Nat.not_lt_zero earlier)

theorem FlawlessBelow.succ {rank : Nat} (h : FlawlessBelow lines address statement rank)
    (none : ∀ fault, ¬ Flaw lines address statement rank fault) :
    FlawlessBelow lines address statement (rank + 1) :=
  Nat.forall_lt_succ_right.mpr ⟨h, none⟩

/-- There is one flaw of each rank. -/
theorem Flaw.unique {rank : Nat} {other : Fault} (h : Flaw lines address statement rank fault)
    (h' : Flaw lines address statement rank other) : fault = other := by
  cases h with
  | beyond _ => cases h'; rfl
  | data _ _ => cases h'; rfl
  | unknown _ _ => cases h'; rfl
  | crossing _ _ _ => cases h'; rfl
  | missing mnemonic _ _ =>
    cases h' with
    | missing mnemonic' _ _ => rw [mnemonic] at mnemonic'; cases mnemonic'; rfl
  | operand _ _ second _ _ =>
    cases h' with
    | operand _ _ second' _ _ => rw [second] at second'; cases second'; rfl

/-- A statement fails in one way only. -/
theorem Fails.unique {other : Fault} (h : Fails lines address statement fault)
    (h' : Fails lines address statement other) : fault = other := by
  obtain ⟨rank, flaw, first⟩ := h
  obtain ⟨rank', flaw', first'⟩ := h'
  rcases Nat.lt_trichotomy rank rank' with lt | rfl | lt
  · exact absurd flaw (first' rank lt fault)
  · exact flaw.unique flaw'
  · exact absurd flaw' (first rank' lt other)

/-! ## One statement -/

/-- An operand has no value if it is neither a label nor a literal. -/
theorem resolve?_eq_none_iff {word : List Char} : resolve? labels word = none ↔
    labels.find? (labelKey word) = none ∧ readInteger? word = none := by
  unfold resolve?
  cases labels.find? (labelKey word) <;> simp [readLiteral?]

/-- The assembler reports a raw nibble without a literal. -/
theorem encodeData_eq_error_iff {operand? : Option (List Char)} :
    encodeData operand? = .error fault ↔ operand?.bind readInteger? = none ∧
      fault = .invalidData (String.ofList (operand?.getD [])) := by
  unfold encodeData
  cases operand? with
  | none => simp [eq_comm]
  | some word => cases read : readInteger? word <;> simp [readLiteral?, read, eq_comm]

/-- The assembler reports an opcode whose operand finds no room, is missing or has no value. -/
theorem encodeInstruction_eq_error_iff {opcode : Opcode} {operand? : Option (List Char)} :
    encodeInstruction labels address opcode operand? = .error fault ↔
      opcode.takesOperand = true ∧
        (memorySize ≤ address + 1 ∧ fault = .programTooLarge ∨
          address + 1 < memorySize ∧
            (operand? = none ∧ fault = .missingOperand opcode ∨
              ∃ word, operand? = some word ∧ resolve? labels word = none ∧
                fault = .invalidOperand (String.ofList word))) := by
  unfold encodeInstruction
  cases opcode.takesOperand with
  | false => simp
  | true =>
    by_cases full : memorySize ≤ address + 1
    · simp [full, Nat.not_lt_of_le full, eq_comm]
    · have room : address + 1 < memorySize := Nat.lt_of_not_le full
      cases operand? with
      | none => simp [full, room, eq_comm]
      | some word => cases found : resolve? labels word <;> simp [full, room, found, eq_comm]

section Statement

variable (known : ∀ key, labels.find? key = none ↔ ∀ line ∈ lines, ¬ line.Defines key)

include known

/-- A statement that has an encoding and room for it has no flaw. -/
theorem not_flaw_of_encodes {nibbles : List Nibble} (rules : Encodes labels statement nibbles)
    (room : address + statement.width ≤ memorySize) (rank : Nat) :
    ¬ Flaw lines address statement rank fault := by
  rw [← rules.length_eq] at room
  intro flaw
  cases rules with
  | data data operand read =>
    cases flaw with
    | beyond outside => simp at room; omega
    | data _ unread => simp [operand, read] at unread
    | unknown code _ => exact code data
    | crossing mnemonic _ _ | missing mnemonic _ _ | operand mnemonic _ _ _ _ =>
      rw [ofMnemonic?_of_isData data] at mnemonic
      cases mnemonic
  | single code mnemonic alone =>
    cases flaw with
    | beyond outside => simp at room; omega
    | data data _ => exact code data
    | unknown _ mnemonic' => rw [mnemonic] at mnemonic'; cases mnemonic'
    | crossing mnemonic' takes _ | missing mnemonic' takes _ | operand mnemonic' takes _ _ _ =>
      rw [mnemonic] at mnemonic'
      cases mnemonic'
      rw [alone] at takes
      cases takes
  | double code mnemonic takes second resolves =>
    cases flaw with
    | beyond outside => simp at room; omega
    | data data _ => exact code data
    | unknown _ mnemonic' => rw [mnemonic] at mnemonic'; cases mnemonic'
    | crossing _ _ last => simp at room; omega
    | missing _ _ single => rw [second] at single; cases single
    | operand _ _ second' unnamed unread =>
      rw [second] at second'
      cases second'
      cases resolves with
      | label found => rw [(known _).mpr unnamed] at found; cases found
      | literal _ read => rw [read] at unread; cases unread

/-- What the assembler reports of a statement is the first flaw that it has. -/
theorem fails_of_encode (h : encode labels address statement = .error fault) :
    Fails lines address statement fault := by
  -- check after check, the statement is without flaws up to one more rank
  by_cases outside : memorySize ≤ address
  · rw [encode, if_pos outside] at h
    cases h
    exact ⟨0, .beyond outside, flawlessBelow_zero⟩
  rw [encode_of_lt (Nat.lt_of_not_le outside)] at h
  have placed : FlawlessBelow lines address statement 1 := by
    refine flawlessBelow_zero.succ fun other flaw => ?_
    cases flaw with
    | beyond outside' => exact outside outside'
  by_cases data : statement.IsData
  · rw [if_pos data] at h
    obtain ⟨unread, rfl⟩ := encodeData_eq_error_iff.mp h
    exact ⟨1, .data data unread, placed⟩
  rw [if_neg data] at h
  have code : FlawlessBelow lines address statement 2 := by
    refine placed.succ fun other flaw => ?_
    cases flaw with
    | data data' _ => exact data data'
  cases mnemonic : Opcode.ofMnemonic? statement.mnemonic with
  | none =>
    rw [mnemonic] at h
    cases h
    exact ⟨2, .unknown data mnemonic, code⟩
  | some opcode =>
    rw [mnemonic] at h
    have named : FlawlessBelow lines address statement 3 := by
      refine code.succ fun other flaw => ?_
      cases flaw with
      | unknown _ unnamed => rw [mnemonic] at unnamed; cases unnamed
    obtain ⟨takes, ⟨full, rfl⟩ | ⟨room, missing⟩⟩ := encodeInstruction_eq_error_iff.mp h
    · exact ⟨3, .crossing mnemonic takes (by omega), named⟩
    have fits : FlawlessBelow lines address statement 4 := by
      refine named.succ fun other flaw => ?_
      cases flaw with
      | crossing _ _ last => omega
    obtain ⟨single, rfl⟩ | ⟨word, second, unresolved, rfl⟩ := missing
    · exact ⟨4, .missing mnemonic takes single, fits⟩
    have double : FlawlessBelow lines address statement 5 := by
      refine fits.succ fun other flaw => ?_
      cases flaw with
      | missing _ _ single => rw [second] at single; cases single
    obtain ⟨absent, unread⟩ := resolve?_eq_none_iff.mp unresolved
    exact ⟨5, .operand mnemonic takes second ((known _).mp absent) unread, double⟩

/-- The assembler reports of a statement what it fails of. -/
theorem encode_eq_error_iff :
    encode labels address statement = .error fault ↔ Fails lines address statement fault := by
  constructor
  · exact fails_of_encode known
  · intro fails
    cases encoded : encode labels address statement with
    | ok nibbles =>
      obtain ⟨rules, room⟩ := encode_eq_ok_iff.mp encoded
      obtain ⟨rank, flaw, -⟩ := fails
      exact absurd flaw (not_flaw_of_encodes known rules room rank)
    | error other => rw [(fails_of_encode known encoded).unique fails]

end Statement

/-! ## A list of statements -/

/-- The statement at a position fails at its start address, the first statement being at the given
address. The error tells what it fails of and the number of its line. -/
def FailsAt (lines : List Line) (address : Nat) (statements : List Statement) (position : Nat)
    (error : Error) : Prop :=
  ∃ statement, statements[position]? = some statement ∧
    Fails lines (address + start statements position) statement error.fault ∧
    error.line = statement.line

theorem failsAt_cons_zero {others : List Statement} {error : Error} :
    FailsAt lines address (statement :: others) 0 error ↔
      Fails lines address statement error.fault ∧ error.line = statement.line := by
  simp [FailsAt, start]

theorem failsAt_cons_succ {others : List Statement} {position : Nat} {error : Error} :
    FailsAt lines address (statement :: others) (position + 1) error ↔
      FailsAt lines (address + statement.width) others position error := by
  simp [FailsAt, Nat.add_assoc]

/-- The error of the first statement that fails, if there is one. -/
def FirstFailure (lines : List Line) (address : Nat) (statements : List Statement)
    (error : Error) : Prop :=
  ∃ position, FailsAt lines address statements position error ∧
    ∀ earlier < position, ∀ other, ¬ FailsAt lines address statements earlier other

/-- A statement that fails is the first to do so, and the error is its own. -/
theorem firstFailure_cons_of_fails {others : List Statement} {error : Error}
    (fails : Fails lines address statement fault) :
    FirstFailure lines address (statement :: others) error ↔
      error = { line := statement.line, fault } := by
  have here : FailsAt lines address (statement :: others) 0 { line := statement.line, fault } :=
    failsAt_cons_zero.mpr ⟨fails, rfl⟩
  constructor
  · rintro ⟨position, failsAt, first⟩
    cases position with
    | zero =>
      obtain ⟨fails', line⟩ := failsAt_cons_zero.mp failsAt
      rw [← line, fails.unique fails']
    | succ position => exact absurd here (first 0 (Nat.succ_pos position) _)
  · rintro rfl
    exact ⟨0, here, fun earlier lt => absurd lt (Nat.not_lt_zero earlier)⟩

/-- Behind a statement that does not fail, the first failure is that of the other statements. -/
theorem firstFailure_cons_of_not_fails {others : List Statement} {error : Error}
    (none : ∀ fault, ¬ Fails lines address statement fault) :
    FirstFailure lines address (statement :: others) error ↔
      FirstFailure lines (address + statement.width) others error := by
  have passed : ∀ other, ¬ FailsAt lines address (statement :: others) 0 other := fun other h =>
    none other.fault (failsAt_cons_zero.mp h).1
  constructor
  · rintro ⟨position, failsAt, first⟩
    cases position with
    | zero => exact absurd failsAt (passed error)
    | succ position =>
      refine ⟨position, failsAt_cons_succ.mp failsAt, fun earlier lt other h => ?_⟩
      exact first (earlier + 1) (Nat.succ_lt_succ lt) other (failsAt_cons_succ.mpr h)
  · rintro ⟨position, failsAt, first⟩
    refine ⟨position + 1, failsAt_cons_succ.mpr failsAt, fun earlier lt other h => ?_⟩
    cases earlier with
    | zero => exact passed other h
    | succ earlier =>
      exact first earlier (Nat.lt_of_succ_lt_succ lt) other (failsAt_cons_succ.mp h)

/-- The assembler reports the first statement that fails. -/
theorem encodeFrom_eq_error_iff
    (known : ∀ key, labels.find? key = none ↔ ∀ line ∈ lines, ¬ line.Defines key)
    {statements : List Statement} {error : Error} :
    encodeFrom labels address statements = .error error ↔
      FirstFailure lines address statements error := by
  induction statements generalizing address with
  | nil => simp [encodeFrom, FirstFailure, FailsAt]
  | cons statement others ih =>
    cases encoded : encode labels address statement with
    | error fault =>
      rw [firstFailure_cons_of_fails ((encode_eq_error_iff known).mp encoded), encodeFrom, encoded,
        Except.error.injEq, eq_comm]
    | ok nibbles =>
      have none : ∀ fault, ¬ Fails lines address statement fault := by
        intro fault fails
        rw [(encode_eq_error_iff known).mpr fails] at encoded
        cases encoded
      rw [firstFailure_cons_of_not_fails none, ← ih, encodeFrom_cons_of_ok encoded,
        (encode_eq_ok_iff.mp encoded).1.length_eq]
      cases encodeFrom labels (address + statement.width) others <;> simp [Except.map]

/-! ## A source -/

/-- The labels of some lines are those that one of them defines. -/
theorem find?_labels_eq_none_iff {key : String} :
    (Assembly.labels lines).find? key = none ↔ ∀ line ∈ lines, ¬ line.Defines key := by
  refine ⟨fun absent line mem defines => ?_, find?_labels_eq_none⟩
  obtain ⟨before, last, after, rfl, hlast, none⟩ := exists_last
    (p := fun line : Line => line.Defines key) ⟨line, mem, defines⟩
  rw [Assembly.labels, find?_collectLabels_append hlast none] at absent
  cases absent

/-- A retained line has the number of its place in the source, counted from one, and its statement
is what is left of the line there. -/
theorem exists_line_of_mem_retained {source : List Char} (mem : statement ∈ retained source) :
    ∃ text, 1 ≤ statement.line ∧ (Text.lines source)[statement.line - 1]? = some text ∧
      remainder text ≠ [] ∧ statement = statementOf (remainder text) statement.line := by
  obtain ⟨⟨text, number⟩, numbered, read⟩ := List.mem_filterMap.mp mem
  dsimp only at read
  split at read
  · cases read
  next left =>
  cases read
  obtain ⟨le, place⟩ := List.mem_zipIdx_iff_le_and_getElem?_sub.mp numbered
  exact ⟨text, le, place, left, rfl⟩

/-- If a statement fails, there is a first one that does. -/
theorem exists_firstFailure {statements : List Statement} {position : Nat} {error : Error}
    (failsAt : FailsAt lines address statements position error) :
    ∃ first, FirstFailure lines address statements first := by
  classical
  have some : ∃ position error, FailsAt lines address statements position error :=
    ⟨position, error, failsAt⟩
  obtain ⟨first, fails⟩ := Nat.find_spec some
  exact ⟨first, Nat.find some, fails, fun earlier lt other h => Nat.find_min some lt ⟨other, h⟩⟩

/-- The assembler reports the first failure among the retained lines. -/
theorem assemble_eq_error_iff {source : String} {error : Error} :
    assemble source = .error error ↔
      FirstFailure (sourceLines source.toList) 0 (retained source.toList) error := by
  rw [assemble, assembleLines, statements_sourceLines,
    ← encodeFrom_eq_error_iff (fun _ => find?_labels_eq_none_iff)]
  cases encodeFrom (Assembly.labels (sourceLines source.toList)) 0 (retained source.toList) <;>
    simp [Except.map]

/-- **The error of a source is that of its first failing line.** A source does not assemble just if
some retained line fails at its start address, which is the width of the retained lines before it.
The error then is that of the first such line: it tells the first flaw of the line and the number of
the line in the source, where every line counts. -/
theorem assemble_fails_first (source : String) :
    let lines := sourceLines source.toList
    let statements := retained source.toList
    ((∃ error, assemble source = .error error) ↔
        ∃ position error, FailsAt lines 0 statements position error) ∧
      (∀ error, assemble source = .error error ↔
        ∃ position, FailsAt lines 0 statements position error ∧
          ∀ earlier < position, ∀ other, ¬ FailsAt lines 0 statements earlier other) ∧
      ∀ statement ∈ statements, ∃ text,
        1 ≤ statement.line ∧ (Text.lines source.toList)[statement.line - 1]? = some text ∧
          remainder text ≠ [] ∧ statement = statementOf (remainder text) statement.line := by
  intro lines statements
  refine ⟨⟨?_, ?_⟩, fun error => assemble_eq_error_iff, fun _ => exists_line_of_mem_retained⟩
  · rintro ⟨error, failed⟩
    obtain ⟨position, failsAt, -⟩ := assemble_eq_error_iff.mp failed
    exact ⟨position, error, failsAt⟩
  · rintro ⟨position, error, failsAt⟩
    obtain ⟨first, failure⟩ := exists_firstFailure failsAt
    exact ⟨first, assemble_eq_error_iff.mpr failure⟩

/-- The third line of the text is the first that fails, although the label in it is good and the
fourth line fails, too. -/
example : assemble "; no statement\nloop:\nlast: Data last 1\nadd" =
    .error { line := 3, fault := .invalidData "last" } := by
  rfl

end NibbleComputer.Assembly
