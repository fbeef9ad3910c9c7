import NibbleComputer.Assembly.Program
import NibbleComputer.Proofs.Text.Case

/-!
# Letters in assembly source

The assembler reads lines whose words differ at most in the case of ASCII letters alike. It is
compared with itself on the lines in lower case: it finds the same program, or the same error,
whose text quotes a word in lower case where the word is quoted as written.

- `Assembly.Line.lower`, `Assembly.Statement.lower`, `Assembly.Error.lower`: lower case.
- `Assembly.encode_lower`, `Assembly.encodeFrom_lower`: one statement, and all of them.
- `Assembly.assembleLines_lower`: the whole program.
- `Assembly.Agree`: results that differ at most in the case of letters in an error's text,
  `Assembly.agree_of_mapError_eq` how they arise.
-/

namespace NibbleComputer.Assembly

variable {labels : LabelTable}

/-! ## Lower case -/

/-- A line with its label and words in lower case. -/
def Line.lower (line : Line) : Line where
  number := line.number
  label? := line.label?.map Text.lower
  words := line.words.map Text.lower

/-- A statement with its words in lower case. -/
def Statement.lower (statement : Statement) : Statement where
  line := statement.line
  mnemonic := Text.lower statement.mnemonic
  operand? := statement.operand?.map Text.lower

/-- A fault with the word that it quotes as written in lower case. A word that is no mnemonic is
quoted in upper case already. -/
def Fault.lower : Fault → Fault
  | .invalidOperand operand => .invalidOperand (String.ofList (Text.lower operand.toList))
  | .invalidData value => .invalidData (String.ofList (Text.lower value.toList))
  | fault => fault

/-- An error with its fault in lower case. -/
def Error.lower (error : Error) : Error where
  line := error.line
  fault := error.fault.lower

/-! ## Words -/

theorem labelKey_lower (word : List Char) : labelKey (Text.lower word) = labelKey word := by
  rw [labelKey, Text.upper_lower, labelKey]

theorem sameIgnoringCase_lower (s t : List Char) :
    Text.sameIgnoringCase s (Text.lower t) = Text.sameIgnoringCase s t := by
  rw [Bool.eq_iff_iff, Text.sameIgnoringCase_iff, Text.lower_lower, Text.sameIgnoringCase_iff]

theorem isData_lower (statement : Statement) :
    Text.sameIgnoringCase statement.lower.mnemonic dataWord =
      Text.sameIgnoringCase statement.mnemonic dataWord := by
  rw [Bool.eq_iff_iff, Text.sameIgnoringCase_iff, Statement.lower, Text.lower_lower,
    Text.sameIgnoringCase_iff]

theorem ofMnemonic?_lower (word : List Char) :
    Opcode.ofMnemonic? (Text.lower word) = Opcode.ofMnemonic? word := by
  unfold Opcode.ofMnemonic?
  simp only [sameIgnoringCase_lower]

theorem wordWidth_lower (word : List Char) : wordWidth (Text.lower word) = wordWidth word := by
  rw [wordWidth, ofMnemonic?_lower, wordWidth]

/-- Without the mark of a hexadecimal literal a word is read as a decimal one. -/
theorem readInteger?_of_decimal {word : List Char}
    (mark : ∀ c digits, word = '0' :: c :: digits → c.toLower ≠ 'x') :
    readInteger? word = Text.readInt64? 10 word := by
  unfold readInteger?
  split
  · next digits => exact absurd rfl (mark 'x' digits rfl)
  · next digits => exact absurd rfl (mark 'X' digits rfl)
  · rfl

/-- The mark of a hexadecimal literal is the letter in either case. -/
theorem readInteger?_of_hexadecimal {c : Char} (mark : c.toLower = 'x') (digits : List Char) :
    readInteger? ('0' :: c :: digits) = Text.readInt64? 16 digits := by
  have letters : ∀ n < 26, (Text.capital n).toLower = 'x' → Text.capital n = 'X' := by decide
  have either : c = 'x' ∨ c = 'X' := by
    rcases Text.toLower_eq_or_capital c with same | ⟨n, range, rfl⟩
    · exact .inl (same.symm.trans mark)
    · exact .inr (letters n range mark)
  rcases either with rfl | rfl <;> rfl

theorem readInteger?_lower (word : List Char) :
    readInteger? (Text.lower word) = readInteger? word := by
  by_cases marked : ∃ c digits, word = '0' :: c :: digits ∧ c.toLower = 'x'
  · obtain ⟨c, digits, rfl, mark⟩ := marked
    have mark' : c.toLower.toLower = 'x' := by rw [mark]; decide
    calc readInteger? (Text.lower ('0' :: c :: digits))
        = readInteger? ('0' :: c.toLower :: Text.lower digits) := rfl
      _ = Text.readInt64? 16 digits := by
        rw [readInteger?_of_hexadecimal mark', Text.readInt64?_lower]
      _ = readInteger? ('0' :: c :: digits) := (readInteger?_of_hexadecimal mark digits).symm
  · -- without the mark there is none in lower case either
    have plain : ∀ c digits, word = '0' :: c :: digits → c.toLower ≠ 'x' :=
      fun c digits shape mark => marked ⟨c, digits, shape, mark⟩
    have plain' : ∀ c digits, Text.lower word = '0' :: c :: digits → c.toLower ≠ 'x' := by
      intro c digits shape
      obtain ⟨zero, rest, rfl, first, shape⟩ := List.map_eq_cons_iff.mp shape
      obtain ⟨d, digits, rfl, rfl, -⟩ := List.map_eq_cons_iff.mp shape
      rw [(Text.toLower_eq_iff (by decide)).mp first] at plain
      rw [Text.comp_toLower (f := Char.toLower) (by decide)]
      exact plain d digits rfl
    rw [readInteger?_of_decimal plain, readInteger?_of_decimal plain', Text.readInt64?_lower]

theorem readLiteral?_lower (word : List Char) :
    readLiteral? (Text.lower word) = readLiteral? word := by
  rw [readLiteral?, readInteger?_lower, readLiteral?]

theorem resolve?_lower (word : List Char) :
    resolve? labels (Text.lower word) = resolve? labels word := by
  rw [resolve?, labelKey_lower, readLiteral?_lower, resolve?]

/-! ## The second pass -/

theorem encodeData_lower (operand? : Option (List Char)) :
    encodeData (operand?.map Text.lower) = (encodeData operand?).mapError Fault.lower := by
  cases operand? with
  | none => rfl
  | some word =>
    simp only [encodeData, Option.map_some, Option.bind_some, readLiteral?_lower]
    cases readLiteral? word with
    | none => simp [Except.mapError, Fault.lower]
    | some value => rfl

theorem encodeInstruction_lower (address : Nat) (opcode : Opcode) (operand? : Option (List Char)) :
    encodeInstruction labels address opcode (operand?.map Text.lower) =
      (encodeInstruction labels address opcode operand?).mapError Fault.lower := by
  unfold encodeInstruction
  split
  · rfl
  split
  · rfl
  cases operand? with
  | none => rfl
  | some word =>
    simp only [Option.map_some, resolve?_lower]
    cases resolve? labels word with
    | none => simp [Except.mapError, Fault.lower]
    | some value => rfl

/-- A statement in lower case has the same nibbles, or the same fault in lower case. -/
theorem encode_lower (address : Nat) (statement : Statement) :
    encode labels address statement.lower =
      (encode labels address statement).mapError Fault.lower := by
  unfold encode
  rw [isData_lower]
  split
  · rfl
  split
  · exact encodeData_lower statement.operand?
  simp only [Statement.lower, ofMnemonic?_lower, Text.upper_lower]
  cases Opcode.ofMnemonic? statement.mnemonic with
  | none => rfl
  | some opcode => exact encodeInstruction_lower address opcode statement.operand?

theorem encodeFrom_lower (address : Nat) (statements : List Statement) :
    encodeFrom labels address (statements.map Statement.lower) =
      (encodeFrom labels address statements).mapError Error.lower := by
  induction statements generalizing address with
  | nil => rfl
  | cons statement others ih =>
    simp only [List.map_cons, encodeFrom, encode_lower]
    -- the next statement lies at the same address, since the nibbles are the same
    cases encode labels address statement with
    | error fault => rfl
    | ok nibbles =>
      simp only [Except.mapError, ih]
      cases encodeFrom labels (address + nibbles.length) others <;> rfl

/-! ## The whole program -/

theorem width_lower (line : Line) : line.lower.width = line.width := by
  unfold Line.width
  cases words : line.words with
  | nil => simp [Line.lower, words]
  | cons word others => simp [Line.lower, words, wordWidth_lower]

theorem collectLabels_lower (address : Nat) (table : LabelTable) (lines : List Line) :
    collectLabels address table (lines.map Line.lower) = collectLabels address table lines := by
  induction lines generalizing address table with
  | nil => rfl
  | cons line lines ih =>
    rw [List.map_cons, collectLabels, collectLabels, width_lower, ih]
    cases label : line.label? with
    | none => simp [Line.lower, label]
    | some label => simp [Line.lower, label, labelKey_lower]

theorem statement?_lower (line : Line) :
    line.lower.statement? = line.statement?.map Statement.lower := by
  unfold Line.statement?
  cases words : line.words with
  | nil => simp [Line.lower, words]
  | cons mnemonic others => simp [Line.lower, Statement.lower, words]

theorem statements_lower (lines : List Line) :
    statements (lines.map Line.lower) = (statements lines).map Statement.lower := by
  rw [statements, statements, List.filterMap_map, List.map_filterMap]
  congr 1
  exact funext statement?_lower

/-- Lines in lower case give the same program, or the same error in lower case. -/
theorem assembleLines_lower (lines : List Line) :
    assembleLines (lines.map Line.lower) = (assembleLines lines).mapError Error.lower := by
  have same : Assembly.labels (lines.map Line.lower) = Assembly.labels lines :=
    collectLabels_lower 0 {} lines
  unfold assembleLines
  dsimp only
  rw [same, statements_lower, encodeFrom_lower]
  cases encodeFrom (Assembly.labels lines) 0 (statements lines) <;> rfl

/-! ## Results that agree -/

/-- Two faults of one kind. -/
def Fault.SameKind : Fault → Fault → Prop
  | .programTooLarge, .programTooLarge => True
  | .unknownInstruction _, .unknownInstruction _ => True
  | .missingOperand _, .missingOperand _ => True
  | .invalidOperand _, .invalidOperand _ => True
  | .invalidData _, .invalidData _ => True
  | _, _ => False

/-- The same program, or errors of one kind on one line with texts that differ at most in the case
of letters. -/
inductive Agree : Except Error Program → Except Error Program → Prop
  | ok (program : Program) : Agree (.ok program) (.ok program)
  | error {e f : Error} (line : e.line = f.line) (kind : e.fault.SameKind f.fault)
    (text : Text.sameIgnoringCase e.message.toList f.message.toList = true) :
    Agree (.error e) (.error f)

theorem sameKind_of_lower_eq {e f : Fault} (same : e.lower = f.lower) : e.SameKind f := by
  -- lower case keeps the kind, so faults of different kinds stay different
  cases e <;> cases f <;> first | exact trivial | cases same

/-- The text of an error changes in the case of letters only. -/
theorem lower_message (error : Error) :
    Text.lower error.lower.message.toList = Text.lower error.message.toList := by
  obtain ⟨line, fault⟩ := error
  cases fault <;> simp [Error.lower, Fault.lower, Error.message, Text.lower_lower]

/-- Results that are the same in lower case agree. -/
theorem agree_of_mapError_eq {x y : Except Error Program}
    (same : x.mapError Error.lower = y.mapError Error.lower) : Agree x y := by
  cases x with
  | ok program =>
    cases y with
    | ok other =>
      cases same
      exact .ok program
    | error f => cases same
  | error e =>
    cases y with
    | ok other => cases same
    | error f =>
      have lower : e.lower = f.lower := Except.error.inj same
      have line : e.lower.line = f.lower.line := congrArg Error.line lower
      have fault : e.lower.fault = f.lower.fault := congrArg Error.fault lower
      refine .error line (sameKind_of_lower_eq fault) (Text.sameIgnoringCase_iff.mpr ?_)
      rw [← lower_message e, lower, lower_message]

end NibbleComputer.Assembly
