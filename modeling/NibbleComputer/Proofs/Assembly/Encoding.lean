import Mathlib.Data.List.Forall2
import NibbleComputer.Assembly.Program
import NibbleComputer.Proofs.Assembly.Addresses

/-!
# Encodings of statements

The rules by which a statement stands for nibbles, apart from where it lies and from the order in
which the assembler looks for errors. The assembler finds an encoding exactly when the rules give
one and the statement fits into memory.

- `Assembly.Resolves`: the value of an operand.
- `Assembly.Encodes`: the nibbles of a statement.
- `Assembly.encode_eq_ok_iff`: the assembler on one statement.
- `Assembly.encodeFrom_eq_ok_iff`: the assembler on a whole program.
-/

namespace NibbleComputer.Assembly

variable {labels : LabelTable} {statement : Statement} {nibbles : List Nibble}

/-! ## The rules -/

/-- The value of an operand. A label comes before a literal of the same spelling. -/
inductive Resolves (labels : LabelTable) (word : List Char) : Nibble → Prop
  /-- An operand that names a label stands for its address modulo sixteen. -/
  | label {address : Nat} (found : labels.find? (labelKey word) = some address) :
    Resolves labels word (.ofNat address)
  /-- Any other operand is a literal and stands for its number modulo sixteen. -/
  | literal {number : Int} (absent : labels.find? (labelKey word) = none)
    (read : readInteger? word = some number) : Resolves labels word (.ofInt number)

/-- The first word of a statement says that it places a raw nibble. -/
def Statement.IsData (statement : Statement) : Prop :=
  Text.sameIgnoringCase statement.mnemonic dataWord = true

instance : Decidable statement.IsData :=
  inferInstanceAs (Decidable (_ = true))

/-- The nibbles that a statement stands for. -/
inductive Encodes (labels : LabelTable) (statement : Statement) : List Nibble → Prop
  /-- A raw nibble is a literal modulo sixteen. -/
  | data {word : List Char} {number : Int} (data : statement.IsData)
    (operand : statement.operand? = some word) (read : readInteger? word = some number) :
    Encodes labels statement [.ofInt number]
  /-- An opcode without an operand stands alone. -/
  | single {opcode : Opcode} (code : ¬ statement.IsData)
    (mnemonic : Opcode.ofMnemonic? statement.mnemonic = some opcode)
    (alone : opcode.takesOperand = false) : Encodes labels statement [opcode.code]
  /-- Any other opcode is followed by the value of its operand. -/
  | double {opcode : Opcode} {word : List Char} {value : Nibble} (code : ¬ statement.IsData)
    (mnemonic : Opcode.ofMnemonic? statement.mnemonic = some opcode)
    (takes : opcode.takesOperand = true) (operand : statement.operand? = some word)
    (resolves : Resolves labels word value) : Encodes labels statement [opcode.code, value]

/-! ## One statement -/

/-- The word that places a raw nibble is no mnemonic. -/
theorem ofMnemonic?_of_isData (data : statement.IsData) :
    Opcode.ofMnemonic? statement.mnemonic = none := by
  have same : statement.mnemonic.map Char.toLower = dataWord.map Char.toLower := by
    simpa [Statement.IsData, Text.sameIgnoringCase] using data
  refine List.find?_eq_none.mpr fun opcode mem => ?_
  rw [Text.sameIgnoringCase, same]
  revert opcode
  decide

/-- The two passes agree on the width of a statement. -/
theorem Encodes.length_eq (h : Encodes labels statement nibbles) :
    nibbles.length = statement.width := by
  unfold Statement.width wordWidth
  cases h with
  | data data operand read => rw [ofMnemonic?_of_isData data]; rfl
  | single code mnemonic alone => rw [mnemonic]; simp [Opcode.width, alone]
  | double code mnemonic takes operand resolves => rw [mnemonic]; simp [Opcode.width, takes]

/-- The assembler finds the value of an operand by the rules. -/
theorem resolve?_eq_some_iff {word : List Char} {value : Nibble} :
    resolve? labels word = some value ↔ Resolves labels word value := by
  unfold resolve?
  constructor
  · intro h
    split at h
    · next address found => cases h; exact .label found
    · next absent =>
      obtain ⟨number, read, rfl⟩ := Option.map_eq_some_iff.mp h
      exact .literal absent read
  · intro h
    cases h with
    | label found => rw [found]
    | literal absent read => rw [absent]; simp [readLiteral?, read]

/-- The assembler on the word that places a raw nibble. -/
theorem encodeData_eq_ok_iff {operand? : Option (List Char)} :
    encodeData operand? = .ok nibbles ↔
      ∃ word number, operand? = some word ∧ readInteger? word = some number ∧
        nibbles = [.ofInt number] := by
  unfold encodeData
  cases operand? with
  | none => simp
  | some word => cases read : readInteger? word <;> simp [readLiteral?, read, eq_comm]

/-- The assembler on an opcode: an operand must resolve, and there must be room for it. -/
theorem encodeInstruction_eq_ok_iff {address : Nat} {opcode : Opcode}
    {operand? : Option (List Char)} :
    encodeInstruction labels address opcode operand? = .ok nibbles ↔
      opcode.takesOperand = false ∧ nibbles = [opcode.code] ∨
      opcode.takesOperand = true ∧ address + 2 ≤ memorySize ∧
        ∃ word value, operand? = some word ∧ Resolves labels word value ∧
          nibbles = [opcode.code, value] := by
  unfold encodeInstruction
  cases opcode.takesOperand with
  | false => simp [eq_comm]
  | true =>
    by_cases room : memorySize ≤ address + 1
    · have : ¬ address + 2 ≤ memorySize := by omega
      simp [room, this]
    · have : address + 2 ≤ memorySize := by omega
      cases operand? with
      | none => simp [room]
      | some word =>
        cases found : resolve? labels word with
        | none => simp [room, found, ← resolve?_eq_some_iff]
        | some value => simp [room, this, found, ← resolve?_eq_some_iff, eq_comm]

/-- The assembler on a statement that does not start beyond memory. -/
theorem encode_of_lt {address : Nat} (room : address < memorySize) :
    encode labels address statement =
      if statement.IsData then encodeData statement.operand?
      else match Opcode.ofMnemonic? statement.mnemonic with
        | some opcode => encodeInstruction labels address opcode statement.operand?
        | none =>
          .error (.unknownInstruction (String.ofList (Text.upper statement.mnemonic))) := by
  unfold encode
  rw [if_neg (Nat.not_le_of_lt room)]
  rfl

/-- The assembler encodes a statement exactly if the rules do and there is room for it. -/
theorem encode_eq_ok_iff {address : Nat} :
    encode labels address statement = .ok nibbles ↔
      Encodes labels statement nibbles ∧ address + statement.width ≤ memorySize := by
  constructor
  · intro h
    -- whatever the assembler answers is as long as the room that it has checked for
    have rules : Encodes labels statement nibbles ∧ address + nibbles.length ≤ memorySize := by
      by_cases beyond : memorySize ≤ address
      · rw [encode, if_pos beyond] at h
        cases h
      have room : address < memorySize := Nat.lt_of_not_le beyond
      rw [encode_of_lt room] at h
      by_cases data : statement.IsData
      · rw [if_pos data] at h
        obtain ⟨word, number, operand, read, rfl⟩ := encodeData_eq_ok_iff.mp h
        exact ⟨.data data operand read, room⟩
      · rw [if_neg data] at h
        split at h
        · next opcode mnemonic =>
          rcases encodeInstruction_eq_ok_iff.mp h with ⟨alone, rfl⟩ | ⟨takes, room', word, value, h⟩
          · exact ⟨.single data mnemonic alone, room⟩
          · obtain ⟨operand, resolves, rfl⟩ := h
            exact ⟨.double data mnemonic takes operand resolves, room'⟩
        · cases h
    rwa [rules.1.length_eq] at rules
  · rintro ⟨rules, room⟩
    have start : address < memorySize := by
      have := width_pos statement
      omega
    rw [← rules.length_eq] at room
    rw [encode_of_lt start]
    cases rules with
    | data data operand read =>
      rw [if_pos data]
      exact encodeData_eq_ok_iff.mpr ⟨_, _, operand, read, rfl⟩
    | single code mnemonic alone =>
      rw [if_neg code, mnemonic]
      exact encodeInstruction_eq_ok_iff.mpr (.inl ⟨alone, rfl⟩)
    | double code mnemonic takes operand resolves =>
      rw [if_neg code, mnemonic]
      exact encodeInstruction_eq_ok_iff.mpr (.inr ⟨takes, room, _, _, operand, resolves, rfl⟩)

/-! ## A whole program -/

/-- The second pass goes on behind a statement that has an encoding. -/
theorem encodeFrom_cons_of_ok {address : Nat}
    (encoded : encode labels address statement = .ok nibbles) (others : List Statement) :
    encodeFrom labels address (statement :: others) =
      (encodeFrom labels (address + nibbles.length) others).map (nibbles ++ ·) := by
  rw [encodeFrom, encoded]
  dsimp only
  cases encodeFrom labels (address + nibbles.length) others <;> rfl

/-- The assembler encodes some statements exactly if the rules give each of them an encoding and
all of them fit. The nibbles are the encodings one after the other. -/
theorem encodeFrom_eq_ok_iff {address : Nat} {statements : List Statement}
    (inside : address ≤ memorySize) :
    encodeFrom labels address statements = .ok nibbles ↔
      address + size statements ≤ memorySize ∧
        ∃ codes, List.Forall₂ (Encodes labels) statements codes ∧ codes.flatten = nibbles := by
  induction statements generalizing address nibbles with
  | nil => simp [encodeFrom, inside, eq_comm]
  | cons statement others ih =>
    rw [size_cons, ← Nat.add_assoc]
    constructor
    · intro h
      rw [encodeFrom] at h
      split at h
      · cases h
      next code encoded =>
      obtain ⟨rules, room⟩ := encode_eq_ok_iff.mp encoded
      rw [rules.length_eq] at h
      split at h
      · cases h
      next rest encodedRest =>
      cases h
      obtain ⟨fits, codes, all, rfl⟩ := (ih room).mp encodedRest
      exact ⟨fits, code :: codes, .cons rules all, rfl⟩
    · rintro ⟨fits, codes, all, rfl⟩
      cases all with
      | cons rules all =>
        have room : address + statement.width ≤ memorySize := by omega
        rw [encodeFrom_cons_of_ok (encode_eq_ok_iff.mpr ⟨rules, room⟩), rules.length_eq,
          (ih room).mpr ⟨fits, _, all, rfl⟩]
        rfl

/-- The encodings of some statements are as long as their widths add up to. -/
theorem length_flatten_of_forall₂ {statements : List Statement} {codes : List (List Nibble)}
    (all : List.Forall₂ (Encodes labels) statements codes) :
    codes.flatten.length = size statements := by
  induction all with
  | nil => rfl
  | cons rules _ ih => rw [List.flatten_cons, List.length_append, ih, rules.length_eq, size_cons]

/-- The encoding of a statement lies at its start address. -/
theorem exists_encodes_prefix {statements : List Statement} {codes : List (List Nibble)}
    (all : List.Forall₂ (Encodes labels) statements codes) {position : Nat}
    (h : position < statements.length) :
    ∃ code, Encodes labels statements[position] code ∧
      code <+: codes.flatten.drop (start statements position) := by
  induction all generalizing position with
  | nil => exact absurd h (Nat.not_lt_zero _)
  | @cons statement code others codes rules _ ih =>
    cases position with
    | zero => exact ⟨code, rules, List.prefix_append ..⟩
    | succ position =>
      obtain ⟨code', rules', at'⟩ := ih (Nat.lt_of_succ_lt_succ h)
      refine ⟨code', rules', ?_⟩
      rw [start_cons_succ, List.flatten_cons, ← List.drop_drop, ← rules.length_eq,
        List.drop_left]
      exact at'

end NibbleComputer.Assembly
