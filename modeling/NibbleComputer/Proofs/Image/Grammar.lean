import Mathlib.Data.List.Forall2
import NibbleComputer.Image
import NibbleComputer.Proofs.Text.Numerals

/-!
# The grammar of images

Which texts are images, and what is reported of the others. A line counts up to its first semicolon
and without the blanks at its ends, and not at all if nothing is left of it. The grammar of the
lines that count does not mention the reader: at most one mark `0x`, at most one plus sign, and
hexadecimal digits.

- `Image.Denotes`: the lines that denote a number.
- `Image.Faulty`: what is wrong with the others, and with numbers of more than four bits.
- `Image.entries`: the lines of a text that count, with their numbers.
- `Image.readNibble_eq_ok_iff`, `Image.readNibble_eq_error_iff`: the reader of a line follows the
  grammar.
- `Image.parse_grammar`: the reader of a text accepts exactly the images, and reports the first
  wrong line or else the number of lines.
-/

namespace NibbleComputer.Image

/-! ## The grammar -/

/-- A line of hexadecimal digits, of either case and with any number of leading zeros, behind at
most one mark and at most one plus sign. -/
def Denotes (line : List Char) (value : Nat) : Prop :=
  ∃ mark ∈ [[], ['0', 'x'], ['0', 'X']], ∃ sign ∈ [[], ['+']], ∃ digits,
    line = mark ++ sign ++ digits ∧ Text.Numeral 16 digits value

/-- A line that denotes a nibble. -/
def Good (line : List Char) : Prop :=
  ∃ value ≤ 15, Denotes line value

/-- A line that does not, with its fault: a number that needs five to eight bits, or anything
else. -/
inductive Faulty (line : List Char) : Fault → Prop
  | tooWide {value : Nat} (number : Denotes line value) (wide : 16 ≤ value) (byte : value ≤ 255) :
      Faulty line (.tooWide (.ofNat value))
  | noNibble (none : ∀ value, Denotes line value → 255 < value) :
      Faulty line (.noNibble (String.ofList line))

/-- What is left of numbered lines up to their comments and without blanks at the ends, where
anything is left. -/
def content (lines : List (List Char × Nat)) : List (List Char × Nat) :=
  (lines.map fun entry => (Text.trim (entry.1.takeWhile (· != ';')), entry.2)).filter
    fun entry => !entry.1.isEmpty

/-- The lines of a text that count, with the numbers that they have in it, from one on. -/
def entries (text : String) : List (List Char × Nat) :=
  content ((Text.lines text.toList).zipIdx 1)

/-- The first line that is not good, by its number, and its fault. -/
def FirstFault (lines : List (List Char × Nat)) (number : Nat) (fault : Fault) : Prop :=
  ∃ before line after, lines = before ++ (line, number) :: after ∧
    (∀ entry ∈ before, Good entry.1) ∧ Faulty line fault

/-! ## Single lines -/

variable {line : List Char} {value : Nat} {nibble : Nibble} {fault : Fault}

/-- Of a line at most one mark is dropped. -/
theorem exists_mark (line : List Char) :
    ∃ mark ∈ [[], ['0', 'x'], ['0', 'X']], line = mark ++ dropMark line := by
  unfold dropMark
  split
  · exact ⟨['0', 'x'], by simp, rfl⟩
  · exact ⟨['0', 'X'], by simp, rfl⟩
  · exact ⟨[], by simp, rfl⟩

theorem dropMark_of_notMem (lower : 'x' ∉ line) (upper : 'X' ∉ line) : dropMark line = line := by
  unfold dropMark
  split
  · simp at lower
  · simp at upper
  · rfl

/-- The reader of numbers follows the grammar. -/
theorem denotes_iff : Denotes line value ↔
    Text.readUnsigned? 16 (dropMark line) = some value := by
  constructor
  · rintro ⟨mark, marks, sign, signs, digits, rfl, numeral⟩
    have plain : dropMark (mark ++ sign ++ digits) = sign ++ digits := by
      simp only [List.mem_cons, List.not_mem_nil, or_false] at marks
      rcases marks with rfl | rfl | rfl
      · -- neither a sign nor a digit can be taken for a mark
        have unmarked {c : Char} (other : Text.digitValue? 16 c = none) (differs : c ≠ '+') :
            c ∉ sign ++ digits := by
          simp only [List.mem_cons, List.not_mem_nil, or_false] at signs
          rcases signs with rfl | rfl <;> simp [numeral.notMem (by decide) other, differs]
        exact dropMark_of_notMem (unmarked rfl (by decide)) (unmarked rfl (by decide))
      · rfl
      · rfl
    rw [plain]
    exact (Text.readUnsigned?_eq_some_iff (by decide)).mpr ⟨sign, signs, digits, rfl, numeral⟩
  · intro read
    obtain ⟨mark, marks, split⟩ := exists_mark line
    obtain ⟨sign, signs, digits, rest, numeral⟩ :=
      (Text.readUnsigned?_eq_some_iff (by decide)).mp read
    refine ⟨mark, marks, sign, signs, digits, ?_, numeral⟩
    rw [List.append_assoc, ← rest]
    exact split

/-- A line denotes one number at most. -/
theorem Denotes.unique {other : Nat} (number : Denotes line value) (number' : Denotes line other) :
    value = other :=
  Option.some.inj ((denotes_iff.mp number).symm.trans (denotes_iff.mp number'))

/-- The answer for a number. -/
theorem readNibble_of_denotes (number : Denotes line value) : readNibble line =
    if value ≤ 15 then .ok (.ofNat value)
    else if value ≤ 255 then .error (.tooWide (.ofNat value))
    else .error (.noNibble (String.ofList line)) := by
  rw [readNibble, Text.readByte?, denotes_iff.mp number]
  by_cases byte : value ≤ 255
  · have below : value < UInt8.size := Nat.lt_succ_of_le byte
    have same : (UInt8.ofNat value).toNat = value := UInt8.toNat_ofNat_of_lt' below
    have narrow : UInt8.ofNat value < 16 ↔ value ≤ 15 := by
      rw [UInt8.lt_iff_toNat_lt, same]
      exact Nat.lt_succ_iff
    simp only [Option.filter_some, below, decide_true, Option.map_some, narrow, Nibble.ofByte,
      same, byte, if_true]
  · have above : ¬ value < UInt8.size := fun below => byte (Nat.le_of_lt_succ below)
    rw [if_neg (by omega), if_neg byte]
    simp only [Option.filter_some, above, decide_false, Bool.false_eq_true, if_false,
      Option.map_none]

/-- The answer for anything else. -/
theorem readNibble_of_not_denotes (other : ∀ value, ¬ Denotes line value) :
    readNibble line = .error (.noNibble (String.ofList line)) := by
  have unread : Text.readUnsigned? 16 (dropMark line) = none :=
    Option.eq_none_iff_forall_ne_some.mpr fun value read => other value (denotes_iff.mpr read)
  rw [readNibble, Text.readByte?, unread]
  rfl

/-- The nibble of a line is the number that the line denotes. -/
theorem readNibble_eq_ok_iff : readNibble line = .ok nibble ↔ Denotes line nibble.val := by
  constructor
  · intro read
    by_cases number : ∃ value, Denotes line value
    · obtain ⟨value, number⟩ := number
      rw [readNibble_of_denotes number] at read
      split at read
      case isTrue narrow =>
        obtain rfl := Except.ok.inj read
        rwa [show (Nibble.ofNat value).val = value from Nat.mod_eq_of_lt (Nat.lt_succ_of_le narrow)]
      case isFalse => split at read <;> cases read
    · rw [readNibble_of_not_denotes (not_exists.mp number)] at read
      cases read
  · intro number
    rw [readNibble_of_denotes number, if_pos (Nat.le_of_lt_succ nibble.isLt)]
    exact congrArg Except.ok (Fin.ofNat_val_eq_self nibble)

/-- A line that denotes no nibble is refused with its fault. -/
theorem readNibble_eq_error_iff : readNibble line = .error fault ↔ Faulty line fault := by
  constructor
  · intro read
    by_cases number : ∃ value, Denotes line value
    · obtain ⟨value, number⟩ := number
      rw [readNibble_of_denotes number] at read
      split at read
      case isTrue => cases read
      case isFalse wide =>
        split at read
        case isTrue byte =>
          obtain rfl := Except.error.inj read
          exact .tooWide number (Nat.lt_of_not_le wide) byte
        case isFalse above =>
          obtain rfl := Except.error.inj read
          exact .noNibble fun other number' => number.unique number' ▸ Nat.lt_of_not_le above
    · rw [readNibble_of_not_denotes (not_exists.mp number)] at read
      obtain rfl := Except.error.inj read
      exact .noNibble fun value denotes => absurd ⟨value, denotes⟩ number
  · rintro (⟨number, wide, byte⟩ | ⟨above⟩)
    · rw [readNibble_of_denotes number, if_neg (by omega), if_pos byte]
    · by_cases number : ∃ value, Denotes line value
      · obtain ⟨value, number⟩ := number
        have large := above value number
        rw [readNibble_of_denotes number, if_neg (by omega), if_neg (by omega)]
      · exact readNibble_of_not_denotes (not_exists.mp number)

/-- A line is good if it is read as a nibble. -/
theorem good_iff : Good line ↔ ∃ nibble, readNibble line = .ok nibble := by
  simp only [readNibble_eq_ok_iff]
  constructor
  · rintro ⟨value, narrow, number⟩
    exact ⟨⟨value, Nat.lt_succ_of_le narrow⟩, number⟩
  · rintro ⟨nibble, number⟩
    exact ⟨nibble.val, Nat.le_of_lt_succ nibble.isLt, number⟩

/-! ## A text -/

variable {lines : List (List Char × Nat)} {number n : Nat}

theorem content_cons (line : List Char) (number : Nat) (lines : List (List Char × Nat)) :
    content ((line, number) :: lines) =
      if stripComment line = [] then content lines
      else (stripComment line, number) :: content lines := by
  rw [content, List.map_cons, List.filter_cons]
  show (if (!(stripComment line).isEmpty) = true then _ else _) = _
  simp only [Bool.not_eq_true', List.isEmpty_eq_false_iff, ne_eq, ite_not]
  rfl

/-- The lines that count are read one by one. -/
theorem parseLines_eq_ok_iff {nibbles : List Nibble} : parseLines lines = .ok nibbles ↔
    List.Forall₂ (fun entry nibble => Denotes entry.1 nibble.val) (content lines) nibbles := by
  induction lines generalizing nibbles with
  | nil =>
    show Except.ok [] = Except.ok nibbles ↔ List.Forall₂ _ [] nibbles
    rw [List.forall₂_nil_left_iff, Except.ok.injEq, eq_comm]
  | cons entry lines ih =>
    obtain ⟨line, number⟩ := entry
    rw [content_cons, parseLines]
    by_cases empty : stripComment line = []
    · rw [if_pos empty, empty]
      exact ih
    · simp only [List.isEmpty_iff, empty, if_false, List.forall₂_cons_left_iff, ← ih]
      simp only [← readNibble_eq_ok_iff]
      cases readNibble (stripComment line) with
      | error fault => simp
      | ok nibble =>
        cases parseLines lines with
        | error error => simp [Except.map]
        | ok others => simp [Except.map, eq_comm]

/-- The first fault is that of the first line, or that of the other lines if the first is good. -/
theorem firstFault_cons : FirstFault ((line, number) :: lines) n fault ↔
    n = number ∧ Faulty line fault ∨ Good line ∧ FirstFault lines n fault := by
  constructor
  · rintro ⟨before, other, after, split, good, faulty⟩
    cases before with
    | nil =>
      obtain ⟨⟨rfl, rfl⟩, -⟩ := by simpa using split
      exact .inl ⟨rfl, faulty⟩
    | cons entry before =>
      obtain ⟨rfl, rest⟩ := List.cons.inj split
      exact .inr ⟨good _ List.mem_cons_self, before, other, after, rest,
        fun entry mem => good entry (List.mem_cons_of_mem _ mem), faulty⟩
  · rintro (⟨rfl, faulty⟩ | ⟨first, before, other, after, rfl, good, faulty⟩)
    · exact ⟨[], line, lines, rfl, by simp, faulty⟩
    · exact ⟨(line, number) :: before, other, after, rfl,
        List.forall_mem_cons.mpr ⟨first, good⟩, faulty⟩

/-- The first wrong line, of those that count, is reported. -/
theorem parseLines_eq_error_iff {error : Error} : parseLines lines = .error error ↔
    ∃ number fault, FirstFault (content lines) number fault ∧ error = .parse number fault := by
  induction lines with
  | nil => simp [parseLines, content, FirstFault]
  | cons entry lines ih =>
    obtain ⟨line, number⟩ := entry
    rw [content_cons, parseLines]
    by_cases empty : stripComment line = []
    · rw [if_pos empty, empty]
      exact ih
    · simp only [List.isEmpty_iff, empty, if_false, firstFault_cons, good_iff,
        ← readNibble_eq_error_iff]
      cases readNibble (stripComment line) with
      | error fault => simp [eq_comm]
      | ok nibble =>
        simp only [reduceCtorEq, and_false, false_or, Except.ok.injEq, exists_eq', true_and, ← ih]
        cases parseLines lines <;> simp [Except.map]

/-- Lines are read to the end if all of those that count are good. -/
theorem exists_parseLines_eq_ok_iff :
    (∃ nibbles, parseLines lines = .ok nibbles) ↔ ∀ entry ∈ content lines, Good entry.1 := by
  constructor
  · rintro ⟨nibbles, read⟩
    have each := (parseLines_eq_ok_iff.mp read).imp fun entry nibble number =>
      And.intro (good_iff.mpr ⟨nibble, readNibble_eq_ok_iff.mpr number⟩) number
    exact ((List.forall₂_and_left _ _).mp each).1
  · intro good
    cases read : parseLines lines with
    | ok nibbles => exact ⟨nibbles, rfl⟩
    | error error =>
      obtain ⟨number, fault, ⟨before, line, after, split, -, faulty⟩, -⟩ :=
        parseLines_eq_error_iff.mp read
      have mem : (line, number) ∈ content lines := by rw [split]; simp
      obtain ⟨nibble, denoted⟩ := good_iff.mp (good _ mem)
      cases denoted.symm.trans (readNibble_eq_error_iff.mpr faulty)

theorem parse_eq_ok_iff {text : String} {nibbles : List Nibble} : parse text = .ok nibbles ↔
    parseLines (Text.numberedLines text.toList) = .ok nibbles ∧ nibbles.length ≤ memorySize := by
  rw [parse]
  cases parseLines (Text.numberedLines text.toList) with
  | error error => simp
  | ok others =>
    dsimp only
    split
    case isTrue large =>
      refine iff_of_false (by simp) ?_
      rintro ⟨same, fits⟩
      cases same
      exact Nat.not_lt_of_le fits large
    case isFalse fits =>
      refine ⟨fun same => ⟨same, ?_⟩, And.left⟩
      cases same
      exact Nat.le_of_not_lt fits

/-- Errors are those of the lines, and then that of their number. -/
theorem parse_eq_error_iff {text : String} {error : Error} : parse text = .error error ↔
    parseLines (Text.numberedLines text.toList) = .error error ∨
      ∃ nibbles, parseLines (Text.numberedLines text.toList) = .ok nibbles ∧
        memorySize < nibbles.length ∧ error = .tooLarge nibbles.length := by
  rw [parse]
  cases parseLines (Text.numberedLines text.toList) with
  | error other => simp
  | ok others =>
    dsimp only
    split
    case isTrue large => simp [large, eq_comm]
    case isFalse fits => simp [fits]

/-- The messages for the two kinds of faults. -/
theorem Faulty.message_eq (faulty : Faulty line fault) :
    (∃ value, Denotes line value ∧ 16 ≤ value ∧ value ≤ 255 ∧
        fault.message = "value 0x" ++ Text.hexadecimal value ++ " does not fit in 4 bits") ∨
      (∀ value, Denotes line value → 255 < value) ∧
        fault.message = "expected a hex nibble, found '" ++ String.ofList line ++ "'" := by
  cases faulty with
  | @tooWide value number wide byte =>
    have below : value < UInt8.size := Nat.lt_succ_of_le byte
    refine .inl ⟨value, number, wide, byte, ?_⟩
    show "value 0x" ++ Text.hexadecimal (UInt8.ofNat value).toNat ++ _ = _
    rw [UInt8.toNat_ofNat_of_lt' below]
  | noNibble above => exact .inr ⟨above, rfl⟩

/-- **Which texts are images.** Of the lines of a text count those of which something is left after
the comment has been cut off and the blanks at the ends. The text is an image if all of them are
good and memory has a cell for each, and its nibbles are then the numbers that they denote, in
their order. If one of them is wrong, the first of these is reported by its number in the text,
however many lines there are, with one message for a number in 16 to 255 and another for anything
else. If all are good but too many, their number is reported. -/
theorem parse_grammar (text : String) :
    let lines := entries text
    (∀ nibbles, parse text = .ok nibbles ↔ lines.length ≤ memorySize ∧
        List.Forall₂ (fun entry nibble => Denotes entry.1 nibble.val) lines nibbles) ∧
      ((∃ nibbles, parse text = .ok nibbles) ↔
        lines.length ≤ memorySize ∧ ∀ entry ∈ lines, Good entry.1) ∧
      (∀ number fault, parse text = .error (.parse number fault) ↔
        FirstFault lines number fault) ∧
      (∀ number fault, parse text = .error (.parse number fault) →
        ∃ line, (line, number) ∈ lines ∧
          ((∃ value, Denotes line value ∧ 16 ≤ value ∧ value ≤ 255 ∧
              fault.message = "value 0x" ++ Text.hexadecimal value ++ " does not fit in 4 bits") ∨
            (∀ value, Denotes line value → 255 < value) ∧
              fault.message = "expected a hex nibble, found '" ++ String.ofList line ++ "'")) ∧
      (∀ size, parse text = .error (.tooLarge size) ↔
        (∀ entry ∈ lines, Good entry.1) ∧ size = lines.length ∧ memorySize < size) ∧
      (∀ reason, parse text ≠ .error (.io reason)) := by
  intro lines
  have accepts (nibbles : List Nibble) : parse text = .ok nibbles ↔ lines.length ≤ memorySize ∧
      List.Forall₂ (fun entry nibble => Denotes entry.1 nibble.val) lines nibbles := by
    rw [parse_eq_ok_iff, parseLines_eq_ok_iff, and_comm]
    exact and_congr_left fun each => by rw [← each.length_eq]; rfl
  have good : (∃ nibbles, parseLines (Text.numberedLines text.toList) = .ok nibbles) ↔
      ∀ entry ∈ lines, Good entry.1 := exists_parseLines_eq_ok_iff
  have faults (number : Nat) (fault : Fault) :
      parse text = .error (.parse number fault) ↔ FirstFault lines number fault := by
    rw [parse_eq_error_iff, parseLines_eq_error_iff]
    simp only [Error.parse.injEq, reduceCtorEq, and_false, exists_false, or_false]
    constructor
    · rintro ⟨_, _, first, rfl, rfl⟩
      exact first
    · exact fun first => ⟨number, fault, first, rfl, rfl⟩
  refine ⟨accepts, ?_, faults, fun number fault parsed => ?_, fun size => ?_, fun reason => ?_⟩
  · constructor
    · rintro ⟨nibbles, parsed⟩
      obtain ⟨read, -⟩ := parse_eq_ok_iff.mp parsed
      exact ⟨((accepts nibbles).mp parsed).1, good.mp ⟨nibbles, read⟩⟩
    · rintro ⟨fits, all⟩
      obtain ⟨nibbles, read⟩ := good.mpr all
      exact ⟨nibbles, (accepts nibbles).mpr ⟨fits, parseLines_eq_ok_iff.mp read⟩⟩
  · obtain ⟨before, line, after, split, -, faulty⟩ := (faults number fault).mp parsed
    have mem : (line, number) ∈ before ++ (line, number) :: after := by simp
    exact ⟨line, split ▸ mem, faulty.message_eq⟩
  · rw [parse_eq_error_iff, parseLines_eq_error_iff]
    simp only [reduceCtorEq, and_false, exists_false, false_or, Error.tooLarge.injEq]
    constructor
    · rintro ⟨nibbles, read, large, rfl⟩
      have each := parseLines_eq_ok_iff.mp read
      exact ⟨good.mp ⟨nibbles, read⟩, each.length_eq.symm, large⟩
    · rintro ⟨all, rfl, large⟩
      obtain ⟨nibbles, read⟩ := good.mpr all
      have count : lines.length = nibbles.length := (parseLines_eq_ok_iff.mp read).length_eq
      exact ⟨nibbles, read, count ▸ large, count⟩
  · rw [Ne, parse_eq_error_iff, parseLines_eq_error_iff]
    simp

/-- Numbers with marks, signs and leading zeros, and texts that are no images: the first wrong line
of one that is also too long, and a number of more than eight bits. -/
theorem parse_grammar_refused :
    FirstFault (entries "7 ; first\n\n 0X+00e\n1f\n-5") 4 (.tooWide 31) ∧
      FirstFault (entries ("0\n0\n0\n0\n0\n0\n0\n0\n0\n0\n0\n0\n0\n0\n0\n0\n0x100;\n0")) 17
        (.noNibble "0x100") ∧
      List.Forall₂ (fun entry nibble => Denotes entry.1 nibble.val) (entries "7 ; first\n\n 0X+00e")
        ([7, 14] : List Nibble) := by
  obtain ⟨-, -, faults, -⟩ := parse_grammar "7 ; first\n\n 0X+00e\n1f\n-5"
  obtain ⟨-, -, faults', -⟩ :=
    parse_grammar "0\n0\n0\n0\n0\n0\n0\n0\n0\n0\n0\n0\n0\n0\n0\n0\n0x100;\n0"
  obtain ⟨accepts, -⟩ := parse_grammar "7 ; first\n\n 0X+00e"
  exact ⟨(faults 4 _).mp (by decide +kernel), (faults' 17 _).mp (by decide +kernel),
    ((accepts [7, 14]).mp (by decide +kernel)).2⟩

end NibbleComputer.Image
