import NibbleComputer.Assembly.Literal
import NibbleComputer.Proofs.Text.Numerals

/-!
# The grammar of literals

Which words are numbers in assembly text, and which nibbles they stand for. The grammar does not
mention the reader: a decimal number with an optional sign, or the mark `0x` and behind it a
hexadecimal number with an optional sign. Of these, the numbers of 64 bits count.

- `Assembly.Literal`: the words that denote integers.
- `Assembly.readInteger?_eq_some_iff`: the reader follows the grammar.
- `Assembly.bit_ofInt`: the nibble of an integer is its low four bits.
- `Assembly.Misspelt`: words that look like literals, and `Assembly.Misspelt.not_literal`.
- `Assembly.literal_grammar`: the nibble of a word, and the words without one.
-/

namespace NibbleComputer.Assembly

variable {word : List Char} {number : Int}

/-! ## The grammar -/

/-- A word that denotes an integer. The sign of a hexadecimal one stands behind the mark. -/
inductive Literal : List Char → Int → Prop
  | decimal {word : List Char} {number : Int} (integer : Text.Signed 10 word number) :
    Literal word number
  | hexadecimal {mark digits : List Char} {number : Int} (marks : mark ∈ [['0', 'x'], ['0', 'X']])
    (integer : Text.Signed 16 digits number) : Literal (mark ++ digits) number

/-- What is neither a sign nor a digit does not occur in a decimal literal. -/
theorem notMem_of_signed {mark : Char} (integer : Text.Signed 10 word number)
    (other : Text.digitValue? 10 mark = none) (plus : mark ≠ '+') (minus : mark ≠ '-') :
    mark ∉ word := by
  cases integer with
  | plain numeral => exact numeral.notMem (by decide) other
  | plus numeral => simp [plus, numeral.notMem (by decide) other]
  | minus numeral => simp [minus, numeral.notMem (by decide) other]

/-- The integers that are read are those that the literals denote, as far as 64 bits reach. -/
theorem readInteger?_eq_some_iff :
    readInteger? word = some number ↔ Literal word number ∧ Text.IsInt64 number := by
  constructor
  · intro read
    unfold readInteger? at read
    split at read
    case h_1 digits =>
      obtain ⟨integer, range⟩ := (Text.readInt64?_eq_some_iff (by decide)).mp read
      exact ⟨@Literal.hexadecimal ['0', 'x'] digits number (by simp) integer, range⟩
    case h_2 digits =>
      obtain ⟨integer, range⟩ := (Text.readInt64?_eq_some_iff (by decide)).mp read
      exact ⟨@Literal.hexadecimal ['0', 'X'] digits number (by simp) integer, range⟩
    case h_3 =>
      obtain ⟨integer, range⟩ := (Text.readInt64?_eq_some_iff (by decide)).mp read
      exact ⟨.decimal integer, range⟩
  · rintro ⟨literal, range⟩
    cases literal with
    | decimal integer =>
      -- no decimal literal has the letter of a mark
      have lower : 'x' ∉ word := notMem_of_signed integer rfl (by decide) (by decide)
      have upper : 'X' ∉ word := notMem_of_signed integer rfl (by decide) (by decide)
      unfold readInteger?
      split
      case h_1 => simp at lower
      case h_2 => simp at upper
      case h_3 => exact (Text.readInt64?_eq_some_iff (by decide)).mpr ⟨integer, range⟩
    | hexadecimal marks integer =>
      have read := (Text.readInt64?_eq_some_iff (by decide)).mpr ⟨integer, range⟩
      simp only [List.mem_cons, List.not_mem_nil, or_false] at marks
      rcases marks with rfl | rfl <;> exact read

/-- A decimal literal has no mark. -/
theorem not_signed_mark {mark digits : List Char} (marks : mark ∈ [['0', 'x'], ['0', 'X']]) :
    ¬ Text.Signed 10 (mark ++ digits) number := by
  intro integer
  have lower : 'x' ∉ mark ++ digits := notMem_of_signed integer rfl (by decide) (by decide)
  have upper : 'X' ∉ mark ++ digits := notMem_of_signed integer rfl (by decide) (by decide)
  simp only [List.mem_cons, List.not_mem_nil, or_false] at marks
  rcases marks with rfl | rfl
  · simp at lower
  · simp at upper

/-- A word denotes one integer at most. -/
theorem Literal.unique {other : Int} (literal : Literal word number)
    (literal' : Literal word other) : number = other := by
  cases literal with
  | decimal integer =>
    generalize same : word = text at literal'
    cases literal' with
    | decimal integer' => exact (same ▸ integer).unique (by decide) integer'
    | hexadecimal marks' _ => exact absurd (same ▸ integer) (not_signed_mark marks')
  | @hexadecimal mark digits _ marks integer =>
    generalize same : mark ++ digits = text at literal'
    cases literal' with
    | decimal integer' => exact absurd (same ▸ integer') (not_signed_mark marks)
    | @hexadecimal mark' digits' _ marks' integer' =>
      have length : ∀ mark ∈ [['0', 'x'], ['0', 'X']], mark.length = 2 := by decide
      have count : mark.length = mark'.length := (length mark marks).trans (length mark' marks').symm
      obtain ⟨-, rfl⟩ := List.append_inj same count
      exact integer.unique (by decide) integer'

/-! ## Nibbles -/

/-- The nibble of an integer is made of its low four bits in two's complement. -/
theorem bit_ofInt (number : Int) {i : Nat} (low : i < 4) :
    (Nibble.ofInt number).bit i = (BitVec.ofInt 64 number).getLsbD i := by
  have nibble : (Nibble.ofInt number).val = (BitVec.ofInt 64 number).toNat % 2 ^ 4 := by
    show (number % 16).toNat = _
    rw [BitVec.toNat_ofInt]
    omega
  rw [Nibble.bit, nibble, Nat.testBit_mod_two_pow, decide_eq_true low, Bool.true_and]
  rfl

theorem readLiteral?_eq_some_iff {nibble : Nibble} : readLiteral? word = some nibble ↔
    ∃ number, Literal word number ∧ Text.IsInt64 number ∧ Nibble.ofInt number = nibble := by
  simp only [readLiteral?, Option.map_eq_some_iff, readInteger?_eq_some_iff, and_assoc]

theorem readLiteral?_eq_none_iff : readLiteral? word = none ↔
    ∀ number, Literal word number → ¬ Text.IsInt64 number := by
  rw [readLiteral?, Option.map_eq_none_iff, Option.eq_none_iff_forall_ne_some]
  simp only [ne_eq, readInteger?_eq_some_iff, not_and]

/-! ## Words that look like literals -/

/-- What can stand in front of the digits of a literal, before the sign. -/
def marks : List (List Char) := [[], ['0', 'x'], ['0', 'X']]

/-- The signs that the digits of a literal can have. -/
def signs : List (List Char) := [[], ['+'], ['-']]

/-- A word that looks like a literal. -/
inductive Misspelt : List Char → Prop
  /-- There are no digits. -/
  | bare {mark sign : List Char} (known : mark ∈ marks) (known' : sign ∈ signs) :
    Misspelt (mark ++ sign)
  /-- A sign stands neither in front nor directly behind a mark. -/
  | sign {before after : List Char} {c : Char} (sign : c ∈ ['+', '-']) (place : before ∉ marks) :
    Misspelt (before ++ c :: after)
  /-- The letter of a mark stands elsewhere than behind a zero in front. -/
  | mark {before after : List Char} {c : Char} (letter : c ∈ ['x', 'X']) (place : before ≠ ['0']) :
    Misspelt (before ++ c :: after)
  /-- There is another character, which is no digit of ASCII. -/
  | other {word : List Char} {c : Char} (mem : c ∈ word) (plain : c ∉ ['+', '-', 'x', 'X'])
    (digit : ∀ value, ¬ Text.IsDigit 16 c value) : Misspelt word

/-- The parts of a literal: a mark, a sign and digits. -/
theorem Literal.exists_parts (literal : Literal word number) :
    ∃ mark ∈ marks, ∃ sign ∈ signs, ∃ digits, word = mark ++ sign ++ digits ∧ digits ≠ [] ∧
      ∀ c ∈ digits, ∃ value, Text.IsDigit 16 c value := by
  cases literal with
  | decimal integer =>
    obtain ⟨sign, known, digits, n, rfl, numeral⟩ := integer.exists_numeral
    refine ⟨[], by simp [marks], sign, known, digits, rfl, numeral.ne_nil, fun c mem => ?_⟩
    obtain ⟨value, small, shape⟩ := numeral.exists_isDigit c mem
    exact ⟨value, by omega, shape⟩
  | @hexadecimal mark _ _ known integer =>
    obtain ⟨sign, known', digits, n, rfl, numeral⟩ := integer.exists_numeral
    exact ⟨mark, List.mem_cons_of_mem _ known, sign, known', digits, (List.append_assoc ..).symm,
      numeral.ne_nil, numeral.exists_isDigit⟩

/-- A character that is not in the second part of a text stands in the first. -/
theorem exists_of_notMem {first second before after : List Char} {c : Char}
    (split : before ++ c :: after = first ++ second) (notMem : c ∉ second) :
    ∃ rest, first = before ++ c :: rest := by
  rcases List.append_eq_append_iff.mp split with ⟨rest, rfl, tail⟩ | ⟨rest, rfl, rfl⟩
  · cases rest with
    | nil =>
      obtain rfl : c :: after = second := tail
      exact absurd List.mem_cons_self notMem
    | cons d rest =>
      obtain ⟨rfl, -⟩ := List.cons.inj tail
      exact ⟨rest, rfl⟩
  · simp at notMem

/-- Where the characters of a mark and a sign stand. -/
theorem place_of_front {mark sign before rest : List Char} {c : Char} (known : mark ∈ marks)
    (known' : sign ∈ signs) (front : mark ++ sign = before ++ c :: rest) :
    (c ∈ ['+', '-'] → before ∈ marks) ∧ (c ∈ ['x', 'X'] → before = ['0']) := by
  have places : ∀ mark ∈ marks, ∀ sign ∈ signs, ∀ k (inside : k < (mark ++ sign).length),
      ((mark ++ sign)[k] ∈ ['+', '-'] → (mark ++ sign).take k ∈ marks) ∧
        ((mark ++ sign)[k] ∈ ['x', 'X'] → (mark ++ sign).take k = ['0']) := by decide
  have place := places mark known sign known' before.length
  simp only [front, List.take_left] at place
  simpa using place

/-- A word that looks like a literal denotes no integer. -/
theorem Misspelt.not_literal (misspelt : Misspelt word) : ¬ Literal word number := by
  intro literal
  obtain ⟨mark, known, sign, known', digits, split, ne, all⟩ := literal.exists_parts
  have plain {c : Char} (other : Text.digitValue? 16 c = none) : c ∉ digits := by
    intro mem
    obtain ⟨value, digit⟩ := all c mem
    rw [(Text.digitValue?_eq_some_iff (by decide)).mpr digit] at other
    cases other
  have unread : ∀ c ∈ ['+', '-', 'x', 'X'], Text.digitValue? 16 c = none := by
    simp only [List.forall_mem_cons]
    exact ⟨rfl, rfl, rfl, rfl, List.forall_mem_nil _⟩
  cases misspelt with
  | @bare mark' sign' knownMark knownSign =>
    -- the word would end with a digit
    have last : ∀ mark ∈ marks, ∀ sign ∈ signs,
        (mark ++ sign).getLast?.bind (Text.digitValue? 16) = none := by decide
    have other := last mark' knownMark sign' knownSign
    rw [split, List.getLast?_append_of_ne_nil _ ne, List.getLast?_eq_getLast_of_ne_nil ne] at other
    exact plain other (List.getLast_mem ne)
  | @sign before after c isSign place =>
    have mem : c ∈ ['+', '-', 'x', 'X'] := List.mem_append_left ['x', 'X'] isSign
    obtain ⟨rest, front⟩ := exists_of_notMem split (plain (unread c mem))
    exact place ((place_of_front known known' front).1 isSign)
  | @mark before after c letter place =>
    have mem : c ∈ ['+', '-', 'x', 'X'] := List.mem_append_right ['+', '-'] letter
    obtain ⟨rest, front⟩ := exists_of_notMem split (plain (unread c mem))
    exact place ((place_of_front known known' front).2 letter)
  | @other _ c mem others digit =>
    have front : ∀ mark ∈ marks, ∀ sign ∈ signs,
        (mark ++ sign).all (· ∈ ['+', '-', 'x', 'X', '0']) = true := by decide
    rw [split] at mem
    rcases List.mem_append.mp mem with mem | mem
    · have inFront := List.all_eq_true.mp (front mark known sign known') c mem
      have shape : ['+', '-', 'x', 'X', '0'] = ['+', '-', 'x', 'X'] ++ ['0'] := rfl
      rw [decide_eq_true_eq, shape, List.mem_append, List.mem_singleton] at inFront
      rcases inFront with mark | rfl
      · exact others mark
      · exact digit 0 ⟨by decide, .inl rfl⟩
    · obtain ⟨value, isDigit⟩ := all c mem
      exact digit value isDigit

/-! ## The main result -/

/-- **Which words are literals, and for what they stand.** A word has a nibble just if it is a
decimal number with an optional sign, or a hexadecimal one with an optional sign behind a mark, and
the number is an integer of 64 bits with a sign. The nibble is then that number modulo sixteen,
which is also made of its low four bits in two's complement. Any other word has none: one without
digits, with a sign or the letter of a mark out of place, with punctuation or a digit that is not of
ASCII. -/
theorem literal_grammar (word : List Char) :
    (∀ nibble, readLiteral? word = some nibble ↔
        ∃ number, Literal word number ∧ -2 ^ 63 ≤ number ∧ number < 2 ^ 63 ∧
          (nibble.val : Int) = number % 16) ∧
      (∀ number, Literal word number →
        ((∃ nibble, readLiteral? word = some nibble) ↔ -2 ^ 63 ≤ number ∧ number < 2 ^ 63) ∧
        ∀ nibble, readLiteral? word = some nibble →
          ∀ i < 4, nibble.bit i = (BitVec.ofInt 64 number).getLsbD i) ∧
      ((∀ number, Literal word number → ¬ (-2 ^ 63 ≤ number ∧ number < 2 ^ 63)) →
        readLiteral? word = none) ∧
      (Misspelt word → readLiteral? word = none) := by
  have nibble (number : Int) (nibble : Nibble) :
      Nibble.ofInt number = nibble ↔ (nibble.val : Int) = number % 16 := by
    rw [← Nibble.val_ofInt, Int.natCast_inj, Fin.val_inj, eq_comm]
  refine ⟨fun result => ?_, fun number literal => ⟨?_, fun result read i low => ?_⟩,
    readLiteral?_eq_none_iff.mpr, fun misspelt => ?_⟩
  · simp only [readLiteral?_eq_some_iff, Text.IsInt64, nibble, and_assoc]
  · constructor
    · rintro ⟨result, read⟩
      obtain ⟨other, literal', range, -⟩ := readLiteral?_eq_some_iff.mp read
      rwa [literal.unique literal']
    · exact fun range => ⟨_, readLiteral?_eq_some_iff.mpr ⟨number, literal, range, rfl⟩⟩
  · obtain ⟨other, literal', -, rfl⟩ := readLiteral?_eq_some_iff.mp read
    rw [← literal.unique literal']
    exact bit_ofInt number low
  · exact readLiteral?_eq_none_iff.mpr fun number literal => absurd literal misspelt.not_literal

/-- A hexadecimal literal with a sign and leading zeros, a number just beyond 64 bits, and a sign in
front of a mark. -/
theorem literal_grammar_limits :
    (Literal "0X-00f".toList (-15) ∧ readLiteral? "0X-00f".toList = some 1 ∧
        ∀ i < 4, (1 : Nibble).bit i = (BitVec.ofInt 64 (-15)).getLsbD i) ∧
      (Literal "+9223372036854775808".toList (2 ^ 63) ∧
        readLiteral? "+9223372036854775808".toList = none) ∧
      Misspelt "-0x1".toList ∧ readLiteral? "-0x1".toList = none := by
  have short : Literal "0X-00f".toList (-15) := (readInteger?_eq_some_iff.mp (by decide)).1
  have long : Literal "+9223372036854775808".toList (2 ^ 63) :=
    .decimal ((Text.readSigned?_eq_some_iff (by decide)).mp (by decide))
  have misspelt : Misspelt "-0x1".toList :=
    @Misspelt.mark ['-', '0'] ['1'] 'x' (by decide) (by decide)
  obtain ⟨nibbles, bits, -, -⟩ := literal_grammar "0X-00f".toList
  have read : readLiteral? "0X-00f".toList = some 1 :=
    (nibbles 1).mpr ⟨-15, short, by decide, by decide, by decide⟩
  obtain ⟨-, -, refuses, -⟩ := literal_grammar "+9223372036854775808".toList
  obtain ⟨-, -, -, refuses'⟩ := literal_grammar "-0x1".toList
  refine ⟨⟨short, read, (bits (-15) short).2 1 read⟩, ⟨long, refuses fun number literal => ?_⟩,
    misspelt, refuses' misspelt⟩
  rw [literal.unique long]
  decide

end NibbleComputer.Assembly
