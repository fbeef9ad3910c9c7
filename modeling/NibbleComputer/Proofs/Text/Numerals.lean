import Mathlib.Algebra.Ring.Int.Defs
import Mathlib.Data.List.Basic
import Mathlib.Data.List.Induction
import NibbleComputer.Text.Numeral

/-!
# Numerals

- `Text.notMem_decimal`: a decimal numeral consists of digits.
- `Text.decimal_inj`: numbers with the same decimal numeral are equal.
- `Text.head?_toDigits`: a decimal numeral does not begin with a zero, except that of zero.
- `Text.Numeral`: the digits of a numeral and the number that they denote.
- `Text.readDigits?_eq_some_iff`, `Text.readUnsigned?_eq_some_iff`: numerals are what is read as a
  number.
- `Text.Signed`, `Text.readSigned?_eq_some_iff`, `Text.readInt64?_eq_some_iff`: the same with a sign.
- `Text.numeral_hexadecimal`, `Text.readDigits?_toDigits`: what is written is a numeral of the
  number.
-/

namespace NibbleComputer.Text

/-! ## Decimal numerals -/

/-- A decimal numeral consists of digits. -/
theorem notMem_decimal {mark : Char} (h : mark.isDigit = false) (n : Nat) :
    mark ∉ (decimal n).toList := by
  intro mem
  rw [decimal, String.toList_ofList] at mem
  have digit : mark.isDigit = true := Nat.isDigit_of_mem_toDigits (by decide) (by decide) mem
  rw [h] at digit
  cases digit

/-- Numbers with the same decimal numeral are equal. -/
theorem decimal_inj {m n : Nat} (h : decimal m = decimal n) : m = n := by
  have digits : Nat.toDigits 10 m = Nat.toDigits 10 n := String.ofList_injective h
  rw [← Nat.ofDigitChars_ten_toDigits (n := m), digits, Nat.ofDigitChars_ten_toDigits]

/-- The numeral of a number other than zero does not begin with a zero. -/
theorem head?_toDigits {n : Nat} (positive : 0 < n) : (Nat.toDigits 10 n).head? ≠ some '0' := by
  induction n using Nat.strongRecOn with
  | ind n ih =>
    by_cases small : n < 10
    · have digit : ∀ n < 10, 0 < n → (Nat.toDigits 10 n).head? ≠ some '0' := by decide
      exact digit n small positive
    · rw [Nat.toDigits_of_base_le (by decide) (Nat.le_of_not_lt small),
        List.head?_append_of_ne_nil _ Nat.toDigits_ne_nil]
      exact ih (n / 10) (Nat.div_lt_self positive (by decide)) (by omega)

/-! ## The grammar of numerals -/

/-- A digit of a base with its value; letters of either case stand for ten and above. -/
def IsDigit (base : Nat) (c : Char) (value : Nat) : Prop :=
  value < base ∧ (c = Nat.digitChar value ∨ c = (Nat.digitChar value).toUpper)

/-- A nonempty run of digits, the most significant first, with the number that it denotes. -/
inductive Numeral (base : Nat) : List Char → Nat → Prop
  | digit {c : Char} {value : Nat} (last : IsDigit base c value) : Numeral base [c] value
  | snoc {digits : List Char} {n : Nat} {c : Char} {value : Nat} (front : Numeral base digits n)
      (last : IsDigit base c value) : Numeral base (digits ++ [c]) (base * n + value)

variable {base n value : Nat} {c : Char} {digits : List Char}

theorem Numeral.ne_nil (numeral : Numeral base digits n) : digits ≠ [] := by
  cases numeral <;> simp

/-- The digits are those that the reader of digits knows. -/
theorem digitValue?_eq_some_iff (small : base ≤ 16) :
    digitValue? base c = some value ↔ IsDigit base c value := by
  constructor
  · intro read
    obtain ⟨found, below⟩ := Option.filter_eq_some_iff.mp read
    refine ⟨of_decide_eq_true below, ?_⟩
    have decimal : ∀ v < 10, Char.ofNat (48 + v) = Nat.digitChar v := by decide
    have letter : ∀ v < 6, Char.ofNat (97 + v) = Nat.digitChar (v + 10) ∧
        Char.ofNat (65 + v) = (Nat.digitChar (v + 10)).toUpper := by decide
    -- a character is as far behind the first of its range as its value says
    have shift {first : Nat} (le : first ≤ c.toNat) :
        c = Char.ofNat (first + (c.toNat - first)) := by
      rw [Nat.add_sub_cancel' le, Char.ofNat_toNat]
    by_cases range : '0' ≤ c ∧ c ≤ '9'
    · obtain rfl := Option.some.inj ((if_pos range).symm.trans found)
      have low : 48 ≤ c.toNat := Char.le_def.mp range.1
      have high : c.toNat ≤ 57 := Char.le_def.mp range.2
      exact .inl ((shift low).trans (decimal _ (by omega)))
    · rw [if_neg range] at found
      by_cases range : 'a' ≤ c ∧ c ≤ 'f'
      · obtain rfl := Option.some.inj ((if_pos range).symm.trans found)
        have low : 97 ≤ c.toNat := Char.le_def.mp range.1
        have high : c.toNat ≤ 102 := Char.le_def.mp range.2
        exact .inl ((shift low).trans (letter _ (by omega)).1)
      · rw [if_neg range] at found
        by_cases range : 'A' ≤ c ∧ c ≤ 'F'
        · obtain rfl := Option.some.inj ((if_pos range).symm.trans found)
          have low : 65 ≤ c.toNat := Char.le_def.mp range.1
          have high : c.toNat ≤ 70 := Char.le_def.mp range.2
          exact .inr ((shift low).trans (letter _ (by omega)).2)
        · rw [if_neg range] at found
          cases found
  · rintro ⟨below, shape⟩
    have known : ∀ v < 16, digitValue? 16 (Nat.digitChar v) = some v ∧
        digitValue? 16 (Nat.digitChar v).toUpper = some v := by decide
    obtain ⟨lower, upper⟩ := known value (Nat.lt_of_lt_of_le below small)
    have hexadecimal : digitValue? 16 c = some value := by
      rcases shape with rfl | rfl
      · exact lower
      · exact upper
    exact Option.filter_eq_some_iff.mpr
      ⟨(Option.filter_eq_some_iff.mp hexadecimal).1, decide_eq_true below⟩

/-- The last digit of a run counts once, and what the others denote as often as the base says. -/
theorem readDigits?_snoc (nonempty : digits ≠ []) : readDigits? base (digits ++ [c]) =
    (readDigits? base digits).bind fun n => (digitValue? base c).map (base * n + ·) := by
  rw [readDigits?, readDigits?, if_neg (by simp), if_neg (by simpa using nonempty),
    List.mapM_append, List.mapM_cons, List.mapM_nil]
  cases digits.mapM (digitValue? base) with
  | none => rfl
  | some values =>
    cases digitValue? base c with
    | none => rfl
    | some value => simp [ofDigitValues]

theorem readDigits?_singleton : readDigits? base [c] = digitValue? base c := by
  rw [readDigits?, if_neg (by simp), List.mapM_cons, List.mapM_nil]
  cases digitValue? base c with
  | none => rfl
  | some value => simp [ofDigitValues]

/-- What is read as a number is a numeral of it. -/
theorem readDigits?_eq_some_iff (small : base ≤ 16) :
    readDigits? base digits = some n ↔ Numeral base digits n := by
  constructor
  · intro read
    induction digits using List.reverseRecOn generalizing n with
    | nil => cases read
    | append_singleton digits c ih =>
      by_cases empty : digits = []
      · rw [empty, List.nil_append, readDigits?_singleton] at read
        rw [empty]
        exact .digit ((digitValue?_eq_some_iff small).mp read)
      · rw [readDigits?_snoc empty] at read
        obtain ⟨front, before, last⟩ := Option.bind_eq_some_iff.mp read
        obtain ⟨value, digit, rfl⟩ := Option.map_eq_some_iff.mp last
        exact .snoc (ih before) ((digitValue?_eq_some_iff small).mp digit)
  · intro numeral
    induction numeral with
    | digit last => rw [readDigits?_singleton, (digitValue?_eq_some_iff small).mpr last]
    | snoc front last ih =>
      rw [readDigits?_snoc front.ne_nil, ih, (digitValue?_eq_some_iff small).mpr last]
      rfl

/-- A numeral consists of digits. -/
theorem Numeral.exists_isDigit (numeral : Numeral base digits n) :
    ∀ c ∈ digits, ∃ value, IsDigit base c value := by
  induction numeral with
  | @digit c value last => exact List.forall_mem_singleton.mpr ⟨value, last⟩
  | @snoc digits n c value front last ih =>
    exact List.forall_mem_append.mpr ⟨ih, List.forall_mem_singleton.mpr ⟨value, last⟩⟩

/-- What is no digit does not occur in a numeral. -/
theorem Numeral.notMem {mark : Char} (small : base ≤ 16) (other : digitValue? base mark = none)
    (numeral : Numeral base digits n) : mark ∉ digits := by
  intro mem
  obtain ⟨value, digit⟩ := numeral.exists_isDigit mark mem
  rw [(digitValue?_eq_some_iff small).mpr digit] at other
  cases other

/-- What is read as an unsigned number is a numeral of it, with an optional plus sign. -/
theorem readUnsigned?_eq_some_iff (small : base ≤ 16) {text : List Char} :
    readUnsigned? base text = some n ↔
      ∃ sign ∈ [[], ['+']], ∃ digits, text = sign ++ digits ∧ Numeral base digits n := by
  constructor
  · intro read
    unfold readUnsigned? at read
    split at read
    case h_1 digits => exact ⟨['+'], by simp, digits, rfl, (readDigits?_eq_some_iff small).mp read⟩
    case h_2 => exact ⟨[], by simp, text, rfl, (readDigits?_eq_some_iff small).mp read⟩
  · rintro ⟨sign, mem, digits, rfl, numeral⟩
    have read := (readDigits?_eq_some_iff small).mpr numeral
    rcases List.mem_cons.mp mem with rfl | mem
    · have plain : '+' ∉ digits := numeral.notMem small rfl
      unfold readUnsigned?
      split
      case h_1 rest starts =>
        rw [show digits = '+' :: rest from starts] at plain
        exact absurd List.mem_cons_self plain
      case h_2 => exact read
    · rw [List.mem_singleton.mp mem]
      exact read

/-- An integer: digits behind at most one sign. -/
inductive Signed (base : Nat) : List Char → Int → Prop
  | plain {digits : List Char} {n : Nat} (numeral : Numeral base digits n) : Signed base digits n
  | plus {digits : List Char} {n : Nat} (numeral : Numeral base digits n) :
    Signed base ('+' :: digits) n
  | minus {digits : List Char} {n : Nat} (numeral : Numeral base digits n) :
    Signed base ('-' :: digits) (-n)

/-- What is read as a signed number is an integer of the grammar. -/
theorem readSigned?_eq_some_iff (small : base ≤ 16) {text : List Char} {i : Int} :
    readSigned? base text = some i ↔ Signed base text i := by
  constructor
  · intro read
    unfold readSigned? at read
    split at read <;> obtain ⟨n, digits, rfl⟩ := Option.map_eq_some_iff.mp read
    · exact .plus ((readDigits?_eq_some_iff small).mp digits)
    · exact .minus ((readDigits?_eq_some_iff small).mp digits)
    · exact .plain ((readDigits?_eq_some_iff small).mp digits)
  · intro integer
    cases integer with
    | @plain _ n numeral =>
      have read := (readDigits?_eq_some_iff small).mpr numeral
      -- no numeral begins with a sign
      have plus : '+' ∉ text := numeral.notMem small rfl
      have minus : '-' ∉ text := numeral.notMem small rfl
      unfold readSigned?
      split
      case h_1 => exact absurd List.mem_cons_self plus
      case h_2 => exact absurd List.mem_cons_self minus
      case h_3 => rw [read]; rfl
    | plus numeral =>
      show (readDigits? base _).map Int.ofNat = _
      rw [(readDigits?_eq_some_iff small).mpr numeral]
      rfl
    | minus numeral =>
      show (readDigits? base _).map (fun n => -Int.ofNat n) = _
      rw [(readDigits?_eq_some_iff small).mpr numeral]
      rfl

theorem Signed.unique {text : List Char} {i j : Int} (small : base ≤ 16)
    (integer : Signed base text i) (integer' : Signed base text j) : i = j := by
  rw [← readSigned?_eq_some_iff small] at integer integer'
  exact Option.some.inj (integer.symm.trans integer')

theorem Signed.exists_numeral {text : List Char} {i : Int} (integer : Signed base text i) :
    ∃ sign ∈ [[], ['+'], ['-']], ∃ digits n, text = sign ++ digits ∧ Numeral base digits n := by
  cases integer with
  | plain numeral => exact ⟨[], by simp, _, _, rfl, numeral⟩
  | plus numeral => exact ⟨['+'], by simp, _, _, rfl, numeral⟩
  | minus numeral => exact ⟨['-'], by simp, _, _, rfl, numeral⟩

/-- The integers of 64 bits with a sign. -/
def IsInt64 (i : Int) : Prop :=
  -2 ^ 63 ≤ i ∧ i < 2 ^ 63

/-- What is read as a signed 64-bit number is one that the grammar has. -/
theorem readInt64?_eq_some_iff (small : base ≤ 16) {text : List Char} {i : Int} :
    readInt64? base text = some i ↔ Signed base text i ∧ IsInt64 i := by
  have bounds : (Int64.minValue.toInt ≤ i && i ≤ Int64.maxValue.toInt) = true ↔ IsInt64 i := by
    rw [Bool.and_eq_true, decide_eq_true_iff, decide_eq_true_iff]
    exact and_congr_right fun _ => Int.lt_add_one_iff.symm
  rw [readInt64?, Option.filter_eq_some_iff, readSigned?_eq_some_iff small, bounds]

/-- The shortest numeral of a number, in digits of either case. -/
theorem numeral_toDigits {f : Char → Char} (case : ∀ c, f c = c ∨ f c = c.toUpper)
    (large : 1 < base) (n : Nat) : Numeral base ((Nat.toDigits base n).map f) n := by
  induction n using Nat.strongRecOn with
  | ind n ih =>
    by_cases one : n < base
    · rw [Nat.toDigits_of_lt_base one]
      exact .digit ⟨one, case _⟩
    · have rest := ih (n / base) (Nat.div_lt_self (by omega) large)
      rw [Nat.toDigits_of_base_le large (Nat.le_of_not_lt one), List.map_append]
      have sum := Numeral.snoc rest (c := f (Nat.digitChar (n % base)))
        ⟨Nat.mod_lt n (by omega), case _⟩
      rwa [Nat.div_add_mod] at sum

/-- The hexadecimal numeral of a number denotes it. -/
theorem numeral_hexadecimal (n : Nat) : Numeral 16 (hexadecimal n).toList n := by
  rw [hexadecimal, String.toList_ofList]
  exact numeral_toDigits (fun _ => .inr rfl) (by decide) n

/-- Numbers with the same hexadecimal numeral are equal. -/
theorem hexadecimal_inj {m n : Nat} (h : hexadecimal m = hexadecimal n) : m = n := by
  have first := (readDigits?_eq_some_iff (by decide)).mpr (numeral_hexadecimal m)
  have second := (readDigits?_eq_some_iff (by decide)).mpr (numeral_hexadecimal n)
  rw [h] at first
  exact Option.some.inj (first.symm.trans second)

/-- A decimal numeral denotes its number. -/
theorem readDigits?_toDigits (n : Nat) : readDigits? 10 (Nat.toDigits 10 n) = some n := by
  have numeral : Numeral 10 ((Nat.toDigits 10 n).map id) n :=
    numeral_toDigits (fun _ => .inl rfl) (by decide) n
  rw [List.map_id] at numeral
  exact (readDigits?_eq_some_iff (by decide)).mpr numeral

end NibbleComputer.Text
