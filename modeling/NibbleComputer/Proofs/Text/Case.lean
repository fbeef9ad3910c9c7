import NibbleComputer.Proofs.Text.Words
import NibbleComputer.Text.Numeral
import NibbleComputer.Text.Uppercase

/-!
# Letters of either case

Two texts that differ at most in the case of ASCII letters have the same lower case. So whatever
reads a text without regard to case reads its lower case alike, and this module says so for the
readers of words and numerals.

- `Text.lower`: the lower case of a text, `Text.sameIgnoringCase_iff` what it is for.
- `Text.comp_toLower`: what does not tell the capitals from their small letters.
- `Text.upper_lower`, `Text.words_lower`: upper case and words.
- `Text.readInt64?_lower`: numerals.
-/

namespace NibbleComputer.Text

/-- A text with its ASCII letters in lower case. -/
def lower (text : List Char) : List Char :=
  text.map Char.toLower

theorem sameIgnoringCase_iff {s t : List Char} : sameIgnoringCase s t = true ↔ lower s = lower t :=
  beq_iff_eq

@[simp] theorem lower_cons (c : Char) (text : List Char) :
    lower (c :: text) = c.toLower :: lower text := rfl

@[simp] theorem lower_append (s t : List Char) : lower (s ++ t) = lower s ++ lower t :=
  List.map_append

/-! ## Single characters -/

/-- The capitals, counted from zero. -/
def capital (n : Nat) : Char :=
  Char.ofNat (65 + n)

/-- Only capitals change in lower case. -/
theorem toLower_eq_or_capital (c : Char) : c.toLower = c ∨ ∃ n < 26, c = capital n := by
  by_cases range : 65 ≤ c.toNat ∧ c.toNat ≤ 90
  · right
    refine ⟨c.toNat - 65, by omega, ?_⟩
    rw [capital, Nat.add_sub_cancel' range.1, Char.ofNat_toNat]
  · left
    exact dif_neg range

/-- What does not tell the capitals from their small letters does not tell a character from its
lower case. -/
theorem comp_toLower {α : Type} {f : Char → α}
    (letters : ∀ n < 26, f (capital n).toLower = f (capital n)) (c : Char) :
    f c.toLower = f c := by
  rcases toLower_eq_or_capital c with same | ⟨n, range, rfl⟩
  · rw [same]
  · exact letters n range

/-- A character that is no capital and the lower case of none is the lower case of itself only. -/
theorem toLower_eq_iff {mark : Char}
    (letters : ∀ n < 26, (capital n).toLower ≠ mark ∧ capital n ≠ mark) {c : Char} :
    c.toLower = mark ↔ c = mark := by
  rcases toLower_eq_or_capital c with same | ⟨n, range, rfl⟩
  · rw [same]
  · exact iff_of_false (letters n range).1 (letters n range).2

/-! ## Case and blanks -/

theorem lower_lower (text : List Char) : lower (lower text) = lower text := by
  rw [lower, lower, List.map_map]
  exact List.map_congr_left fun c _ => comp_toLower (by decide) c

theorem upperChar_toLower (c : Char) : upperChar c.toLower = upperChar c :=
  comp_toLower (by decide) c

/-- Upper-casing forgets the case that there was. -/
theorem upper_lower (text : List Char) : upper (lower text) = upper text := by
  induction text with
  | nil => rfl
  | cons c text ih => rw [lower_cons, upper_cons, upper_cons, ih, upperChar_toLower]

theorem isBlank_toLower (c : Char) : isBlank c.toLower = isBlank c :=
  comp_toLower (by decide) c

theorem pieces_lower (text : List Char) :
    pieces isBlank (lower text) = (pieces isBlank text).map lower := by
  induction text with
  | nil => rfl
  | cons c text ih =>
    rw [lower_cons, pieces, pieces, isBlank_toLower, ih]
    split
    · rfl
    · cases pieces isBlank text <;> rfl

theorem words_lower (text : List Char) : words (lower text) = (words text).map lower := by
  rw [words, pieces_lower, words, List.filter_map]
  congr 2
  funext piece
  cases piece <;> rfl

/-! ## Numerals -/

theorem digitValue?_toLower (base : Nat) (c : Char) :
    digitValue? base c.toLower = digitValue? base c := by
  refine comp_toLower (fun n range => ?_) c
  refine congrArg (Option.filter (· < base)) ?_
  revert n
  decide

theorem readDigits?_lower (base : Nat) (digits : List Char) :
    readDigits? base (lower digits) = readDigits? base digits := by
  have values : (lower digits).mapM (digitValue? base) = digits.mapM (digitValue? base) := by
    induction digits with
    | nil => rfl
    | cons c digits ih => rw [lower_cons, List.mapM_cons, List.mapM_cons, digitValue?_toLower, ih]
  unfold readDigits?
  rw [values, lower, List.isEmpty_map]

/-- A sign has no case, and so what follows it is read alike. -/
theorem readSigned?_lower (base : Nat) (text : List Char) :
    readSigned? base (lower text) = readSigned? base text := by
  cases text with
  | nil => rfl
  | cons c digits =>
    by_cases plus : c = '+'
    · subst plus
      exact congrArg (Option.map Int.ofNat) (readDigits?_lower base digits)
    by_cases minus : c = '-'
    · subst minus
      exact congrArg (Option.map fun n : Nat => -Int.ofNat n) (readDigits?_lower base digits)
    -- no letter turns into a sign, so both texts are read as digits
    have plus' : c.toLower ≠ '+' := (toLower_eq_iff (by decide)).not.mpr plus
    have minus' : c.toLower ≠ '-' := (toLower_eq_iff (by decide)).not.mpr minus
    rw [lower_cons, readSigned?, readSigned?, ← lower_cons, readDigits?_lower]
    all_goals simp [plus, minus, plus', minus']

theorem readInt64?_lower (base : Nat) (text : List Char) :
    readInt64? base (lower text) = readInt64? base text := by
  rw [readInt64?, readSigned?_lower, readInt64?]

end NibbleComputer.Text
