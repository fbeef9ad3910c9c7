import Mathlib.Data.List.TakeWhile
import NibbleComputer.Json.Reader
import NibbleComputer.Json.Writer
import NibbleComputer.Proofs.Text.Numerals

/-!
# Reading what has been written

A value is read back from its text in either style. The reader does not know the style: it skips
white space in front of everything. What stands behind a value matters to it only where the value is
a number, which other characters could prolong.

- `Json.readString_flatMap_escape`: a text in quotes.
- `Json.readNumber?_integer`: an integer.
- `Json.Readable`: the values whose numerals are read as they are.
- `Json.readItems_writeItems`, `Json.readMembers_writeMembers`: lists and objects whose items are
  read back.
- `Json.readsBack`: a value in front of other text.
- `Json.parse?_write`: a value alone.
-/

namespace NibbleComputer.Json

/-! ## White space -/

theorem skipSpace_cons {c : Char} (solid : isSpace c = false) (rest : List Char) :
    skipSpace (c :: rest) = c :: rest :=
  List.dropWhile_cons_of_neg (by simp [solid])

/-- What separates items is white space. -/
@[simp] theorem skipSpace_gap (style : Style) (depth : Nat) (rest : List Char) :
    skipSpace (style.gap depth ++ rest) = skipSpace rest := by
  have blank : ∀ c ∈ style.gap depth, isSpace c = true := by
    cases style with
    | compact => intro c mem; cases mem
    | pretty =>
      intro c mem
      rcases List.mem_cons.mp mem with rfl | mem
      · rfl
      · rw [List.eq_of_mem_replicate mem]
        rfl
  exact List.dropWhile_append_of_pos blank

variable {style : Style} {depth steps : Nat} {text rest after : List Char}

theorem readValue_gap : readValue steps (style.gap depth ++ text) = readValue steps text := by
  cases steps with
  | zero => rfl
  | succ steps => rw [readValue, readValue, skipSpace_gap]

theorem readItems_gap : readItems steps (style.gap depth ++ text) = readItems steps text := by
  cases steps with
  | zero => rfl
  | succ steps => rw [readItems, readItems, readValue_gap]

theorem readMembers_gap : readMembers steps (style.gap depth ++ text) = readMembers steps text := by
  cases steps with
  | zero => rfl
  | succ steps => rw [readMembers, readMembers, skipSpace_gap]

/-! ## Texts in quotes -/

@[simp] theorem prepend?_some {α : Type} (item : α) (items : List α) (rest : List Char) :
    prepend? (some item) (some items, rest) = (some (item :: items), rest) := rfl

/-- The code of a control character, as it is written. -/
theorem codeUnit?_control {c : Char} (control : c.toNat < 0x20) :
    codeUnit? '0' '0' (lowerHexDigit (c.toNat / 16)) (lowerHexDigit c.toNat) = some c.toNat := by
  have code : ∀ n < 0x20,
      codeUnit? '0' '0' (lowerHexDigit (n / 16)) (lowerHexDigit n) = some n := by decide
  exact code c.toNat control

/-- A character is read back, escaped or not. -/
theorem readString_escape (c : Char) (rest : List Char) :
    readString (escape c ++ rest) = (readString rest).map (prepend? (some c)) := by
  unfold escape
  split_ifs with quote slash plain newline ret tab back feed
  · subst quote
    rfl
  · subst slash
    rfl
  · have kept : (c.toNat < 0x20 || c == '\\') = false := by
      simp [slash, Nat.not_lt_of_le plain]
    rw [List.singleton_append, readString, kept]
    · rfl
    -- neither a quote nor the first character of an escape
    · exact quote
    · rintro a b c d rest rfl
      exact absurd rfl slash
    · rintro d rest rfl
      exact absurd rfl slash
  · subst newline
    rfl
  · subst ret
    rfl
  · subst tab
    rfl
  · subst back
    rfl
  · subst feed
    rfl
  · have control : c.toNat < 0x20 := Nat.lt_of_not_le plain
    rw [List.cons_append, List.cons_append, List.cons_append, List.cons_append, List.cons_append,
      List.cons_append, List.nil_append, readString, codeUnit?_control control]
    have first : ¬ 0xD800 ≤ c.toNat := by omega
    have second : ¬ 0xDC00 ≤ c.toNat := by omega
    simp [first, second, isLow, Char.ofNat_toNat]

/-- A text is read back up to the closing quote. -/
theorem readString_flatMap_escape (text rest : List Char) :
    readString (text.flatMap escape ++ '"' :: rest) = some (some text, rest) := by
  induction text with
  | nil => rfl
  | cons c text ih =>
    rw [List.flatMap_cons, List.append_assoc, readString_escape, ih]
    rfl

theorem quote_append (text : String) (rest : List Char) :
    quote text ++ rest = '"' :: (text.toList.flatMap escape ++ '"' :: rest) := by
  simp [quote]

/-! ## Numbers -/

/-- The numeral of a natural number is a run of digits. -/
theorem all_isDigit_toDigits (n : Nat) : ∀ c ∈ Nat.toDigits 10 n, c.isDigit = true :=
  fun _ mem => Nat.isDigit_of_mem_toDigits (by decide) (by decide) mem

/-- The numeral of a natural number is a whole part of its own. -/
theorem isWhole_toDigits (n : Nat) : isWhole (Nat.toDigits 10 n) = true := by
  rcases Nat.eq_zero_or_pos n with rfl | positive
  · rfl
  · obtain ⟨c, rest, digits⟩ : ∃ c rest, Nat.toDigits 10 n = c :: rest :=
      List.exists_cons_of_ne_nil Nat.toDigits_ne_nil
    have first := Text.head?_toDigits positive
    have all : (Nat.toDigits 10 n).all Char.isDigit = true :=
      List.all_eq_true.mpr (all_isDigit_toDigits n)
    rw [digits] at first all
    rw [digits, isWhole, all, Bool.and_true]
    · simpa using first
    · rintro rfl
      exact absurd rfl first

/-- An integer is read back. -/
theorem readNumber?_integer (value : Int) : readNumber? (integer value) = some (.int value) := by
  have whole (n : Nat) : (Nat.toDigits 10 n).takeWhile Char.isDigit = Nat.toDigits 10 n :=
    List.takeWhile_eq_self_iff.mpr (all_isDigit_toDigits n)
  have rest (n : Nat) : (Nat.toDigits 10 n).dropWhile Char.isDigit = [] :=
    List.dropWhile_eq_nil_iff.mpr (all_isDigit_toDigits n)
  have fraction : isFraction [] = true := rfl
  cases value with
  | ofNat n =>
    have unsigned : ((Nat.toDigits 10 n).head? == some '-') = false := by
      rw [beq_eq_false_iff_ne]
      intro first
      exact absurd (all_isDigit_toDigits n '-' (List.mem_of_head? first)) (by decide)
    simp only [readNumber?, integer, unsigned, Bool.false_eq_true, if_false, whole, rest,
      isWhole_toDigits, fraction, Text.readDigits?_toDigits]
    rfl
  | negSucc n =>
    simp only [readNumber?, integer, List.head?_cons, List.tail_cons, beq_self_eq_true, if_true,
      whole, rest, isWhole_toDigits, fraction, Text.readDigits?_toDigits]
    simp [Int.negSucc_eq]

/-- An integer is written with characters that occur in numbers. -/
theorem isNumberChar_of_mem_integer {value : Int} {c : Char} (mem : c ∈ integer value) :
    isNumberChar c = true := by
  have digit {n : Nat} (mem : c ∈ Nat.toDigits 10 n) : isNumberChar c = true := by
    simp [isNumberChar, all_isDigit_toDigits n c mem]
  cases value with
  | ofNat n => exact digit mem
  | negSucc n =>
    rcases List.mem_cons.mp mem with rfl | mem
    · rfl
    · exact digit mem

/-- A text that does not prolong a number in front of it. -/
def EndsNumber (rest : List Char) : Prop :=
  ∀ c, rest.head? = some c → isNumberChar c = false

theorem endsNumber_cons {c : Char} (other : isNumberChar c = false) (rest : List Char) :
    EndsNumber (c :: rest) := by
  intro d first
  cases first
  exact other

/-- White space ends a number, and so does what follows it, if that would. -/
theorem endsNumber_gap (ends : EndsNumber rest) : EndsNumber (style.gap depth ++ rest) := by
  cases style with
  | compact => exact ends
  | pretty => exact endsNumber_cons rfl _

/-- The characters that values other than numbers begin with. -/
def openers : List Char := ['"', '[', '\x7b', 'n', 't', 'f']

theorem notMem_openers {c : Char} (h : isNumberChar c = true) : c ∉ openers := by
  have none : openers.all (fun d => !isNumberChar d) = true := rfl
  intro mem
  have other := List.all_eq_true.mp none c mem
  rw [h] at other
  cases other

/-- What begins otherwise is a number, or no value. -/
theorem readValue_of_notMem_openers {c : Char} (first : skipSpace text = c :: rest)
    (other : c ∉ openers) :
    readValue (steps + 1) text =
      (readNumber? ((c :: rest).takeWhile isNumberChar)).map fun number =>
        (number, (c :: rest).dropWhile isNumberChar) := by
  rw [readValue, first]
  split
  case h_8 => rfl
  case h_1 none => cases none
  all_goals
    rename_i opener
    cases opener
    exact absurd (by decide) other

/-- A number is read up to its end. -/
theorem readValue_of_readNumber? {literal : List Char} {value : Json}
    (read : readNumber? literal = some value) (all : ∀ c ∈ literal, isNumberChar c = true)
    (ends : EndsNumber rest) : readValue (steps + 1) (literal ++ rest) = some (value, rest) := by
  cases literal with
  | nil => cases read
  | cons c literal =>
    have start := all c (List.mem_cons_self ..)
    have solid : isSpace c = false := by
      simp only [isSpace, Bool.or_eq_false_iff, beq_eq_false_iff_ne]
      refine ⟨⟨⟨?_, ?_⟩, ?_⟩, ?_⟩
      all_goals
        rintro rfl
        cases start
    have nothing : rest.takeWhile isNumberChar = [] ∧ rest.dropWhile isNumberChar = rest := by
      cases rest with
      | nil => exact ⟨rfl, rfl⟩
      | cons d rest => simp [ends d rfl]
    rw [List.cons_append,
      readValue_of_notMem_openers (skipSpace_cons solid _) (notMem_openers start),
      ← List.cons_append, List.takeWhile_append_of_pos all, List.dropWhile_append_of_pos all,
      nothing.1, nothing.2, List.append_nil, read]
    rfl

/-! ## Lists and objects -/

/-- No value begins with a closing bracket. -/
theorem readItems_of_bracket (close : skipSpace text = ']' :: rest) :
    readItems steps text = none := by
  cases steps with
  | zero => rfl
  | succ steps =>
    have value : readValue steps text = none := by
      cases steps with
      | zero => rfl
      | succ steps =>
        rw [readValue_of_notMem_openers close (by decide)]
        rfl
    rw [readItems, value]

/-- No key begins with a closing brace. -/
theorem readMembers_of_brace (close : skipSpace text = '\x7d' :: rest) :
    readMembers steps text = none := by
  cases steps with
  | zero => rfl
  | succ steps => rw [readMembers, close]; rfl

/-- A list is read by its items. -/
theorem readValue_bracket {items : List Json} (read : readItems steps text = some (items, rest)) :
    readValue (steps + 1) ('[' :: text) = some (.array items, rest) := by
  rw [readValue, skipSpace_cons rfl]
  split
  case h_3 opener =>
    cases opener
    split
    case h_1 close =>
      rw [readItems_of_bracket close] at read
      cases read
    case h_2 =>
      rw [read]
      rfl
  case h_8 other _ _ _ _ => exact (other text rfl).elim
  all_goals
    rename_i opener
    cases opener

/-- An object is read by its members. -/
theorem readValue_brace {members : List (String × Json)}
    (read : readMembers steps text = some (some members, rest)) :
    readValue (steps + 1) ('\x7b' :: text) = some (.object members, rest) := by
  rw [readValue, skipSpace_cons rfl]
  split
  case h_4 opener =>
    cases opener
    split
    case h_1 close =>
      rw [readMembers_of_brace close] at read
      cases read
    case h_2 =>
      rw [read]
      rfl
  case h_8 other _ _ _ => exact (other text rfl).elim
  all_goals
    rename_i opener
    cases opener

section Items

variable {item : Json} {items : List Json} {last : List Char}
  (read : readValue steps text = some (item, rest))

include read

/-- The last item is followed by a bracket. -/
theorem readItems_last (close : skipSpace rest = ']' :: after) :
    readItems (steps + 1) text = some ([item], after) := by
  rw [readItems, read]
  simp only [close]

/-- Any other item is followed by a comma. -/
theorem readItems_comma (comma : skipSpace rest = ',' :: after)
    (others : readItems steps after = some (items, last)) :
    readItems (steps + 1) text = some (item :: items, last) := by
  rw [readItems, read]
  simp only [comma, others, Option.map_some]

end Items

section Members

variable {key : String} {value : Json} {members : List (String × Json)} {last : List Char}

/-- A key is written up to its colon, behind which there may be white space. -/
theorem exists_colon (key : String) (text : List Char) :
    ∃ gap, quote key ++ style.colon ++ text =
        '"' :: (key.toList.flatMap escape ++ '"' :: ':' :: gap) ∧
      ∀ steps, readValue steps gap = readValue steps text := by
  rw [List.append_assoc, quote_append]
  cases style with
  | compact => exact ⟨text, rfl, fun steps => rfl⟩
  | pretty =>
    refine ⟨' ' :: text, rfl, fun steps => ?_⟩
    cases steps with
    | zero => rfl
    | succ steps => rw [readValue, readValue]; rfl

theorem skipSpace_colon (rest : List Char) : skipSpace (':' :: rest) = ':' :: rest :=
  skipSpace_cons rfl rest

variable (read : readValue steps text = some (value, rest))

include read

/-- The last member is followed by a brace. -/
theorem readMembers_last (close : skipSpace rest = '\x7d' :: after) :
    readMembers (steps + 1) (quote key ++ style.colon ++ text) =
      some (some [(key, value)], after) := by
  obtain ⟨gap, written, same⟩ := exists_colon key text
  rw [written, readMembers, skipSpace_cons rfl]
  simp only [readString_flatMap_escape, skipSpace_colon, same, read, close, String.ofList_toList,
    Option.map_some, prepend?_some]

/-- Any other member is followed by a comma. -/
theorem readMembers_comma (comma : skipSpace rest = ',' :: after)
    (others : readMembers steps after = some (some members, last)) :
    readMembers (steps + 1) (quote key ++ style.colon ++ text) =
      some (some ((key, value) :: members), last) := by
  obtain ⟨gap, written, same⟩ := exists_colon key text
  rw [written, readMembers, skipSpace_cons rfl]
  simp only [readString_flatMap_escape, skipSpace_colon, same, read, comma, others,
    String.ofList_toList, Option.map_some, prepend?_some]

end Members

/-! ## Values -/

/-- A value is read back in front of any text that does not prolong it, if there are two steps for
each of its characters. -/
def ReadsBack (style : Style) (value : Json) : Prop :=
  ∀ depth steps rest, 2 * (writeValue style depth value).length ≤ steps + 1 → EndsNumber rest →
    readValue (steps + 1) (writeValue style depth value ++ rest) = some (value, rest)

/-- The items of a list are read back up to its bracket, one after the other. -/
theorem readItems_writeItems {outer : Nat} {item : Json} {items : List Json}
    (back : ∀ other ∈ item :: items, ReadsBack style other)
    (enough : 2 * ((writeValue style depth item).length + (writeItems style depth items).length) +
      1 < steps) :
    readItems steps (writeValue style depth item ++ (writeItems style depth items ++
      (style.gap outer ++ ']' :: rest))) = some (item :: items, rest) := by
  -- each item takes one step from the list, and the value of the item needs another one
  induction items generalizing item steps with
  | nil =>
    obtain ⟨steps, rfl⟩ : ∃ fewer, steps = fewer + 2 := ⟨steps - 2, by omega⟩
    simp only [writeItems, List.length_nil, List.nil_append] at enough ⊢
    refine readItems_last (back item (List.mem_cons_self ..) depth steps _ (by omega) ?_) ?_
    · exact endsNumber_gap (endsNumber_cons rfl _)
    · rw [skipSpace_gap, skipSpace_cons rfl]
  | cons next items ih =>
    obtain ⟨steps, rfl⟩ : ∃ fewer, steps = fewer + 2 := ⟨steps - 2, by omega⟩
    simp only [writeItems, List.length_append, List.length_cons, List.append_assoc,
      List.cons_append] at enough ⊢
    refine readItems_comma (back item (List.mem_cons_self ..) depth steps _ (by omega) ?_)
      (skipSpace_cons rfl _) ?_
    · exact endsNumber_cons rfl _
    · rw [readItems_gap]
      exact ih (fun other mem => back other (List.mem_cons_of_mem _ mem)) (by omega)

/-- The members of an object are read back up to its brace, one after the other. -/
theorem readMembers_writeMembers {outer : Nat} {member : String × Json}
    {members : List (String × Json)}
    (back : ∀ other ∈ member :: members, ReadsBack style other.2)
    (enough : 2 * ((writeMember style depth member).length +
      (writeMembers style depth members).length) + 1 < steps) :
    readMembers steps (writeMember style depth member ++ (writeMembers style depth members ++
      (style.gap outer ++ '\x7d' :: rest))) = some (some (member :: members), rest) := by
  induction members generalizing member steps with
  | nil =>
    obtain ⟨steps, rfl⟩ : ∃ fewer, steps = fewer + 2 := ⟨steps - 2, by omega⟩
    obtain ⟨key, value⟩ := member
    have first : ReadsBack style value := back (key, value) (List.mem_cons_self ..)
    simp only [writeMembers, writeMember, List.length_append, List.length_nil,
      List.nil_append] at enough ⊢
    rw [List.append_assoc]
    refine readMembers_last (first depth steps _ (by omega) ?_) ?_
    · exact endsNumber_gap (endsNumber_cons rfl _)
    · rw [skipSpace_gap, skipSpace_cons rfl]
  | cons next members ih =>
    obtain ⟨steps, rfl⟩ : ∃ fewer, steps = fewer + 2 := ⟨steps - 2, by omega⟩
    obtain ⟨key, value⟩ := member
    have first : ReadsBack style value := back (key, value) (List.mem_cons_self ..)
    -- only the first member is taken apart; the next one is left to the induction
    simp only [writeMembers, List.length_append, List.length_cons, List.append_assoc,
      List.cons_append] at enough ⊢
    rw [writeMember, List.append_assoc]
    rw [writeMember, List.length_append, List.length_append] at enough
    refine readMembers_comma (first depth steps _ (by omega) ?_) (skipSpace_cons rfl _) ?_
    · exact endsNumber_cons rfl _
    · rw [readMembers_gap]
      exact ih (fun other mem => back other (List.mem_cons_of_mem _ mem)) (by omega)

/-- The values whose other numerals are read as they are. -/
inductive Readable : Json → Prop
  | null : Readable .null
  | bool (value : Bool) : Readable (.bool value)
  | int (value : Int) : Readable (.int value)
  | numeral {literal : String} (read : readNumber? literal.toList = some (.numeral literal))
      (all : ∀ c ∈ literal.toList, isNumberChar c = true) : Readable (.numeral literal)
  | string (value : String) : Readable (.string value)
  | broken : Readable .broken
  | array {items : List Json} (all : ∀ item ∈ items, Readable item) : Readable (.array items)
  | object {members : List (String × Json)} (all : ∀ member ∈ members, Readable member.2) :
      Readable (.object members)

attribute [simp] Readable.null Readable.bool Readable.int Readable.string Readable.broken

@[simp] theorem readable_ofNat (n : Nat) : Readable (.ofNat n) :=
  .int n

@[simp] theorem readable_array_iff {items : List Json} :
    Readable (.array items) ↔ ∀ item ∈ items, Readable item := by
  constructor
  · rintro (_ | _)
    assumption
  · exact .array

@[simp] theorem readable_object_iff {members : List (String × Json)} :
    Readable (.object members) ↔ ∀ member ∈ members, Readable member.2 := by
  constructor
  · rintro (_ | _)
    assumption
  · exact .object

/-- Every such value is read back. -/
theorem readsBack {value : Json} (readable : Readable value) : ReadsBack style value := by
  induction readable with
  | null =>
    intro depth steps rest enough ends
    rfl
  | bool value =>
    intro depth steps rest enough ends
    cases value <;> rfl
  | int value =>
    intro depth steps rest enough ends
    exact readValue_of_readNumber? (readNumber?_integer value)
      (fun _ mem => isNumberChar_of_mem_integer mem) ends
  | numeral read all =>
    intro depth steps rest enough ends
    exact readValue_of_readNumber? read all ends
  | string value =>
    intro depth steps rest enough ends
    rw [writeValue, quote_append, readValue, skipSpace_cons rfl]
    show (readString (value.toList.flatMap escape ++ '"' :: rest)).map
      (fun (text?, after) => (ofText text?, after)) = _
    rw [readString_flatMap_escape]
    exact congrArg (fun text => some (string text, rest)) String.ofList_toList
  | broken =>
    intro depth steps rest enough ends
    rfl
  | @array items all ih =>
    intro depth steps rest enough ends
    cases items with
    | nil => rfl
    | cons item items =>
      simp only [writeValue, List.length_append, List.length_cons, List.append_assoc,
        List.cons_append, List.nil_append] at enough ⊢
      refine readValue_bracket ?_
      rw [readItems_gap]
      exact readItems_writeItems ih (by omega)
  | @object members all ih =>
    intro depth steps rest enough ends
    cases members with
    | nil => rfl
    | cons member members =>
      simp only [writeValue, List.length_append, List.length_cons, List.append_assoc,
        List.cons_append, List.nil_append] at enough ⊢
      refine readValue_brace ?_
      rw [readMembers_gap]
      exact readMembers_writeMembers ih (by omega)

/-- **What has been written is read.** The text of a value, in either style, denotes that value and
no other. -/
theorem parse?_write {value : Json} (readable : Readable value) (style : Style) :
    parse? (value.write style) = some value := by
  have back : ReadsBack style value := readsBack readable
  have whole := back 0 (2 * (writeValue style 0 value).length) [] (Nat.le_succ _)
    (fun c none => by cases none)
  rw [List.append_nil] at whole
  rw [parse?, toList_write, read?, whole]
  rfl

end NibbleComputer.Json
