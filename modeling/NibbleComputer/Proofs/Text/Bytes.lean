import Mathlib.Data.String.Basic

/-!
# Positions in bytes

A text is stored as bytes in UTF-8, and its parts are taken at positions in bytes. A part can only
be taken at a position between two characters. Where a mark of ASCII characters is found among the
bytes is such a position, whatever other characters the text has.

- `add?`: a sum of positions, as far as there are numbers for it.
- `Text.bytes`: the bytes of a text.
- `Text.cut?`: the parts of a text at a position, `Text.cut?_eq_some_iff` at which there are any.
- `Text.position?`: the position of a mark, `Text.position?_eq` in terms of characters.
-/

namespace NibbleComputer

/-- The sum of two numbers, if it is below the number of values that a number can have. -/
def add? (limit m n : Nat) : Option Nat :=
  if m + n < limit then some (m + n) else none

theorem add?_of_lt {limit m n : Nat} (lt : m + n < limit) : add? limit m n = some (m + n) :=
  if_pos lt

namespace Text

/-- The bytes of a text in UTF-8. -/
def bytes (text : List Char) : List UInt8 :=
  text.flatMap String.utf8EncodeChar

@[simp] theorem bytes_nil : bytes [] = [] := rfl

@[simp] theorem bytes_cons (c : Char) (text : List Char) :
    bytes (c :: text) = String.utf8EncodeChar c ++ bytes text := rfl

/-- A text has a byte for each character. -/
theorem length_le_utf8Len (text : List Char) : text.length ≤ String.utf8Len text := by
  induction text with
  | nil => exact Nat.le_refl _
  | cons c text ih => exact Nat.add_le_add ih c.utf8Size_pos

/-! ## Cutting at a position -/

/-- The parts of a text on both sides of a position in bytes, if the position is between two
characters or at an end. -/
def cut? : List Char → Nat → Option (List Char × List Char)
  | text, 0 => some ([], text)
  | [], _ + 1 => none
  | c :: rest, position =>
    if c.utf8Size ≤ position then
      (cut? rest (position - c.utf8Size)).map fun parts => (c :: parts.1, parts.2)
    else none

theorem cut?_cons {position : Nat} (pos : position ≠ 0) (c : Char) (rest : List Char) :
    cut? (c :: rest) position =
      if c.utf8Size ≤ position then
        (cut? rest (position - c.utf8Size)).map fun parts => (c :: parts.1, parts.2)
      else none := by
  cases position with
  | zero => exact absurd rfl pos
  | succ position => rfl

/-- The parts that a text is made of are cut apart at the length of the first one. -/
theorem cut?_append (before after : List Char) :
    cut? (before ++ after) (String.utf8Len before) = some (before, after) := by
  induction before with
  | nil => cases after <;> rfl
  | cons c before ih =>
    have pos : String.utf8Len before + c.utf8Size ≠ 0 := by
      have := c.utf8Size_pos
      omega
    rw [List.cons_append, String.utf8Len_cons, cut?_cons pos, if_pos (Nat.le_add_left ..),
      Nat.add_sub_cancel, ih]
    rfl

/-- The positions at which a text is cut are the lengths of its beginnings. -/
theorem cut?_eq_some_iff {text before after : List Char} {position : Nat} :
    cut? text position = some (before, after) ↔
      text = before ++ after ∧ position = String.utf8Len before := by
  constructor
  · intro cut
    fun_induction cut? text position generalizing before after with
    | case1 text =>
      cases cut
      exact ⟨rfl, rfl⟩
    | case2 => cases cut
    | case3 c rest position start le ih =>
      obtain ⟨⟨front, back⟩, cut', parts⟩ := Option.map_eq_some_iff.mp cut
      cases parts
      obtain ⟨rfl, length⟩ := ih cut'
      exact ⟨rfl, by rw [String.utf8Len_cons, ← length, Nat.sub_add_cancel le]⟩
    | case4 => cases cut
  · rintro ⟨rfl, rfl⟩
    exact cut?_append before after

/-- The second byte of the letter is no position between characters. -/
example : cut? ['é', ';'] 1 = none ∧ cut? ['é', ';'] 2 = some (['é'], [';']) := by
  decide

/-! ## Looking for a mark -/

/-- Where some bytes occur first among others. -/
def occurrence? (mark : List UInt8) : List UInt8 → Option Nat
  | [] => if mark = [] then some 0 else none
  | byte :: rest =>
    if mark <+: byte :: rest then some 0 else (occurrence? mark rest).map (· + 1)

/-- The position in bytes at which a mark first occurs in a text. -/
def position? (mark text : List Char) : Option Nat :=
  occurrence? (bytes mark) (bytes text)

/-- The text in front of the first occurrence of a mark. -/
def before? (mark : List Char) : List Char → Option (List Char)
  | [] => none
  | c :: rest => if mark <+: c :: rest then some [] else (before? mark rest).map (c :: ·)

/-- A mark of one character does not begin with another character. -/
theorem not_prefix_cons {m c : Char} (ne : m ≠ c) (rest : List Char) : ¬ [m] <+: c :: rest :=
  fun begins => ne (List.cons_prefix_cons.mp begins).1

theorem before?_append {m : Char} {front : List Char} (absent : m ∉ front) (rest : List Char) :
    before? [m] (front ++ m :: rest) = some front := by
  induction front with
  | nil => exact if_pos (List.cons_prefix_cons.mpr ⟨rfl, List.nil_prefix⟩)
  | cons c front ih =>
    obtain ⟨first, others⟩ := not_or.mp (mt List.mem_cons.mpr absent)
    rw [List.cons_append, before?, if_neg (not_prefix_cons first _), ih others]
    rfl

theorem before?_of_notMem {m : Char} {text : List Char} (absent : m ∉ text) :
    before? [m] text = none := by
  induction text with
  | nil => rfl
  | cons c text ih =>
    obtain ⟨first, others⟩ := not_or.mp (mt List.mem_cons.mpr absent)
    rw [before?, if_neg (not_prefix_cons first _), ih others]
    rfl

/-! ## Bytes and characters -/

/-- A byte of ASCII is the only byte of its character. -/
theorem eq_singleton_of_mem {c : Char} {byte : UInt8} (mem : byte ∈ String.utf8EncodeChar c)
    (ascii : byte.toNat < 128) : String.utf8EncodeChar c = [byte] ∧ byte.toNat = c.toNat := by
  revert mem
  fun_cases String.utf8EncodeChar c with
  | case1 single =>
    intro mem
    obtain rfl := List.mem_singleton.mp mem
    refine ⟨rfl, ?_⟩
    rw [UInt8.toNat_ofNat', Nat.mod_eq_of_lt (by omega)]
    rfl
  | case2 | case3 | case4 =>
    -- all bytes of a longer encoding are beyond ASCII
    intro mem
    simp only [List.mem_cons, List.not_mem_nil, or_false, ← UInt8.toNat_inj,
      UInt8.toNat_ofNat'] at mem
    omega

/-- A character of ASCII is encoded as its own code. -/
theorem encode_ascii {c : Char} (ascii : c.toNat < 128) :
    String.utf8EncodeChar c = [UInt8.ofNat c.toNat] :=
  if_pos (Nat.le_of_lt_succ ascii)

theorem toNat_code {c : Char} (ascii : c.toNat < 128) :
    (UInt8.ofNat c.toNat).toNat = c.toNat := by
  rw [UInt8.toNat_ofNat', Nat.mod_eq_of_lt (by omega)]

/-- A character has a first byte, and the others are beyond ASCII. -/
theorem exists_cons_encode (c : Char) : ∃ byte tail, String.utf8EncodeChar c = byte :: tail ∧
    ∀ other ∈ tail, 128 ≤ other.toNat := by
  obtain ⟨byte, tail, encoded⟩ := List.exists_cons_of_ne_nil (String.utf8EncodeChar_ne_nil (c := c))
  refine ⟨byte, tail, encoded, fun other mem => ?_⟩
  by_contra ascii
  have inside : other ∈ String.utf8EncodeChar c := encoded ▸ List.mem_cons_of_mem _ mem
  have alone := (eq_singleton_of_mem inside (by omega)).1
  rw [encoded] at alone
  rw [(List.cons.inj alone).2] at mem
  cases mem

/-- A mark does not begin at any of the bytes that are not its first. -/
theorem occurrence?_append {mark front : List UInt8} (ne : mark ≠ [])
    (absent : ∀ byte ∈ front, mark.head? ≠ some byte) (rest : List UInt8) :
    occurrence? mark (front ++ rest) = (occurrence? mark rest).map (· + front.length) := by
  induction front with
  | nil => simp
  | cons byte front ih =>
    obtain ⟨first, others⟩ := List.forall_mem_cons.mp absent
    have here : ¬ mark <+: byte :: (front ++ rest) := by
      intro begins
      obtain ⟨head, tail, rfl⟩ := List.exists_cons_of_ne_nil ne
      rw [(List.cons_prefix_cons.mp begins).1] at first
      exact first rfl
    rw [List.cons_append, occurrence?, if_neg here, ih others, Option.map_map]
    rfl

variable {mark : List Char} (ascii : ∀ c ∈ mark, c.toNat < 128)

include ascii

/-- A text begins with a mark just if its bytes begin with those of the mark. -/
theorem bytes_prefix_iff {text : List Char} : bytes mark <+: bytes text ↔ mark <+: text := by
  induction mark generalizing text with
  | nil => simp
  | cons m mark ih =>
    obtain ⟨first, others⟩ := List.forall_mem_cons.mp ascii
    have code := toNat_code first
    rw [bytes_cons, encode_ascii first, List.singleton_append]
    cases text with
    | nil => simp
    | cons c text =>
      rw [List.cons_prefix_cons, ← ih others]
      constructor
      · intro front
        have mem : UInt8.ofNat m.toNat ∈ String.utf8EncodeChar c := by
          obtain ⟨byte, tail, encoded, -⟩ := exists_cons_encode c
          rw [bytes_cons, encoded, List.cons_append, List.cons_prefix_cons] at front
          rw [encoded, front.1]
          exact List.mem_cons_self
        obtain ⟨alone, same⟩ := eq_singleton_of_mem mem (by omega)
        rw [bytes_cons, alone, List.singleton_append, List.cons_prefix_cons] at front
        exact ⟨Char.toNat_inj.mp (code.symm.trans same), front.2⟩
      · rintro ⟨rfl, front⟩
        rw [bytes_cons, encode_ascii first, List.singleton_append]
        exact List.cons_prefix_cons.mpr ⟨rfl, front⟩

/-- A mark has the same text in front of it among the bytes as among the characters. -/
theorem position?_eq (ne : mark ≠ []) (text : List Char) :
    position? mark text = (before? mark text).map String.utf8Len := by
  obtain ⟨m, marks, rfl⟩ := List.exists_cons_of_ne_nil ne
  have first : m.toNat < 128 := ascii m List.mem_cons_self
  have bytes_mark : bytes (m :: marks) = UInt8.ofNat m.toNat :: bytes marks := by
    rw [bytes_cons, encode_ascii first, List.singleton_append]
  have bytes_ne : bytes (m :: marks) ≠ [] := by simp [bytes_mark]
  unfold position?
  induction text with
  | nil => simp [occurrence?, before?, bytes_mark]
  | cons c text ih =>
    obtain ⟨byte, tail, encoded, beyond⟩ := exists_cons_encode c
    have same : bytes (m :: marks) <+: bytes (c :: text) ↔ m :: marks <+: c :: text :=
      bytes_prefix_iff ascii
    rw [bytes_cons c, encoded, List.cons_append] at same ⊢
    rw [occurrence?, before?]
    by_cases here : m :: marks <+: c :: text
    · rw [if_pos (same.mpr here), if_pos here]
      rfl
    · have absent : ∀ other ∈ tail, (bytes (m :: marks)).head? ≠ some other := by
        intro other mem begins
        rw [bytes_mark, List.head?_cons, Option.some.injEq] at begins
        have large := beyond other mem
        rw [← begins, toNat_code first] at large
        omega
      have size : tail.length + 1 = c.utf8Size := by
        rw [← String.length_utf8EncodeChar, encoded, List.length_cons]
      rw [if_neg (mt same.mp here), if_neg here, occurrence?_append bytes_ne absent, ih]
      simp [Option.map_map, Function.comp_def, ← size, Nat.add_assoc]

end Text

end NibbleComputer
