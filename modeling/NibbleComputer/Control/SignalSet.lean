import NibbleComputer.Control.Signal
import NibbleComputer.Text.Layout

/-!
# Sets of control signals

A set of control lines is a word with one bit a line, so two sets with the same members are
equal.

- `SignalSet`: the type, with `empty`, `insert`, `insertAll`, `ofList` and `contains`.
- `SignalSet.toList`: the members in panel order.
- `SignalSet.producer?`: the member that drives the bus.
- `SignalSet.contains_insert`, `SignalSet.contains_ofList`, `SignalSet.ext_contains`: a set is
  determined by its members.
-/

namespace NibbleComputer

/-- A set of control lines; bit `i` tells whether the line at position `i` is asserted. -/
structure SignalSet where
  bits : BitVec 15
deriving DecidableEq

namespace SignalSet

/-- The set without members. -/
def empty : SignalSet := ⟨0⟩

instance : EmptyCollection SignalSet := ⟨empty⟩

instance : Inhabited SignalSet := ⟨empty⟩

/-- The word with the bit of one line. -/
def mask (signal : Signal) : BitVec 15 :=
  BitVec.twoPow 15 signal.index

/-- The set with one more member. -/
def insert (set : SignalSet) (signal : Signal) : SignalSet :=
  ⟨set.bits ||| mask signal⟩

/-- The set with the lines of a list as further members. -/
def insertAll (set : SignalSet) (signals : List Signal) : SignalSet :=
  signals.foldl insert set

/-- Whether a line is a member. -/
def contains (set : SignalSet) (signal : Signal) : Bool :=
  set.bits.getLsbD signal.index

/-- The set of the lines in a list, as the union of their masks. -/
def ofList (signals : List Signal) : SignalSet :=
  ⟨(signals.map mask).foldr (· ||| ·) 0⟩

/-- The members in panel order. -/
def toList (set : SignalSet) : List Signal :=
  Signal.all.filter set.contains

/-- Whether there is no member. -/
def isEmpty (set : SignalSet) : Bool :=
  set.bits == 0

/-- The member that drives the bus: of the producers the one with the highest priority. -/
def producer? (set : SignalSet) : Option Signal :=
  Signal.producers.find? set.contains

/-! ## Texts -/

/-- The labels of the members between spaces, or a dash for the empty set. -/
def display (set : SignalSet) : String :=
  if set.isEmpty then "-" else " ".intercalate (set.toList.map Signal.label)

/-- The quoted labels of the members in braces. -/
def inspect (set : SignalSet) : String :=
  Text.braced (set.toList.map fun signal => Text.quoted signal.label)

/-! ## Membership -/

@[simp] theorem contains_empty (signal : Signal) : empty.contains signal = false := by
  simp [contains, empty]

theorem getLsbD_mask (s t : Signal) : (mask s).getLsbD t.index = decide (t = s) := by
  rw [mask, BitVec.getLsbD_twoPow, Bool.eq_iff_iff, Bool.and_eq_true, decide_eq_true_iff,
    decide_eq_true_iff, decide_eq_true_iff]
  constructor
  · intro h
    exact (Signal.index_inj.mp (Fin.ext h.2)).symm
  · rintro rfl
    exact ⟨t.index.isLt, rfl⟩

@[simp] theorem contains_insert (set : SignalSet) (s t : Signal) :
    (set.insert s).contains t = (decide (t = s) || set.contains t) := by
  rw [contains, insert, BitVec.getLsbD_or, getLsbD_mask, Bool.or_comm]
  rfl

/-- Inserting a list adds its members. -/
@[simp] theorem contains_insertAll (signals : List Signal) (set : SignalSet) (s : Signal) :
    (set.insertAll signals).contains s = (decide (s ∈ signals) || set.contains s) := by
  induction signals generalizing set with
  | nil => simp [insertAll]
  | cons t signals ih =>
    have step : set.insertAll (t :: signals) = (set.insert t).insertAll signals := rfl
    rw [step, ih, contains_insert]
    simp [Bool.or_left_comm, Bool.or_assoc]

/-- A set made from a list has the members of the list. -/
@[simp] theorem contains_ofList (signals : List Signal) (s : Signal) :
    (ofList signals).contains s = decide (s ∈ signals) := by
  induction signals with
  | nil => simp [ofList, contains]
  | cons t signals ih =>
    have step : (ofList (t :: signals)).bits = mask t ||| (ofList signals).bits := rfl
    have member : (ofList signals).bits.getLsbD s.index = decide (s ∈ signals) := ih
    rw [contains, step, BitVec.getLsbD_or, getLsbD_mask, member]
    simp

/-- Sets with the same members are equal. -/
theorem ext_contains {s t : SignalSet} (h : ∀ signal, s.contains signal = t.contains signal) :
    s = t := by
  cases s with
  | mk sb =>
    cases t with
    | mk tb =>
      congr
      apply BitVec.eq_of_getLsbD_eq
      intro i hi
      obtain ⟨signal, hs⟩ := Signal.exists_index ⟨i, hi⟩
      have := h signal
      simpa [contains, hs] using this

@[simp] theorem mem_toList {set : SignalSet} {signal : Signal} :
    signal ∈ set.toList ↔ set.contains signal = true := by
  simp [toList]

end SignalSet

end NibbleComputer
