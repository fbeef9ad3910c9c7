import NibbleComputer.Proofs.Machine.Ticks
import NibbleComputer.Proofs.Snapshot.RoundTrip

/-!
# The canonical form of signal sets

A set of control lines is a word with a bit for each line. However it is made from a list, at once
or line by line, the word depends on the members of the list alone, and whatever is read from the
word lists the members once each in panel order.

- `SignalSet.insertAll_empty`, `SignalSet.foldl_mask`, `SignalSet.ofJson?_map_toJson`: the ways to
  make a set from a list.
- `SignalSet.members`: the lines of a list once each in panel order.
- `SignalSet.toList_ofList`, `SignalSet.toJson_ofList`, `SignalSet.display_ofList`: what is read
  from the set of a list.
- `SignalSet.display_eq_dash_iff`: only the empty set is displayed as a dash.
- `SignalSet.ofList_eq_iff`: sets of lists are equal just when the lists have the same members.
- `SignalSet.ofList_canonical`: all of it.
-/

namespace NibbleComputer.SignalSet

variable {signals : List Signal}

/-! ## Making a set -/

/-- Lines inserted one by one make the set of their list. -/
theorem insertAll_empty (signals : List Signal) : empty.insertAll signals = ofList signals :=
  ext_contains fun s => by rw [contains_insertAll, contains_empty, Bool.or_false, contains_ofList]

/-- The word of a list can be built up from either end. -/
theorem foldl_mask (bits : BitVec 15) (signals : List Signal) :
    signals.foldl (fun bits signal => bits ||| mask signal) bits =
      bits ||| (ofList signals).bits := by
  induction signals generalizing bits with
  | nil => exact BitVec.or_zero.symm
  | cons signal signals ih =>
    have step : (ofList (signal :: signals)).bits = mask signal ||| (ofList signals).bits := rfl
    rw [List.foldl_cons, ih, step, BitVec.or_assoc]

/-- A list of names is read as the set of the lines that it names. -/
theorem ofJson?_map_toJson (signals : List Signal) :
    ofJson? (.array (signals.map Signal.toJson)) = some (ofList signals) := by
  refine ofJson?_eq_some_iff.mpr ⟨_, signals, rfl, ?_, fun s => ?_⟩
  · rw [List.forall₂_map_left_iff, List.forall₂_same]
    exact fun signal _ => .inl rfl
  · rw [contains_ofList, decide_eq_true_iff]

/-- Two lists make the same set just when they have the same members. -/
theorem ofList_eq_iff {others : List Signal} :
    ofList others = ofList signals ↔ ∀ signal, signal ∈ others ↔ signal ∈ signals := by
  constructor
  · intro same signal
    have := congrArg (·.contains signal) same
    simpa only [contains_ofList, decide_eq_decide] using this
  · intro same
    exact ext_contains fun signal => by simp only [contains_ofList, same signal]

/-! ## Reading a set -/

/-- The lines of a list, once each in panel order. -/
def members (signals : List Signal) : List Signal :=
  Signal.all.filter (· ∈ signals)

@[simp] theorem mem_members {signal : Signal} : signal ∈ members signals ↔ signal ∈ signals := by
  simp [members]

theorem pairwise_members (signals : List Signal) :
    (members signals).Pairwise fun s t => s.index < t.index :=
  List.Pairwise.filter _ (by decide)

theorem members_eq_nil_iff : members signals = [] ↔ signals = [] := by
  simp [List.eq_nil_iff_forall_not_mem]

theorem toList_ofList (signals : List Signal) : (ofList signals).toList = members signals :=
  List.filter_congr fun s _ => contains_ofList signals s

theorem toJson_ofList (signals : List Signal) :
    (ofList signals).toJson = .array ((members signals).map fun signal => .string signal.name) := by
  rw [toJson, toList_ofList]
  rfl

theorem isEmpty_ofList_iff : (ofList signals).isEmpty = true ↔ signals = [] := by
  have word : (ofList signals).isEmpty = true ↔ ofList signals = ofList [] := by
    rw [isEmpty, beq_iff_eq]
    exact ⟨fun bits => congrArg SignalSet.mk bits, congrArg SignalSet.bits⟩
  rw [word, ofList_eq_iff, List.eq_nil_iff_forall_not_mem]
  simp only [List.not_mem_nil, iff_false]

theorem display_ofList (signals : List Signal) :
    (ofList signals).display =
      if signals = [] then "-" else " ".intercalate ((members signals).map Signal.label) := by
  rw [display, toList_ofList]
  simp only [isEmpty_ofList_iff]

/-- Texts between separators begin as the first of them does. -/
theorem prefix_intercalate (separator text : String) (texts : List String) :
    text.toList <+: (separator.intercalate (text :: texts)).toList := by
  cases texts with
  | nil => simp only [String.intercalate_singleton, List.prefix_refl]
  | cons next texts =>
    rw [String.intercalate_cons_cons, String.toList_append, String.toList_append,
      List.append_assoc]
    exact List.prefix_append _ _

/-- A dash stands for the empty set alone, since no label begins with one. -/
theorem display_eq_dash_iff : (ofList signals).display = "-" ↔ signals = [] := by
  have label : ∀ signal ∈ Signal.all, ¬ signal.label.toList <+: ['-'] := by decide
  rw [display_ofList]
  constructor
  · intro dash
    by_contra filled
    obtain ⟨first, others, listed⟩ :=
      List.exists_cons_of_ne_nil (members_eq_nil_iff.not.mpr filled)
    rw [if_neg filled, listed, List.map_cons] at dash
    have begins := prefix_intercalate " " first.label (others.map Signal.label)
    rw [dash] at begins
    exact label first first.mem_all begins
  · exact fun none => if_pos none

/-- What is written for a set is read as that set, as a value and in either style as a text. -/
theorem ofJson?_toJson (set : SignalSet) : ofJson? set.toJson = some set :=
  ofJson?_eq_some_iff.mpr set.describedBy_toJson

theorem parse?_write_toJson (set : SignalSet) (style : Json.Style) :
    Json.parse? (set.toJson.write style) = some set.toJson := by
  refine Json.parse?_write ?_ style
  simp [toJson, Signal.toJson]

/-! ## The main result -/

/-- **A set of signals is determined by its members.** For any list of lines, in any order and with
repetitions, the union of the masks, taken from either end, the lines inserted one by one, and a
list of their names that is read as JSON all give the same set. A line is a member just when it is
in the list. The members are listed once each in panel order, and so are their names and labels; a
dash is displayed for the empty list alone. Another list gives the same set just when it has the
same members. The bus is driven by the first of the producers that is in the list. What is written
as JSON is read as the same set. -/
theorem ofList_canonical (signals : List Signal) :
    let set := ofList signals
    let listed := Signal.all.filter (· ∈ signals)
    (empty.insertAll signals = set ∧
        ⟨signals.foldl (fun bits signal => bits ||| mask signal) 0⟩ = set ∧
        ofJson? (.array (signals.map Signal.toJson)) = some set) ∧
      (∀ signal, set.contains signal = true ↔ signal ∈ signals) ∧
      (listed.Pairwise (fun s t => s.index < t.index) ∧
        (∀ signal, signal ∈ listed ↔ signal ∈ signals) ∧
        set.toList = listed ∧
        set.toJson = .array (listed.map fun signal => .string signal.name) ∧
        set.display = (if signals = [] then "-" else " ".intercalate (listed.map Signal.label)) ∧
        (set.display = "-" ↔ signals = [])) ∧
      (∀ others, ofList others = set ↔ ∀ signal, signal ∈ others ↔ signal ∈ signals) ∧
      set.producer? = Signal.producers.find? (· ∈ signals) ∧
      ∀ style, (Json.parse? (set.toJson.write style)).bind ofJson? = some set := by
  intro set listed
  refine ⟨⟨insertAll_empty signals, ?_, ofJson?_map_toJson signals⟩, fun signal => ?_,
    ⟨pairwise_members signals, fun signal => mem_members, toList_ofList signals,
      toJson_ofList signals, display_ofList signals, display_eq_dash_iff⟩,
    fun others => ofList_eq_iff, Machine.producer?_ofList signals, fun style => ?_⟩
  · exact congrArg SignalSet.mk ((foldl_mask 0 signals).trans (BitVec.zero_or))
  · rw [contains_ofList, decide_eq_true_iff]
  · rw [parse?_write_toJson, Option.bind_some, ofJson?_toJson]

end NibbleComputer.SignalSet
