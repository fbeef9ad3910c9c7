import Mathlib.Data.List.Forall2
import NibbleComputer.Snapshot

/-!
# What a snapshot describes

What reads the parts of a machine from JSON says how they are found. Here is said what is found:
which values describe a nibble, the registers or a whole machine. A value describes at most one
machine, and it is read as that.

- `Json.Only`, `Json.HasFields`: the contents of the fields of an object.
- `Nibble.DescribedBy`, `SignalSet.DescribedBy`, `Machine.DescribedBy` and the like: the values that
  describe a part.
- `Machine.ofJson?_eq_some_iff`, with a lemma of the same name for each part: what is read.
-/

namespace NibbleComputer

/-- A list of results, each of which comes from the item at its place. -/
theorem mapM_eq_some_iff {α β : Type} {f : α → Option β} {items : List α} {results : List β} :
    items.mapM f = some results ↔
      List.Forall₂ (fun item result => f item = some result) items results := by
  induction items generalizing results with
  | nil =>
    rw [List.mapM_nil, List.forall₂_nil_left_iff]
    exact Option.some_inj.trans eq_comm
  | cons item items ih =>
    rw [List.mapM_cons, List.forall₂_cons_left_iff]
    constructor
    · intro all
      obtain ⟨first, one, rest⟩ := Option.bind_eq_some_iff.mp all
      obtain ⟨others, more, same⟩ := Option.bind_eq_some_iff.mp rest
      cases same
      exact ⟨first, others, one, ih.mp more, rfl⟩
    · rintro ⟨first, others, one, more, rfl⟩
      rw [one, ih.mpr more]
      rfl

namespace Json

/-! ## Kinds of values -/

variable {value : Json}

theorem bool?_eq_some_iff {flag : Bool} : value.bool? = some flag ↔ value = .bool flag := by
  cases value <;> simp [bool?]

theorem items?_eq_some_iff {items : List Json} :
    value.items? = some items ↔ value = .array items := by
  cases value <;> simp [items?]

theorem natBelow?_eq_some_iff {bound n : Nat} :
    value.natBelow? bound = some n ↔ value = .ofNat n ∧ n < bound := by
  constructor
  · intro read
    unfold natBelow? at read
    split at read
    case h_1 m =>
      obtain ⟨below, same⟩ := Option.ite_none_right_eq_some.mp read
      cases same
      exact ⟨rfl, below⟩
    case h_2 => cases read
  · rintro ⟨rfl, below⟩
    exact if_pos below

theorem name?_eq_some_iff {name : String} :
    value.name? = some name ↔ value = .string name ∨ value = .object [(name, .null)] := by
  constructor
  · intro read
    unfold name? at read
    split at read
    case h_1 =>
      cases read
      exact .inl rfl
    case h_2 =>
      cases read
      exact .inr rfl
    case h_3 => cases read
  · rintro (rfl | rfl)
    · rfl
    · rfl

theorem byte?_eq_some_iff {byte : UInt8} :
    value.byte? = some byte ↔ value = .ofNat byte.toNat := by
  rw [byte?, Option.map_eq_some_iff]
  constructor
  · rintro ⟨n, read, rfl⟩
    obtain ⟨rfl, below⟩ := natBelow?_eq_some_iff.mp read
    rw [UInt8.toNat_ofNat_of_lt' below]
  · rintro rfl
    exact ⟨byte.toNat, natBelow?_eq_some_iff.mpr ⟨rfl, byte.toNat_lt⟩, UInt8.ofNat_toNat⟩

theorem uint64?_eq_some_iff {word : UInt64} :
    value.uint64? = some word ↔ value = .ofNat word.toNat := by
  rw [uint64?, Option.map_eq_some_iff]
  constructor
  · rintro ⟨n, read, rfl⟩
    obtain ⟨rfl, below⟩ := natBelow?_eq_some_iff.mp read
    rw [UInt64.toNat_ofNat_of_lt' below]
  · rintro rfl
    exact ⟨word.toNat, natBelow?_eq_some_iff.mpr ⟨rfl, word.toNat_lt⟩, UInt64.ofNat_toNat⟩

/-! ## Fields -/

/-- The only member with a name, and its content. Other members may stand before and after it. -/
def Only (members : List (String × Json)) (name : String) (content : Json) : Prop :=
  ∃ before after, members = before ++ (name, content) :: after ∧
    ∀ member ∈ before ++ after, member.1 ≠ name

/-- A value has contents for some names: it is an object in which each name occurs once, among any
others and in any order, or it is the list of the contents. -/
inductive HasFields (names : List String) (contents : List Json) : Json → Prop
  | object {members : List (String × Json)} (each : List.Forall₂ (Only members) names contents) :
      HasFields names contents (.object members)
  | array (all : contents.length = names.length) : HasFields names contents (.array contents)

theorem member?_eq_some_iff {members : List (String × Json)} {name : String} {content : Json} :
    member? members name = some content ↔ Only members name content := by
  -- the one member that is left has the name, so that it is known as a whole
  have single : member? members name = some content ↔
      members.filter (fun member => member.1 == name) = [(name, content)] := by
    constructor
    · intro read
      unfold member? at read
      split at read
      case h_1 member only =>
        cases read
        have named : member.1 = name := by
          have mem : member ∈ members.filter fun member => member.1 == name := by simp [only]
          simpa using (List.mem_filter.mp mem).2
        rw [only, ← named]
      case h_2 => cases read
    · intro only
      rw [member?, only]
  rw [single, List.filter_eq_cons_iff]
  constructor
  · rintro ⟨before, after, rfl, none, -, rest⟩
    refine ⟨before, after, rfl, fun member mem named => ?_⟩
    rcases List.mem_append.mp mem with early | late
    · exact none member early (by simp [named])
    · exact List.filter_eq_nil_iff.mp rest member late (by simp [named])
  · rintro ⟨before, after, rfl, other⟩
    refine ⟨before, after, rfl, fun member mem => ?_, by simp, ?_⟩
    · simpa using other member (List.mem_append_left _ mem)
    · refine List.filter_eq_nil_iff.mpr fun member mem => ?_
      simpa using other member (List.mem_append_right _ mem)

theorem fields?_eq_some_iff {names : List String} {contents : List Json} :
    value.fields? names = some contents ↔ HasFields names contents value := by
  constructor
  · intro read
    unfold fields? at read
    split at read
    case h_1 members =>
      refine .object ((mapM_eq_some_iff.mp read).imp fun name content found => ?_)
      exact member?_eq_some_iff.mp found
    case h_2 items =>
      obtain ⟨all, same⟩ := Option.ite_none_right_eq_some.mp read
      cases same
      exact .array all
    case h_3 => cases read
  · intro fields
    cases fields with
    | object each =>
      exact mapM_eq_some_iff.mpr (each.imp fun name content only => member?_eq_some_iff.mpr only)
    | array all => exact if_pos all

end Json

open Json

variable {value : Json}

/-! ## Parts of a machine -/

namespace Nibble

/-- A number that fits in a byte describes its low four bits. -/
def DescribedBy (n : Nibble) (value : Json) : Prop :=
  ∃ number < 256, value = .ofNat number ∧ n = ofNat number

/-- A cell has one field, for its nibble. -/
def InCell (n : Nibble) (value : Json) : Prop :=
  ∃ content, HasFields ["value"] [content] value ∧ n.DescribedBy content

theorem ofJson?_eq_some_iff {n : Nibble} : ofJson? value = some n ↔ n.DescribedBy value := by
  rw [ofJson?, Option.map_eq_some_iff]
  constructor
  · rintro ⟨byte, read, rfl⟩
    exact ⟨byte.toNat, byte.toNat_lt, byte?_eq_some_iff.mp read, rfl⟩
  · rintro ⟨number, below, rfl, rfl⟩
    -- the byte in between loses nothing
    have same : (UInt8.ofNat number).toNat = number := UInt8.toNat_ofNat_of_lt' below
    refine ⟨UInt8.ofNat number, byte?_eq_some_iff.mpr ?_, ?_⟩
    · rw [same]
    · rw [ofByte, same]

theorem cellOfJson?_eq_some_iff {n : Nibble} : cellOfJson? value = some n ↔ n.InCell value := by
  constructor
  · intro read
    obtain ⟨contents, fields, rest⟩ := Option.bind_eq_some_iff.mp read
    split at rest
    case h_1 content => exact ⟨content, fields?_eq_some_iff.mp fields, ofJson?_eq_some_iff.mp rest⟩
    case h_2 => cases rest
  · rintro ⟨content, fields, described⟩
    rw [cellOfJson?, fields?_eq_some_iff.mpr fields]
    exact ofJson?_eq_some_iff.mpr described

end Nibble

namespace Flags

/-- Flags have a field each. -/
def DescribedBy (flags : Flags) (value : Json) : Prop :=
  HasFields ["zero", "carry"] [.bool flags.zero, .bool flags.carry] value

theorem ofJson?_eq_some_iff {flags : Flags} :
    ofJson? value = some flags ↔ flags.DescribedBy value := by
  constructor
  · intro read
    obtain ⟨contents, fields, rest⟩ := Option.bind_eq_some_iff.mp read
    split at rest
    case h_1 =>
      obtain ⟨zero, zeroRead, rest⟩ := Option.bind_eq_some_iff.mp rest
      obtain ⟨carry, carryRead, rest⟩ := Option.bind_eq_some_iff.mp rest
      cases rest
      rw [bool?_eq_some_iff.mp zeroRead, bool?_eq_some_iff.mp carryRead] at fields
      exact fields?_eq_some_iff.mp fields
    case h_2 => cases rest
  · intro described
    rw [ofJson?, fields?_eq_some_iff.mpr described]
    rfl

end Flags

namespace Alu

/-- The arithmetic unit has a field for its flags and one for its result. -/
def DescribedBy (alu : Alu) (value : Json) : Prop :=
  ∃ flags result, HasFields ["flags", "result"] [flags, result] value ∧
    alu.flags.DescribedBy flags ∧ alu.result.DescribedBy result

theorem ofJson?_eq_some_iff {alu : Alu} : ofJson? value = some alu ↔ alu.DescribedBy value := by
  constructor
  · intro read
    obtain ⟨contents, fields, rest⟩ := Option.bind_eq_some_iff.mp read
    split at rest
    case h_1 flagsField resultField =>
      obtain ⟨flags, flagsRead, rest⟩ := Option.bind_eq_some_iff.mp rest
      obtain ⟨result, resultRead, rest⟩ := Option.bind_eq_some_iff.mp rest
      cases rest
      exact ⟨flagsField, resultField, fields?_eq_some_iff.mp fields,
        Flags.ofJson?_eq_some_iff.mp flagsRead, Nibble.ofJson?_eq_some_iff.mp resultRead⟩
    case h_2 => cases rest
  · rintro ⟨flagsField, resultField, fields, flags, result⟩
    rw [ofJson?, fields?_eq_some_iff.mpr fields]
    simp only [Option.bind_eq_bind, Option.bind_some, Flags.ofJson?_eq_some_iff.mpr flags,
      Nibble.ofJson?_eq_some_iff.mpr result]
    rfl

end Alu

namespace Bus

/-- The bus is a cell. -/
def DescribedBy (bus : Bus) (value : Json) : Prop :=
  Nibble.InCell bus.value value

theorem ofJson?_eq_some_iff {bus : Bus} : ofJson? value = some bus ↔ bus.DescribedBy value := by
  rw [ofJson?, Option.map_eq_some_iff, DescribedBy, ← Nibble.cellOfJson?_eq_some_iff]
  constructor
  · rintro ⟨n, read, rfl⟩
    exact read
  · intro read
    exact ⟨bus.value, read, rfl⟩

end Bus

namespace Registers

/-- The registers have a cell each, under their names. -/
def DescribedBy (registers : Registers) (value : Json) : Prop :=
  ∃ cells, HasFields (Register.all.map Register.name) cells value ∧
    List.Forall₂ (fun cell register => Nibble.InCell (registers.read register) cell) cells
      Register.all

theorem ofJson?_eq_some_iff {registers : Registers} :
    ofJson? value = some registers ↔ registers.DescribedBy value := by
  have cells_iff (cells : List Json) :
      cells.mapM cellOfJson? = some (Register.all.map registers.read) ↔
        List.Forall₂ (fun cell register => Nibble.InCell (registers.read register) cell) cells
          Register.all := by
    simp only [mapM_eq_some_iff, List.forall₂_map_right_iff, Nibble.cellOfJson?_eq_some_iff]
  constructor
  · intro read
    obtain ⟨cells, fields, rest⟩ := Option.bind_eq_some_iff.mp read
    obtain ⟨nibbles, each, rest⟩ := Option.bind_eq_some_iff.mp rest
    split at rest
    case h_1 =>
      cases rest
      exact ⟨cells, fields?_eq_some_iff.mp fields, (cells_iff cells).mp each⟩
    case h_2 => cases rest
  · rintro ⟨cells, fields, each⟩
    rw [ofJson?, fields?_eq_some_iff.mpr fields]
    simp only [Option.bind_eq_bind, Option.bind_some, (cells_iff cells).mpr each]
    rfl

end Registers

namespace Memory

/-- Memory has a list of its cells, of which there are sixteen. -/
def DescribedBy (memory : Memory) (value : Json) : Prop :=
  ∃ items, HasFields ["cells"] [.array items] value ∧
    List.Forall₂ (fun item n => Nibble.DescribedBy n item) items memory.toList

theorem ofJson?_eq_some_iff {memory : Memory} :
    ofJson? value = some memory ↔ memory.DescribedBy value := by
  have nibbles_iff (items : List Json) (nibbles : List Nibble) :
      items.mapM Nibble.ofJson? = some nibbles ↔
        List.Forall₂ (fun item n => Nibble.DescribedBy n item) items nibbles := by
    simp only [mapM_eq_some_iff, Nibble.ofJson?_eq_some_iff]
  constructor
  · intro read
    obtain ⟨contents, fields, rest⟩ := Option.bind_eq_some_iff.mp read
    split at rest
    case h_1 content =>
      obtain ⟨items, list, rest⟩ := Option.bind_eq_some_iff.mp rest
      obtain ⟨nibbles, each, rest⟩ := Option.bind_eq_some_iff.mp rest
      obtain ⟨sixteen, same⟩ := Option.dite_none_right_eq_some.mp rest
      cases same
      rw [items?_eq_some_iff.mp list] at fields
      exact ⟨items, fields?_eq_some_iff.mp fields, (nibbles_iff items nibbles).mp each⟩
    case h_2 => cases rest
  · rintro ⟨items, fields, each⟩
    rw [ofJson?, fields?_eq_some_iff.mpr fields]
    simp only [Option.bind_eq_bind, Option.bind_some, items?_eq_some_iff.mpr rfl,
      (nibbles_iff items memory.toList).mpr each]
    rw [dif_pos memory.length_toList]
    rfl

end Memory

/-! ## Signals -/

namespace Signal

/-- A signal is its name, alone or as a key without a value. -/
def DescribedBy (signal : Signal) (value : Json) : Prop :=
  value = .string signal.name ∨ value = .object [(signal.name, .null)]

theorem ofName?_eq_some_iff {name : String} {signal : Signal} :
    ofName? name = some signal ↔ name = signal.name := by
  constructor
  · intro found
    have same := List.find?_some found
    exact (beq_iff_eq.mp same).symm
  · rintro rfl
    exact ofName?_name signal

theorem ofJson?_eq_some_iff {signal : Signal} :
    ofJson? value = some signal ↔ signal.DescribedBy value := by
  rw [ofJson?, Option.bind_eq_some_iff]
  constructor
  · rintro ⟨name, read, found⟩
    rw [ofName?_eq_some_iff.mp found] at read
    exact name?_eq_some_iff.mp read
  · intro described
    exact ⟨signal.name, name?_eq_some_iff.mpr described, ofName?_name signal⟩

end Signal

namespace SignalSet

/-- A set of signals is a list of its members, in any order and any number of times each. -/
def DescribedBy (set : SignalSet) (value : Json) : Prop :=
  ∃ items signals, value = .array items ∧
    List.Forall₂ (fun item signal => Signal.DescribedBy signal item) items signals ∧
    ∀ signal, set.contains signal = true ↔ signal ∈ signals

theorem ofJson?_eq_some_iff {set : SignalSet} :
    ofJson? value = some set ↔ set.DescribedBy value := by
  have signals_iff (items : List Json) (signals : List Signal) :
      items.mapM Signal.ofJson? = some signals ↔
        List.Forall₂ (fun item signal => Signal.DescribedBy signal item) items signals := by
    simp only [mapM_eq_some_iff, Signal.ofJson?_eq_some_iff]
  constructor
  · intro read
    obtain ⟨items, list, rest⟩ := Option.bind_eq_some_iff.mp read
    obtain ⟨signals, each, rest⟩ := Option.bind_eq_some_iff.mp rest
    cases rest
    refine ⟨items, signals, items?_eq_some_iff.mp list, (signals_iff items signals).mp each, ?_⟩
    intro signal
    rw [contains_ofList, decide_eq_true_iff]
  · rintro ⟨items, signals, rfl, each, members⟩
    have same : ofList signals = set := by
      -- order and repetitions do not matter to a set
      refine ext_contains fun signal => ?_
      rw [Bool.eq_iff_iff, contains_ofList, decide_eq_true_iff]
      exact (members signal).symm
    rw [ofJson?, items?_eq_some_iff.mpr rfl]
    simp only [Option.bind_eq_bind, Option.bind_some, (signals_iff items signals).mpr each]
    exact congrArg some same

end SignalSet

/-! ## The machine -/

namespace Machine

/-- A machine has a field for each of its parts. -/
def DescribedBy (m : Machine) (value : Json) : Prop :=
  ∃ bus registers memory alu signals,
    HasFields ["bus", "regs", "ram", "alu", "step", "halted", "signals", "ticks"]
      [bus, registers, memory, alu, .ofNat m.step.toNat, .bool m.halted, signals,
        .ofNat m.ticks.toNat] value ∧
    m.bus.DescribedBy bus ∧ m.registers.DescribedBy registers ∧ m.memory.DescribedBy memory ∧
    m.alu.DescribedBy alu ∧ m.signals.DescribedBy signals

theorem ofJson?_eq_some_iff {m : Machine} : ofJson? value = some m ↔ m.DescribedBy value := by
  constructor
  · intro read
    obtain ⟨contents, fields, rest⟩ := Option.bind_eq_some_iff.mp read
    split at rest
    case h_1 busField registersField memoryField aluField _ _ signalsField _ =>
      obtain ⟨bus, busRead, rest⟩ := Option.bind_eq_some_iff.mp rest
      obtain ⟨registers, registersRead, rest⟩ := Option.bind_eq_some_iff.mp rest
      obtain ⟨memory, memoryRead, rest⟩ := Option.bind_eq_some_iff.mp rest
      obtain ⟨alu, aluRead, rest⟩ := Option.bind_eq_some_iff.mp rest
      obtain ⟨step, stepRead, rest⟩ := Option.bind_eq_some_iff.mp rest
      obtain ⟨halted, haltedRead, rest⟩ := Option.bind_eq_some_iff.mp rest
      obtain ⟨signals, signalsRead, rest⟩ := Option.bind_eq_some_iff.mp rest
      obtain ⟨ticks, ticksRead, rest⟩ := Option.bind_eq_some_iff.mp rest
      cases rest
      rw [byte?_eq_some_iff.mp stepRead, bool?_eq_some_iff.mp haltedRead,
        uint64?_eq_some_iff.mp ticksRead] at fields
      exact ⟨busField, registersField, memoryField, aluField, signalsField,
        fields?_eq_some_iff.mp fields, Bus.ofJson?_eq_some_iff.mp busRead,
        Registers.ofJson?_eq_some_iff.mp registersRead,
        Memory.ofJson?_eq_some_iff.mp memoryRead, Alu.ofJson?_eq_some_iff.mp aluRead,
        SignalSet.ofJson?_eq_some_iff.mp signalsRead⟩
    case h_2 => cases rest
  · rintro ⟨busField, registersField, memoryField, aluField, signalsField, fields, bus, registers,
      memory, alu, signals⟩
    rw [ofJson?, fields?_eq_some_iff.mpr fields]
    simp only [Option.bind_eq_bind, Option.bind_some, Bus.ofJson?_eq_some_iff.mpr bus,
      Registers.ofJson?_eq_some_iff.mpr registers, Memory.ofJson?_eq_some_iff.mpr memory,
      Alu.ofJson?_eq_some_iff.mpr alu, SignalSet.ofJson?_eq_some_iff.mpr signals,
      byte?_eq_some_iff.mpr rfl, bool?_eq_some_iff.mpr rfl, uint64?_eq_some_iff.mpr rfl]
    rfl

/-- A text is read as the machine that its value describes. -/
theorem restore?_eq_some_iff {text : String} {m : Machine} :
    restore? text = some m ↔ ∃ value, parse? text = some value ∧ m.DescribedBy value := by
  rw [restore?, Option.bind_eq_some_iff]
  simp only [ofJson?_eq_some_iff]

end Machine

end NibbleComputer
