import NibbleComputer.Proofs.Assembly.Encoding

/-!
# The layout of a program

What a source has become when it has been assembled: the encodings of its statements one after
the other from address zero on, nothing after them, and the addresses of its labels.

- `Memory.toList_fill_blank`: the cells of a memory that holds some nibbles and is blank otherwise.
- `Assembly.assembleLines_eq_ok_iff`: when lines assemble, and to which program.
- `Assembly.assemble_layout`: the layout of every program.
-/

namespace NibbleComputer

/-- A blank memory filled with nibbles holds them and zeros after them. -/
theorem Memory.toList_fill_blank {nibbles : List Nibble} (fits : nibbles.length ≤ memorySize) :
    (blank.fill nibbles).toList =
      nibbles ++ List.replicate (memorySize - nibbles.length) 0 := by
  refine List.ext_getElem? fun i => ?_
  by_cases inside : i < 16
  · rw [getElem?_toList (blank.fill nibbles) ⟨i, inside⟩, read_fill, read_blank,
      List.getElem?_append]
    split
    · next lt => simp [List.getElem?_eq_getElem lt]
    · next ge =>
      have : i - nibbles.length < memorySize - nibbles.length := by
        show _ < 16 - _
        omega
      simp [List.getElem?_eq_none (Nat.le_of_not_lt ge), this]
  · rw [List.getElem?_eq_none (by simpa using inside), List.getElem?_eq_none]
    have : nibbles.length ≤ 16 := fits
    simp only [List.length_append, List.length_replicate, memorySize]
    omega

/-- The nibbles that stand at an address of memory are read there, and memory has room for
them. -/
theorem Memory.read_of_prefix {memory : Memory} {nibbles : List Nibble} {address i : Nat}
    (h : nibbles <+: memory.toList.drop address) (lt : i < nibbles.length) :
    address + i < memorySize ∧ memory.read (.ofNat (address + i)) = nibbles[i] := by
  obtain ⟨tail, split⟩ := h
  have found : memory.toList[address + i]? = some nibbles[i] := by
    rw [← List.getElem?_drop, ← split, List.getElem?_append_left lt, List.getElem?_eq_getElem lt]
  have inside : address + i < memorySize := by
    have lt := (List.getElem?_eq_some_iff.mp found).1
    rwa [length_toList] at lt
  refine ⟨inside, Option.some.inj ?_⟩
  have cell : (Nibble.ofNat (address + i)).val = address + i := Nat.mod_eq_of_lt inside
  rw [← getElem?_toList, cell, found]

namespace Assembly

/-- Lines assemble exactly if the rules give every statement an encoding and all of them fit. -/
theorem assembleLines_eq_ok_iff {lines : List Line} {program : Program} :
    assembleLines lines = .ok program ↔
      size (statements lines) ≤ memorySize ∧
        ∃ codes, List.Forall₂ (Encodes (labels lines)) (statements lines) codes ∧
          program =
            { code := Memory.blank.fill codes.flatten
              size := size (statements lines)
              labels := labels lines } := by
  have rules (nibbles : List Nibble) : encodeFrom (labels lines) 0 (statements lines) = .ok nibbles ↔
      size (statements lines) ≤ memorySize ∧
        ∃ codes, List.Forall₂ (Encodes (labels lines)) (statements lines) codes ∧
          codes.flatten = nibbles := by
    simpa using encodeFrom_eq_ok_iff (Nat.zero_le memorySize)
  unfold assembleLines
  dsimp only
  constructor
  · intro h
    cases encoded : encodeFrom (labels lines) 0 (statements lines) with
    | error error =>
      rw [encoded] at h
      exact absurd h (by simp [Except.map])
    | ok nibbles =>
      obtain ⟨fits, codes, all, rfl⟩ := (rules nibbles).mp encoded
      rw [encoded] at h
      obtain rfl := Except.ok.inj h
      refine ⟨fits, codes, all, ?_⟩
      dsimp only
      rw [length_flatten_of_forall₂ all]
  · rintro ⟨fits, codes, all, rfl⟩
    rw [(rules codes.flatten).mpr ⟨fits, codes, all, rfl⟩, ← length_flatten_of_forall₂ all]
    rfl

section Assembled

variable {source : String} {program : Program} (h : assemble source = .ok program)

include h

/-- An assembled program is as wide as the retained lines, and fits. -/
theorem size_of_assemble :
    program.size = size (retained source.toList) ∧ program.size ≤ memorySize := by
  obtain ⟨fits, codes, all, rfl⟩ := assembleLines_eq_ok_iff.mp h
  rw [statements_sourceLines] at fits ⊢
  exact ⟨rfl, fits⟩

/-- A retained line of an assembled program starts inside memory. -/
theorem start_lt_of_assemble {position : Nat}
    (inside : position < (retained source.toList).length) :
    start (retained source.toList) position < memorySize := by
  have wide := width_pos (retained source.toList)[position]
  have next := start_succ (retained source.toList) inside
  have bound := start_le_size (retained source.toList) (position + 1)
  have fits := size_of_assemble h
  omega

/-- The encoding of a retained line lies in memory from its start address on. -/
theorem exists_encodes_at {position : Nat}
    (inside : position < (retained source.toList).length) :
    ∃ code, Encodes program.labels (retained source.toList)[position] code ∧
      code <+: program.code.toList.drop (start (retained source.toList) position) := by
  obtain ⟨fits, codes, all, rfl⟩ := assembleLines_eq_ok_iff.mp h
  rw [statements_sourceLines] at fits all
  have length := length_flatten_of_forall₂ all
  obtain ⟨code, rules, placed⟩ := exists_encodes_prefix all inside
  refine ⟨code, rules, ?_⟩
  rw [Memory.toList_fill_blank (length ▸ fits), List.drop_append_of_le_length
    (length ▸ start_le_size _ position)]
  exact placed.trans (List.prefix_append ..)

/-- The cells behind an assembled program are zero. -/
theorem read_of_size_le {address : Nibble} (beyond : program.size ≤ address.val) :
    program.code.read address = 0 := by
  obtain ⟨fits, codes, all, rfl⟩ := assembleLines_eq_ok_iff.mp h
  have none : codes.flatten[address.val]? = none :=
    List.getElem?_eq_none (length_flatten_of_forall₂ all ▸ beyond)
  rw [Memory.read_fill, none, Memory.read_blank]
  rfl

theorem labels_of_assemble : program.labels = labels (sourceLines source.toList) := by
  obtain ⟨-, -, -, rfl⟩ := assembleLines_eq_ok_iff.mp h
  rfl

end Assembled

/-- **The layout of an assembled program.** Its size is the width of the retained lines and does
not exceed memory. Each retained line has an encoding by the rules, as long as the line is wide,
and memory holds it from the start address of the line on, which is the width of the retained
lines before it. The cells from the size on are zero. The labels are those that some line of the
source defines, and each stands for the start address of the first retained line at or after its
last definition, or for the size if there is none. -/
theorem assemble_layout {source : String} {program : Program} (h : assemble source = .ok program) :
    let lines := sourceLines source.toList
    let statements := retained source.toList
    program.size = size statements ∧ program.size ≤ memorySize ∧
      (∀ position (inside : position < statements.length),
        ∃ code, Encodes program.labels statements[position] code ∧
          code.length = statements[position].width ∧
          code <+: program.code.toList.drop (start statements position)) ∧
      (∀ address : Nibble, program.size ≤ address.val → program.code.read address = 0) ∧
      (∀ key, (program.labels.find? key).isSome ↔ ∃ line ∈ lines, line.Defines key) ∧
      ∀ key line, LastDefinition lines line key →
        program.labels.find? key = some (start statements (positionFrom statements line.number)) := by
  intro lines statements
  have ordered : lines.Pairwise (·.number < ·.number) := pairwise_number source.toList
  rw [labels_of_assemble h]
  refine ⟨(size_of_assemble h).1, (size_of_assemble h).2, fun position inside => ?_,
    fun address beyond => read_of_size_le h beyond, fun key => ?_, fun key line last => ?_⟩
  · -- the second pass
    obtain ⟨code, rules, placed⟩ := exists_encodes_at h inside
    rw [labels_of_assemble h] at rules
    exact ⟨code, rules, rules.length_eq, placed⟩
  · -- the first pass: a label has an address if some line defines it
    constructor
    · intro found
      by_contra absent
      rw [find?_labels_eq_none fun line mem defines => absent ⟨line, mem, defines⟩] at found
      cases found
    · rintro ⟨line, mem, defines⟩
      obtain ⟨last, hlast⟩ := exists_lastDefinition ordered mem defines
      rw [find?_labels ordered hlast]
      rfl
  · rw [find?_labels ordered last, statements_sourceLines]

/-- A source with a label that is defined twice, one that spells a literal, one behind the last
statement and a raw nibble. -/
theorem assemble_layout_redefined :
    let source := "a: JMP 3 // loop\r\n3:\nA:\n\tldi 3 4; operand\nDATA -1\nend:"
    let statements : List Statement :=
      [⟨1, "JMP".toList, some ['3']⟩, ⟨4, "ldi".toList, some ['3']⟩,
       ⟨5, "DATA".toList, some "-1".toList⟩]
    let program : Program :=
      { code := Memory.blank.fill [6, 2, 5, 2, 15], size := 5
        labels := ⟨[("3", 2), ("A", 2), ("END", 5)]⟩ }
    assemble source = .ok program ∧ retained source.toList = statements ∧
      (∃ code, Encodes program.labels statements[1] code ∧ code.length = statements[1].width ∧
        code <+: program.code.toList.drop (start statements 1)) ∧
      program.labels.find? "A" = some (start statements (positionFrom statements 3)) := by
  intro source statements program
  have assembled : assemble source = .ok program := by
    dsimp only [source, program]
    rfl
  have lines : retained source.toList = statements := by decide +kernel
  have layout := assemble_layout assembled
  simp only [lines] at layout
  refine ⟨assembled, lines, layout.2.2.1 1 (by decide), ?_⟩
  exact layout.2.2.2.2.2 "A" ⟨3, some ['A'], []⟩ (by decide +kernel)

end Assembly

end NibbleComputer
