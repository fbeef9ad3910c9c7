import NibbleComputer.Proofs.Assembly.Faults
import NibbleComputer.Proofs.Assembly.Tokens

/-!
# Text appended to a source

The labels of a source are collected before a statement is encoded, so that text at the end of a
source acts on the statements above it. All it can do there is to name an operand that had no value:
addresses do not depend on labels, and a further label takes no value away. Hence the first error of
a source stays what it is, or the missing label comes with the text and the error goes away.

- `Assembly.sourceLines_append`: the lines of a source and of what is appended to it.
- `Assembly.Supplies`: lines define the label whose absence is a fault.
- `Assembly.Flaw.of_append`, `Assembly.Flaw.append`, `Assembly.not_flaw_of_supplies`: the flaws of a
  statement among more lines.
- `Assembly.Fails.append`, `Assembly.Fails.of_append`: what a statement fails of then.
- `Assembly.FirstFailure.append`, `Assembly.FirstFailure.line_lt`: where the longer source fails.
- `Assembly.assemble_append`: the error of the longer source.
-/

namespace NibbleComputer.Assembly

variable {lines more : List Line} {address rank : Nat} {statement : Statement} {fault : Fault}

/-! ## The lines of the longer source -/

/-- A return at the end of a line is blank. -/
theorem read_append_return (line : List Char) (number : Nat) :
    Line.read (line ++ ['\r']) number = Line.read line number := by
  have nothing : tokens [] = [] := rfl
  have blank := tokens_append_blank (c := '\r') (by decide) line []
  rw [nothing, List.append_nil, ite_self] at blank
  rw [read_eq_ofTokens, read_eq_ofTokens, blank]

theorem label?_read (line : List Char) (m n : Nat) :
    (Line.read line m).label? = (Line.read line n).label? := by
  unfold Line.read
  dsimp only
  split <;> rfl

theorem readLines_append (first : Nat) (early late : List (List Char)) :
    readLines first (early ++ late) =
      readLines first early ++ readLines (first + early.length) late := by
  rw [readLines, List.zipIdx_append, List.map_append]
  rfl

/-- Returns at the ends of lines make no difference. -/
theorem readLines_congr {texts others : List (List Char)}
    (same : List.Forall₂ (fun line other => line = other ∨ line = other ++ ['\r']) texts others)
    (first : Nat) : readLines first texts = readLines first others := by
  induction same generalizing first with
  | nil => rfl
  | @cons line other _ _ one _ ih =>
    have read : Line.read line first = Line.read other first := by
      rcases one with rfl | rfl
      · rfl
      · exact read_append_return other first
    have rest := ih (first + 1)
    rw [readLines, readLines] at rest
    rw [readLines, readLines, List.zipIdx_cons, List.zipIdx_cons, List.map_cons, List.map_cons,
      read, rest]

/-- Which labels some lines of text define does not depend on their numbers. -/
theorem exists_defines_readLines {texts : List (List Char)} {key : String} (first : Nat) :
    (∃ line ∈ readLines first texts, line.Defines key) ↔
      ∃ text ∈ texts, (Line.read text 0).Defines key := by
  induction texts generalizing first with
  | nil => simp [readLines]
  | cons text texts ih =>
    have label : (Line.read text first).Defines key ↔ (Line.read text 0).Defines key := by
      rw [Line.Defines, label?_read text first 0, Line.Defines]
    have rest := ih (first + 1)
    rw [readLines] at rest
    rw [readLines, List.zipIdx_cons, List.map_cons, List.exists_mem_cons_iff,
      List.exists_mem_cons_iff, rest, label]

theorem lt_number_of_mem_readLines {first : Nat} {texts : List (List Char)} {line : Line}
    (mem : line ∈ readLines first texts) : first ≤ line.number := by
  obtain ⟨⟨text, number⟩, numbered, rfl⟩ := List.mem_map.mp mem
  rw [number_read]
  exact List.le_snd_of_mem_zipIdx numbered

/-- The lines of a source stay as they are when text is appended on a new line. The lines behind
them have higher numbers and define the labels that the text defines. -/
theorem sourceLines_append (source text : List Char) :
    ∃ more, sourceLines (source ++ '\n' :: text) = sourceLines source ++ more ∧
      (∀ line ∈ more, (Text.lines source).length < line.number) ∧
      ∀ key, (∃ line ∈ more, line.Defines key) ↔
        ∃ line ∈ sourceLines text, line.Defines key := by
  obtain ⟨first, gap, whole, same, empty⟩ := Text.lines_append_lineFeed source text
  have length : (Text.lines source).length = first.length := same.length_eq
  refine ⟨readLines (1 + first.length) (gap ++ Text.lines text), ?_, ?_, ?_⟩
  · show readLines 1 (Text.lines (source ++ '\n' :: text)) = readLines 1 (Text.lines source) ++ _
    rw [whole, readLines_append, readLines_congr same]
  · intro line mem
    have := lt_number_of_mem_readLines mem
    omega
  · intro key
    show _ ↔ ∃ line ∈ readLines 1 (Text.lines text), line.Defines key
    rw [exists_defines_readLines, exists_defines_readLines]
    rcases empty with rfl | rfl
    · rfl
    · rw [List.singleton_append, List.exists_mem_cons_iff]
      exact or_iff_right fun defines => by cases defines

/-! ## One statement among more lines -/

/-- Some lines define the label whose absence is a fault. -/
def Supplies (more : List Line) (fault : Fault) : Prop :=
  ∃ operand, fault = .invalidOperand operand ∧
    ∃ line ∈ more, line.Defines (labelKey operand.toList)

/-- More lines add no flaw. -/
theorem Flaw.of_append (h : Flaw (lines ++ more) address statement rank fault) :
    Flaw lines address statement rank fault := by
  cases h with
  | beyond outside => exact .beyond outside
  | data data unread => exact .data data unread
  | unknown code mnemonic => exact .unknown code mnemonic
  | crossing mnemonic takes last => exact .crossing mnemonic takes last
  | missing mnemonic takes single => exact .missing mnemonic takes single
  | operand mnemonic takes second unnamed unread =>
    refine .operand mnemonic takes second (fun line mem => ?_) unread
    exact unnamed line (List.mem_append_left _ mem)

/-- More lines take a flaw away only by supplying a label. -/
theorem Flaw.append (h : Flaw lines address statement rank fault) (short : ¬ Supplies more fault) :
    Flaw (lines ++ more) address statement rank fault := by
  cases h with
  | beyond outside => exact .beyond outside
  | data data unread => exact .data data unread
  | unknown code mnemonic => exact .unknown code mnemonic
  | crossing mnemonic takes last => exact .crossing mnemonic takes last
  | missing mnemonic takes single => exact .missing mnemonic takes single
  | @operand _ word mnemonic takes second unnamed unread =>
    refine .operand mnemonic takes second (fun line mem defines => ?_) unread
    rcases List.mem_append.mp mem with early | late
    · exact unnamed line early defines
    · refine short ⟨_, rfl, line, late, ?_⟩
      rwa [String.toList_ofList]

/-- A flaw that a label takes away is the last that counts, and there is no flaw then. -/
theorem not_flaw_of_supplies (h : Fails lines address statement fault)
    (supplied : Supplies more fault) (other : Fault) :
    ¬ Flaw (lines ++ more) address statement rank other := by
  obtain ⟨operand, rfl, line, mem, defines⟩ := supplied
  obtain ⟨last, flaw, below⟩ := h
  cases flaw with
  | @operand _ word _ _ second _ _ =>
    intro still
    rcases Nat.lt_or_ge rank 5 with lt | ge
    · exact below rank lt other still.of_append
    · cases still with
      | beyond _ | data _ _ | unknown _ _ | crossing _ _ _ | missing _ _ _ => omega
      | operand _ _ second' unnamed _ =>
        -- both flaws are about the same word
        rw [second] at second'
        cases second'
        rw [String.toList_ofList] at defines
        exact unnamed line (List.mem_append_right _ mem) defines

/-- A statement with a flaw fails of one. -/
theorem exists_fails_of_flaw (h : Flaw lines address statement rank fault) :
    ∃ first, Fails lines address statement first := by
  classical
  have some : ∃ rank fault, Flaw lines address statement rank fault := ⟨rank, fault, h⟩
  obtain ⟨first, flaw⟩ := Nat.find_spec some
  exact ⟨first, Nat.find some, flaw, fun earlier lt other h => Nat.find_min some lt ⟨other, h⟩⟩

/-- A statement fails of the same unless the label is supplied. -/
theorem Fails.append (h : Fails lines address statement fault) (short : ¬ Supplies more fault) :
    Fails (lines ++ more) address statement fault := by
  obtain ⟨rank, flaw, below⟩ := h
  exact ⟨rank, flaw.append short, fun earlier lt other h => below earlier lt other h.of_append⟩

/-- A statement that fails among more lines fails without them, and not of what they supply. -/
theorem Fails.of_append (h : Fails (lines ++ more) address statement fault) :
    ∃ first, Fails lines address statement first ∧ ¬ Supplies more first := by
  obtain ⟨rank, flaw, -⟩ := h
  obtain ⟨first, fails⟩ := exists_fails_of_flaw flaw.of_append
  exact ⟨first, fails, fun supplied => not_flaw_of_supplies fails supplied fault flaw⟩

/-! ## Lists of statements -/

section Statements

variable {early late : List Statement} {position : Nat} {error : Error}

/-- Statements start where they did when others follow them. -/
theorem failsAt_append_left (lt : position < early.length) :
    FailsAt lines address (early ++ late) position error ↔
      FailsAt lines address early position error := by
  have same : start (early ++ late) position = start early position := by
    rw [start, List.take_append_of_le_length (Nat.le_of_lt lt), start]
  rw [FailsAt, List.getElem?_append_left lt, same, FailsAt]

theorem FailsAt.lt_length (h : FailsAt lines address early position error) :
    position < early.length := by
  obtain ⟨statement, found, -⟩ := h
  exact (List.getElem?_eq_some_iff.mp found).1

/-- An error stays where it is unless its label is supplied. -/
theorem FailsAt.append (h : FailsAt lines address early position error)
    (short : ¬ Supplies more error.fault) :
    FailsAt (lines ++ more) address (early ++ late) position error := by
  rw [failsAt_append_left h.lt_length]
  obtain ⟨statement, found, fails, line⟩ := h
  exact ⟨statement, found, fails.append short, line⟩

/-- A statement of the longer source that is one of the shorter has failed there, not of what the
further lines supply. -/
theorem FailsAt.of_append (h : FailsAt (lines ++ more) address (early ++ late) position error)
    (lt : position < early.length) :
    ∃ first, FailsAt lines address early position first ∧ ¬ Supplies more first.fault := by
  rw [failsAt_append_left lt] at h
  obtain ⟨statement, found, fails, -⟩ := h
  obtain ⟨first, fails', short⟩ := fails.of_append
  exact ⟨{ line := statement.line, fault := first }, ⟨statement, found, fails', rfl⟩, short⟩

/-- A statement fails of one thing on one line. -/
theorem FailsAt.unique {other : Error} (h : FailsAt lines address early position error)
    (h' : FailsAt lines address early position other) : error = other := by
  obtain ⟨statement, found, fails, line⟩ := h
  obtain ⟨statement', found', fails', line'⟩ := h'
  rw [found] at found'
  cases found'
  obtain ⟨number, fault⟩ := error
  obtain ⟨number', fault'⟩ := other
  dsimp only at *
  rw [line, line', fails.unique fails']

/-- The statements of numbered lines are in the order of their lines. -/
theorem pairwise_line (ordered : lines.Pairwise (·.number < ·.number)) :
    (statements lines).Pairwise (·.line < ·.line) := by
  rw [statements, List.pairwise_filterMap]
  refine ordered.imp fun lt statement read statement' read' => ?_
  rwa [line_statement? read, line_statement? read']

/-- Of two statements that fail the one further down is on a later line. -/
theorem FailsAt.line_lt {others : List Line} {next : Nat} {other : Error}
    (h : FailsAt lines address early position error) (h' : FailsAt others address early next other)
    (ordered : early.Pairwise (·.line < ·.line)) (lt : position < next) :
    error.line < other.line := by
  obtain ⟨statement, found, -, line⟩ := h
  obtain ⟨statement', found', -, line'⟩ := h'
  obtain ⟨bound, rfl⟩ := List.getElem?_eq_some_iff.mp found
  obtain ⟨bound', rfl⟩ := List.getElem?_eq_some_iff.mp found'
  rw [line, line']
  exact List.pairwise_iff_getElem.mp ordered position next bound bound' lt

/-! ### The first failure -/

/-- The first failure stays the first unless its label is supplied. -/
theorem FirstFailure.append (h : FirstFailure lines address early error)
    (short : ¬ Supplies more error.fault) :
    FirstFailure (lines ++ more) address (early ++ late) error := by
  obtain ⟨position, failsAt, first⟩ := h
  refine ⟨position, failsAt.append short, fun earlier lt other still => ?_⟩
  obtain ⟨other', before, -⟩ := still.of_append (Nat.lt_trans lt failsAt.lt_length)
  exact first earlier lt other' before

/-- If the label of the first failure is supplied, another statement that fails is on a later
line. -/
theorem FirstFailure.line_lt {next : Nat} {other : Error}
    (h : FirstFailure lines address early error) (supplied : Supplies more error.fault)
    (ordered : (early ++ late).Pairwise (·.line < ·.line))
    (h' : FailsAt (lines ++ more) address (early ++ late) next other) :
    error.line < other.line := by
  obtain ⟨position, failsAt, first⟩ := h
  have beyond : position < next := by
    by_contra le
    have inside : next < early.length :=
      Nat.lt_of_le_of_lt (Nat.le_of_not_lt le) failsAt.lt_length
    obtain ⟨other', before, short⟩ := h'.of_append inside
    rcases Nat.lt_or_eq_of_le (Nat.le_of_not_lt le) with lt | rfl
    · exact first next lt other' before
    · -- it is the same statement, which lacks nothing any more
      rw [failsAt.unique before] at supplied
      exact short supplied
  have here : FailsAt lines address (early ++ late) position error :=
    (failsAt_append_left failsAt.lt_length).mpr failsAt
  exact here.line_lt h' ordered beyond

/-- If no statement has failed, one that does is among those appended. -/
theorem FailsAt.exists_mem {next : Nat} {other : Error}
    (none : ∀ position error, ¬ FailsAt lines address early position error)
    (h' : FailsAt (lines ++ more) address (early ++ late) next other) :
    ∃ statement ∈ late, other.line = statement.line := by
  have beyond : early.length ≤ next := by
    by_contra lt
    obtain ⟨other', before, -⟩ := h'.of_append (Nat.lt_of_not_le lt)
    exact none next other' before
  obtain ⟨statement, found, -, line⟩ := h'
  rw [List.getElem?_append_right beyond] at found
  exact ⟨statement, List.mem_of_getElem? found, line⟩

end Statements

/-! ## The longer source -/

/-- A source assembles or has an error, of which something is known. -/
theorem ok_or_error {source : String} {P : Error → Prop}
    (h : ∀ error, assemble source = .error error → P error) :
    (∃ program, assemble source = .ok program) ∨
      ∃ error, assemble source = .error error ∧ P error := by
  cases result : assemble source with
  | ok program => exact .inl ⟨program, rfl⟩
  | error error => exact .inr ⟨error, rfl, h error result⟩

/-- **Errors are stable under appended text.** Let a source be followed by more text on a new line.

If the source fails, the longer one fails of the same on the same line, with one exception: the
error is an operand without a value, and the text defines a label that compares as that operand. The
longer source then assembles or fails on a later line. If the source assembles, the longer one
assembles or fails on a line behind those of the source. -/
theorem assemble_append (source text : String) :
    let whole := source ++ "\n" ++ text
    (∀ error, assemble source = .error error →
      ((∀ operand, error.fault ≠ .invalidOperand operand) → assemble whole = .error error) ∧
      ∀ operand, error.fault = .invalidOperand operand →
        ((¬ ∃ line ∈ sourceLines text.toList, line.Defines (labelKey operand.toList)) →
          assemble whole = .error error) ∧
        ((∃ line ∈ sourceLines text.toList, line.Defines (labelKey operand.toList)) →
          (∃ program, assemble whole = .ok program) ∨
            ∃ later, assemble whole = .error later ∧ error.line < later.line)) ∧
    ∀ program, assemble source = .ok program →
      (∃ longer, assemble whole = .ok longer) ∨
        ∃ error, assemble whole = .error error ∧
          (Text.lines source.toList).length < error.line := by
  intro whole
  obtain ⟨more, lines, below, labels⟩ := sourceLines_append source.toList text.toList
  have chars : whole.toList = source.toList ++ '\n' :: text.toList := by
    simp [whole]
  rw [← chars] at lines
  have rows : retained whole.toList = retained source.toList ++ statements more := by
    rw [← statements_sourceLines, lines, statements_append, statements_sourceLines]
  have ordered : (retained source.toList ++ statements more).Pairwise (·.line < ·.line) := by
    rw [← rows, ← statements_sourceLines]
    exact pairwise_line (pairwise_number whole.toList)
  have fails (error : Error) : assemble whole = .error error ↔
      FirstFailure (sourceLines source.toList ++ more) 0
        (retained source.toList ++ statements more) error := by
    rw [assemble_eq_error_iff, lines, rows]
  refine ⟨fun error failed => ?_, fun program assembled => ?_⟩
  · have first := assemble_eq_error_iff.mp failed
    refine ⟨fun other => (fails error).mpr (first.append ?_), fun operand fault => ⟨?_, ?_⟩⟩
    · rintro ⟨operand, fault, -⟩
      exact other operand fault
    · intro undefined
      refine (fails error).mpr (first.append ?_)
      rintro ⟨operand', fault', defined⟩
      rw [fault] at fault'
      cases fault'
      exact undefined ((labels _).mp defined)
    · intro defined
      have supplied : Supplies more error.fault := ⟨operand, fault, (labels _).mpr defined⟩
      refine ok_or_error fun later failed' => ?_
      obtain ⟨next, failsAt, -⟩ := (fails later).mp failed'
      exact first.line_lt supplied ordered failsAt
  · refine ok_or_error fun error failed => ?_
    have none : ∀ position error,
        ¬ FailsAt (sourceLines source.toList) 0 (retained source.toList) position error := by
      intro position error failsAt
      obtain ⟨first, failure⟩ := exists_firstFailure failsAt
      rw [assemble_eq_error_iff.mpr failure] at assembled
      cases assembled
    obtain ⟨next, failsAt, -⟩ := (fails error).mp failed
    obtain ⟨statement, mem, line⟩ := failsAt.exists_mem none
    obtain ⟨row, appended, read⟩ := List.mem_filterMap.mp mem
    rw [line, line_statement? read]
    exact below row appended

/-- A label that comes with the text and lets a later line fail, one that does not come, an error
that a label cannot mend, and a line that is not good behind one that is. -/
theorem assemble_append_label :
    let undefined : Error := { line := 1, fault := .invalidOperand "End" }
    let unknown : Error := { line := 2, fault := .unknownInstruction "HALT" }
    (assemble "jmp End" = .error undefined ∧
      (∃ line ∈ sourceLines "\nEND: add".toList, line.Defines (labelKey "End".toList)) ∧
      ∃ later, assemble ("jmp End" ++ "\n" ++ "\nEND: add") = .error later ∧ 1 < later.line) ∧
    assemble ("jmp End" ++ "\n" ++ "LDI 1 ; End:") = .error undefined ∧
    assemble ("LDI 2\r\nhalt" ++ "\n" ++ "halt: HLT") = .error unknown ∧
    ∃ error, assemble ("LDI 2\r" ++ "\n" ++ "halt") = .error error ∧ 1 < error.line := by
  intro undefined unknown
  have jump : assemble "jmp End" = .error undefined := by rfl
  have halt : assemble "LDI 2\r\nhalt" = .error unknown := by rfl
  have defined : ∃ line ∈ sourceLines "\nEND: add".toList,
      line.Defines (labelKey "End".toList) := by decide
  have comment : ¬ ∃ line ∈ sourceLines "LDI 1 ; End:".toList,
      line.Defines (labelKey "End".toList) := by decide
  refine ⟨⟨jump, defined, ?_⟩, ?_, ?_, ?_⟩
  · rcases (((assemble_append "jmp End" "\nEND: add").1 _ jump).2 "End" rfl).2 defined with
      ⟨program, assembled⟩ | later
    · cases assembled
    · exact later
  · exact (((assemble_append "jmp End" "LDI 1 ; End:").1 _ jump).2 "End" rfl).1 comment
  · exact ((assemble_append "LDI 2\r\nhalt" "halt: HLT").1 _ halt).1 (by simp [unknown])
  · obtain ⟨program, good⟩ : ∃ program, assemble "LDI 2\r" = .ok program := ⟨_, rfl⟩
    rcases (assemble_append "LDI 2\r" "halt").2 program good with ⟨longer, assembled⟩ | error
    · cases assembled
    · exact error

end NibbleComputer.Assembly
