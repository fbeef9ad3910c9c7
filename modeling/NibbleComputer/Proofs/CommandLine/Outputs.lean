import NibbleComputer.Proofs.CommandLine.Running
import NibbleComputer.Proofs.Machine.Outputs

/-!
# The output lines of a run

Between its headings, the command that runs a program prints a line for every value that the program
displays. With a trace there are lines for all instructions among them, but none of these can be
taken for an output line, since it begins with an address.

- `CommandLine.IsOutLine`: the lines that show a value.
- `CommandLine.sectionLines`, `CommandLine.executionLines_eq`: the lines between the headings.
- `CommandLine.filter_reportLines`: the output lines of some reports.
- `CommandLine.run_outputs`: the output lines of a run.
-/

namespace NibbleComputer.CommandLine

/-- A line that shows a value. -/
def IsOutLine (line : String) : Prop :=
  "OUT: ".toList <+: line.toList

instance : DecidablePred IsOutLine :=
  fun _ => inferInstanceAs (Decidable (_ <+: _))

/-- The lines of a run between the two headings: those of its reports. -/
def sectionLines (start : Machine) (maxTicks : UInt64) (trace : Bool) : List String :=
  (start.reportsTo maxTicks).flatMap (reportLines trace)

/-- The lines of a run are those between the headings, and the result. -/
theorem executionLines_eq (start : Machine) (maxTicks : UInt64) (trace json : Bool) :
    ∃ result, executionLines start maxTicks trace json =
      ["", "━━━ Execution ━━━"] ++ sectionLines start maxTicks trace ++
        ["", "━━━ Result ━━━"] ++ result := by
  let final := start.runTo maxTicks
  refine ⟨resultLines final ++ (if json then [final.snapshot .pretty] else []) ++
    if final.halted then []
    else ["", "⚠️  Reached max ticks limit (" ++ toString maxTicks ++
      "). Use --max-ticks to increase."], ?_⟩
  simp only [executionLines, sectionLines, final, List.append_assoc]

/-! ## The lines of a report -/

theorem isOutLine_outLine (value : Nibble) : IsOutLine (outLine value) := by
  simp only [IsOutLine, outLine, String.toList_append, List.append_assoc]
  exact List.prefix_append _ _

/-- A line of a trace begins with an address, which is a digit. -/
theorem not_isOutLine_traceLine (report : Machine.Report) : ¬ IsOutLine (traceLine report) := by
  have digit : ∀ address : Nibble,
      address.hex.toList ≠ [] ∧ address.hex.toList.head? ≠ some 'O' := by
    decide
  obtain ⟨nonempty, first⟩ := digit report.address
  intro begins
  simp only [IsOutLine, traceLine, String.toList_append, List.append_assoc] at begins
  obtain ⟨c, rest, address⟩ := List.exists_cons_of_ne_nil nonempty
  rw [address] at begins first
  exact first (congrArg some (List.cons_prefix_cons.mp begins).1.symm)

/-- The output lines among those of a report. -/
theorem filter_reportLines (trace : Bool) (report : Machine.Report) :
    (reportLines trace report).filter IsOutLine = reportLines false report := by
  have traced : (if trace then [traceLine report] else []).filter
      (fun line => IsOutLine line) = [] := by
    cases trace with
    | false => rfl
    | true => simp [not_isOutLine_traceLine]
  rw [reportLines, List.filter_append, traced, List.nil_append, reportLines]
  by_cases output : report.opcode = .out
  · simp [output, isOutLine_outLine]
  · simp [output]

/-- Without a trace there is a line for every report of an output instruction, and no other. -/
theorem flatMap_reportLines (reports : List Machine.Report) :
    reports.flatMap (reportLines false) =
      (reports.filter fun report => report.opcode = .out).map fun report =>
        outLine report.after.registers.out := by
  induction reports with
  | nil => rfl
  | cons report reports ih =>
    rw [List.flatMap_cons, ih]
    by_cases output : report.opcode = .out
    · simp [reportLines, output]
    · simp [reportLines, output]

/-! ## The lines of a run -/

/-- Without a trace, the lines between the headings are those of the values that the instruction set
displays. -/
theorem sectionLines_false {start : Machine} (running : start.halted = false)
    (first : start.step = 0) (fresh : start.ticks = 0) (maxTicks : UInt64) :
    sectionLines start maxTicks false =
      (start.visible.displayed maxTicks.toNat).map outLine := by
  rw [sectionLines, flatMap_reportLines, ← Machine.outputs_reportsTo running first fresh,
    List.map_map]
  rfl

/-- A trace adds lines, but no output lines. -/
theorem filter_sectionLines (start : Machine) (maxTicks : UInt64) (trace : Bool) :
    (sectionLines start maxTicks trace).filter IsOutLine = sectionLines start maxTicks false := by
  rw [sectionLines, List.filter_flatMap]
  simp only [filter_reportLines]
  rfl

/-- A machine into which a program has been loaded is a new one with other memory. -/
theorem load_initial_parts {words : List UInt8} {start : Machine}
    (loaded : Machine.initial.load words = .ok start) :
    start = { Machine.initial with memory := start.memory } := by
  unfold Machine.load at loaded
  cases result : Machine.initial.memory.load words with
  | error error => rw [result] at loaded; cases loaded
  | ok memory => rw [result] at loaded; cases loaded; rfl

/-- **The output lines of a run are the values that its program displays.** Running a program from a
file succeeds. Of the lines that it prints between its headings, those that show a value show, in
order, what the accumulator held where each output instruction of the instruction set began, in the
run from the machine into which the program has been loaded, as far as eight ticks for every
instruction stay within the limit. Without a trace these are all the lines, and a trace adds others
among them. -/
theorem run_outputs (files : Files) {arguments : List String} {name : String} {maxTicks : UInt64}
    {trace json : Bool} {loaded : Loaded}
    (asked : parse arguments = .ok (.run name maxTicks trace json))
    (read : loadProgram files name = .ok loaded) :
    ∃ start result, Machine.initial.load loaded.words = .ok start ∧
      let lines := sectionLines start maxTicks trace
      let outputs := (start.visible.displayed maxTicks.toNat).map outLine
      run arguments files = .success
        (["🔧 Running: " ++ name, loaded.line, "", "━━━ Execution ━━━"] ++ lines ++
          ["", "━━━ Result ━━━"] ++ result) ∧
      lines.filter IsOutLine = outputs ∧
      (trace = false → lines = outputs) ∧ outputs.Sublist lines := by
  obtain ⟨start, load⟩ := exists_load read Machine.initial
  obtain ⟨result, printed⟩ := executionLines_eq start maxTicks trace json
  have outputs : sectionLines start maxTicks false =
      (start.visible.displayed maxTicks.toNat).map outLine := by
    refine sectionLines_false ?_ ?_ ?_ maxTicks
    all_goals rw [load_initial_parts load]; rfl
  refine ⟨start, result, load, ?_⟩
  intro lines values
  have shown : lines.filter IsOutLine = values :=
    (filter_sectionLines start maxTicks trace).trans outputs
  refine ⟨?_, shown, ?_, ?_⟩
  · rw [run_of_parse asked]
    refine (runProgram_of_loaded read load maxTicks trace json).trans ?_
    rw [printed]
    rfl
  · intro plain
    show sectionLines start maxTicks trace = _
    rw [plain]
    exact outputs
  · rw [← shown]
    exact List.filter_sublist

/-- A program that displays zero, makes an output instruction of the cell behind its store, and
comes to it and to another one. The limit cuts off the last. -/
theorem run_outputs_self_made :
    let files := Files.ofContents [("p.img", "E\n5\nE\n4\n5\n0\nE\nF\n".toUTF8)]
    let start : Machine := { memory := Memory.blank.fill [14, 5, 14, 4, 5, 0, 14, 15] }
    ∃ result, run ["run", "-tm39", "p.img"] files = .success
        (["🔧 Running: p.img", "📂 Loaded 8 nibbles", "", "━━━ Execution ━━━"] ++
          sectionLines start 39 true ++ ["", "━━━ Result ━━━"] ++ result) ∧
      (sectionLines start 39 true).filter IsOutLine = [outLine 0, outLine 14] := by
  intro files start
  have asked : parse ["run", "-tm39", "p.img"] = .ok (.run "p.img" 39 true false) := rfl
  have read : loadProgram files "p.img" = .ok (.image [14, 5, 14, 4, 5, 0, 14, 15]) := by
    have text : files.readText "p.img" = .ok "E\n5\nE\n4\n5\n0\nE\nF\n" :=
      Files.readText_of_content rfl
    have image : Image.load files "p.img" = .ok [14, 5, 14, 4, 5, 0, 14, 15] := by
      rw [Image.load, text]
      rfl
    rw [loadProgram_of_image (by decide), image]
    rfl
  obtain ⟨other, result, load, printed, shown, -⟩ := run_outputs files asked read
  obtain rfl : start = other := Except.ok.inj (Eq.trans (by rfl) load)
  have values : start.visible.displayed 39 = [0, 14] := by decide +kernel
  exact ⟨result, printed, shown.trans (congrArg (List.map outLine) values)⟩

end NibbleComputer.CommandLine
