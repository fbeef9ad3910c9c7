import NibbleComputer.CommandLine.Commands
import NibbleComputer.Proofs.Image.RoundTrip

/-!
# Two ways to run a source

A source can be run as it is, or be assembled to an image that is run then. Both ways put the same
words into memory, and so they print the same from the program on.

- `CommandLine.length_words_le`, `CommandLine.exists_load`: what has been read from a file fits
  into memory.
- `CommandLine.runProgram_of_loaded`: what running it prints.
- `CommandLine.Outcome.after`: the files after a command.
- `CommandLine.assembleFile_cases`: what assembling a file can come to.
- `CommandLine.run_assembled`: the two ways compared.
-/

namespace NibbleComputer.CommandLine

variable {files : Files} {name source image : String}

/-! ## Programs from files -/

theorem isSourceName_iff : isSourceName name = true ↔ ".asm".toList <:+ name.toList :=
  List.isSuffixOf_iff_suffix

theorem loadProgram_of_source (isSource : ".asm".toList <:+ name.toList) :
    loadProgram files name = (assembleSource files name).map .source := by
  rw [loadProgram, if_pos (isSourceName_iff.mpr isSource)]

theorem loadProgram_of_image (isImage : ¬ ".asm".toList <:+ name.toList) :
    loadProgram files name = ((Image.load files name).mapError .loadImage).map .image := by
  rw [loadProgram, if_neg (isSourceName_iff.not.mpr isImage)]

/-- A program from a file has no more words than memory has cells. -/
theorem length_words_le {loaded : Loaded} (read : loadProgram files name = .ok loaded) :
    loaded.words.length ≤ memorySize := by
  by_cases isSource : ".asm".toList <:+ name.toList
  · rw [loadProgram_of_source isSource] at read
    cases assembled : assembleSource files name with
    | error failure => rw [assembled] at read; cases read
    | ok program =>
      rw [assembled] at read
      cases read
      -- the words of a source fill memory
      rw [Loaded.words, Assembly.Program.words, List.length_map, Memory.length_toList]
      exact Nat.le_refl _
  · rw [loadProgram_of_image isSource] at read
    cases found : Image.load files name with
    | error error => rw [found] at read; cases read
    | ok nibbles =>
      rw [found] at read
      cases read
      rw [Loaded.words, List.length_map]
      exact Image.length_le_of_load found

/-- Memory refuses no program that has been read from a file. -/
theorem exists_load {loaded : Loaded} (read : loadProgram files name = .ok loaded) (m : Machine) :
    ∃ start, m.load loaded.words = .ok start := by
  have fits := Nat.not_lt_of_le (length_words_le read)
  rw [Machine.load, Memory.load, if_neg fits]
  exact ⟨_, rfl⟩

/-- A program that has been read from a file is run. -/
theorem runProgram_of_loaded {loaded : Loaded} (read : loadProgram files name = .ok loaded)
    {start : Machine} (load : Machine.initial.load loaded.words = .ok start) (maxTicks : UInt64)
    (trace json : Bool) :
    runProgram files name maxTicks trace json =
      .success (["🔧 Running: " ++ name, loaded.line] ++
        executionLines start maxTicks trace json) := by
  rw [runProgram, read]
  simp only [load]

/-- A file of which no program can be read is not run. -/
theorem runProgram_of_failure {failure : Failure} (read : loadProgram files name = .error failure)
    (maxTicks : UInt64) (trace json : Bool) :
    runProgram files name maxTicks trace json = .failure ["🔧 Running: " ++ name] failure := by
  rw [runProgram, read]

/-! ## Files after a command -/

/-- The files after a command. -/
def Outcome.after (outcome : Outcome) (files : Files) : Files :=
  { files with content? := outcome.content? files }

/-- A command that writes no file leaves all files as they are. -/
theorem Outcome.after_of_unsaved {outcome : Outcome} (unsaved : outcome.saved? = none) :
    outcome.after files = files := by
  have same : outcome.content? files = files.content? := by
    funext name
    simp only [Outcome.content?, unsaved]
  rw [Outcome.after, same]

theorem Outcome.content?_after {outcome : Outcome} {content : ByteArray}
    (saved : outcome.saved? = some (image, content)) (other : String) :
    (outcome.after files).content? other =
      if other = image then some content else files.content? other := by
  simp only [Outcome.after, Outcome.content?, saved]

theorem loadProgram_congr {other : Files} (same : files.content? name = other.content? name) :
    loadProgram files name = loadProgram other name := by
  have text := Files.readText_congr same
  rw [loadProgram, assembleSource, Image.load, text, loadProgram, assembleSource, Image.load]

/-- Arguments that ask for a command have its outcome. -/
theorem run_of_parse {arguments : List String} {command : Command}
    (asked : parse arguments = .ok command) (files : Files) :
    run arguments files = perform files command := by
  rw [run, asked]

/-! ## Assembling a file -/

/-- The text of a file cannot be read, or it does not assemble. -/
def Unassembled (files : Files) (source : String) : Prop :=
  (∃ error, files.readText source = .error error) ∨
    ∃ text error, files.readText source = .ok text ∧ Assembly.assemble text = .error error

theorem exists_of_unassembled (h : Unassembled files source) :
    ∃ failure, assembleSource files source = .error failure := by
  unfold assembleSource
  rcases h with ⟨error, unread⟩ | ⟨text, error, read, failed⟩
  · rw [unread]
    exact ⟨_, rfl⟩
  · rw [read]
    simp only [failed]
    exact ⟨_, rfl⟩

theorem exists_of_assembleSource {program : Assembly.Program}
    (assembled : assembleSource files source = .ok program) :
    ∃ text, files.readText source = .ok text ∧ Assembly.assemble text = .ok program := by
  unfold assembleSource at assembled
  split at assembled
  · cases assembled
  · next text read =>
    cases result : Assembly.assemble text with
    | error error => rw [result] at assembled; cases assembled
    | ok other =>
      rw [result] at assembled
      cases assembled
      exact ⟨text, read, result⟩

/-- Assembling a source to an image fails over the source or over the image, with no file written,
or it writes the text of the memory image. -/
theorem assembleFile_cases (files : Files) (source image : String) :
    let outcome := assembleFile files source (some image)
    (∃ failure, assembleSource files source = .error failure ∧ outcome = .failure [] failure) ∨
    (∃ program error, assembleSource files source = .ok program ∧
      outcome = .failure (programLines program) (.saveImage error)) ∨
    ∃ program text, assembleSource files source = .ok program ∧
      Image.render program.code.toList = .ok text ∧ outcome.exit = 0 ∧
      outcome.saved? = some (image, text.toUTF8) := by
  intro outcome
  unfold outcome assembleFile
  cases assembleSource files source with
  | error failure => exact .inl ⟨failure, rfl, rfl⟩
  | ok program =>
    right
    dsimp only
    cases saved : Image.save files image program.code.toList with
    | error error => exact .inl ⟨program, error, rfl, rfl⟩
    | ok after =>
      obtain ⟨text, rendered, written⟩ := Image.write_of_save saved
      have content : after.content? image = some text.toUTF8 := by
        rw [Files.content?_write written, if_pos rfl]
      refine .inr ⟨program, text, rfl, rendered, rfl, ?_⟩
      dsimp only
      rw [content]
      rfl

/-- A source that assembles is assembled to every image that can be written. -/
theorem exit_assembleFile {text : String} {program : Assembly.Program}
    (read : files.readText source = .ok text) (assembled : Assembly.assemble text = .ok program)
    (writable : files.writable image = true) :
    (assembleFile files source (some image)).exit = 0 := by
  have fits : program.code.toList.length ≤ memorySize := by
    rw [Memory.length_toList]
    exact Nat.le_refl _
  obtain ⟨-, after, -, -, stored⟩ := Image.store_of_le fits writable
  have saved : Image.save files image program.code.toList = .ok after := by
    rw [Image.save, stored]
    rfl
  simp only [assembleFile, assembleSource, read, assembled, Except.mapError, saved]
  rfl

/-! ## The two ways compared -/

/-- Assembling a source changes no file but the image. -/
theorem content?_after_assembleFile {other : String} (ne : other ≠ image) :
    ((assembleFile files source (some image)).after files).content? other =
      files.content? other := by
  rcases assembleFile_cases files source image with
    ⟨failure, -, failed⟩ | ⟨program, error, -, failed⟩ | ⟨program, text, -, -, -, saved⟩
  · rw [failed, Outcome.after_of_unsaved rfl]
  · rw [failed, Outcome.after_of_unsaved rfl]
  · rw [Outcome.content?_after saved, if_neg ne]

/-- The image that assembling a source has written is read as the memory image of the program. -/
theorem load_after_assembleFile {program : Assembly.Program} {text : String}
    (rendered : Image.render program.code.toList = .ok text)
    (saved : (assembleFile files source (some image)).saved? = some (image, text.toUTF8)) :
    Image.load ((assembleFile files source (some image)).after files) image =
      .ok program.code.toList := by
  have content : ((assembleFile files source (some image)).after files).content? image =
      some text.toUTF8 := by
    rw [Outcome.content?_after saved, if_pos rfl]
  rw [Image.load, Files.readText_of_content content]
  exact Image.parse_of_render rendered

/-- Running a source prints the same as running an image that holds its memory image, except for the
name and the size of the program. -/
theorem runProgram_source_image {program : Assembly.Program}
    (isSource : ".asm".toList <:+ source.toList) (isImage : ¬ ".asm".toList <:+ image.toList)
    (assembled : assembleSource files source = .ok program)
    (saved : Image.load files image = .ok program.code.toList) (maxTicks : UInt64)
    (trace json : Bool) :
    ∃ lines,
      runProgram files source maxTicks trace json = .success
        (["🔧 Running: " ++ source, "📝 Assembled " ++ Text.decimal program.size ++ " nibbles"] ++
          lines) ∧
      runProgram files image maxTicks trace json = .success
        (["🔧 Running: " ++ image, "📂 Loaded 16 nibbles"] ++ lines) := by
  have fromSource : loadProgram files source = .ok (.source program) := by
    rw [loadProgram_of_source isSource, assembled]
    rfl
  have fromImage : loadProgram files image = .ok (.image program.code.toList) := by
    rw [loadProgram_of_image isImage, saved]
    rfl
  have size : (Loaded.image program.code.toList).line = "📂 Loaded 16 nibbles" := by
    show "📂 Loaded " ++ Text.decimal program.code.toList.length ++ " nibbles" = _
    rw [Memory.length_toList]
    decide
  -- both are the same words of memory
  obtain ⟨start, load⟩ := exists_load fromSource Machine.initial
  refine ⟨executionLines start maxTicks trace json,
    runProgram_of_loaded fromSource load maxTicks trace json, ?_⟩
  rw [runProgram_of_loaded fromImage load maxTicks trace json, size]

/-- **The two ways to run a source agree.** If assembling a source to an image succeeds, then
running the image and running the source with the same settings succeed and print the same, except
for the two lines with the name and the size. If the source cannot be read as text or does not
assemble, both ways fail alike. And memory never refuses a program that has been read. -/
theorem run_assembled (files : Files) {asmArguments sourceArguments imageArguments : List String}
    {source image : String} {maxTicks : UInt64} {trace json : Bool}
    (asm : parse asmArguments = .ok (.assemble source (some image)))
    (runSource : parse sourceArguments = .ok (.run source maxTicks trace json))
    (runImage : parse imageArguments = .ok (.run image maxTicks trace json))
    (isSource : ".asm".toList <:+ source.toList) (isImage : ¬ ".asm".toList <:+ image.toList) :
    let assembling := run asmArguments files
    let after := assembling.after files
    run sourceArguments after = run sourceArguments files ∧
    (assembling.exit = 0 → ∃ text program lines,
      files.readText source = .ok text ∧ Assembly.assemble text = .ok program ∧
      run sourceArguments after = .success
        (["🔧 Running: " ++ source, "📝 Assembled " ++ Text.decimal program.size ++ " nibbles"] ++
          lines) ∧
      run imageArguments after = .success
        (["🔧 Running: " ++ image, "📂 Loaded 16 nibbles"] ++ lines)) ∧
    (Unassembled files source →
      assembling.exit = 1 ∧ (run sourceArguments after).exit = 1 ∧
        (run sourceArguments after).stderr = assembling.stderr) ∧
    ∀ (others : Files) name loaded, loadProgram others name = .ok loaded →
      ∀ m : Machine, ∃ start, m.load loaded.words = .ok start := by
  intro assembling after
  have assembles : assembling = assembleFile files source (some image) := run_of_parse asm files
  have runsSource (files : Files) :
      run sourceArguments files = runProgram files source maxTicks trace json :=
    run_of_parse runSource files
  have runsImage (files : Files) :
      run imageArguments files = runProgram files image maxTicks trace json :=
    run_of_parse runImage files
  have ne : source ≠ image := by
    rintro rfl
    exact isImage isSource
  have kept : after.content? source = files.content? source := by
    unfold after
    rw [assembles]
    exact content?_after_assembleFile ne
  have reads := loadProgram_congr kept
  refine ⟨?_, ?_, ?_, ?_⟩
  · rw [runsSource, runsSource, runProgram, reads, runProgram]
  · intro succeeds
    rcases assembleFile_cases files source image with
      ⟨failure, -, failed⟩ | ⟨program, error, -, failed⟩ | ⟨program, image', ok, rendered, -, saved⟩
    · rw [assembles, failed] at succeeds
      cases succeeds
    · rw [assembles, failed] at succeeds
      cases succeeds
    -- the image holds what the source has been assembled to, and the source is as it was
    have loaded := load_after_assembleFile rendered saved
    rw [← assembles] at loaded
    have ok' : assembleSource after source = .ok program := by
      rw [assembleSource, Files.readText_congr kept, ← assembleSource, ok]
    obtain ⟨text, read, result⟩ := exists_of_assembleSource ok
    obtain ⟨lines, fromSource, fromImage⟩ :=
      runProgram_source_image isSource isImage ok' loaded maxTicks trace json
    exact ⟨text, program, lines, read, result, (runsSource after).trans fromSource,
      (runsImage after).trans fromImage⟩
  · intro unassembled
    obtain ⟨failure, failed⟩ := exists_of_unassembled unassembled
    have refused : loadProgram after source = .error failure := by
      rw [reads, loadProgram_of_source isSource, failed]
      rfl
    have stopped : assembling = .failure [] failure := by
      rw [assembles, assembleFile, failed]
    rw [runsSource, runProgram_of_failure refused, stopped]
    exact ⟨rfl, rfl, rfl⟩
  · intro others name loaded read m
    exact exists_load read m

/-- A source that is assembled and run with a trace, and one without the operand that it needs. -/
theorem run_assembled_traced :
    let files := Files.ofContents [("p.asm", "LDI 1\nOUT\nHLT".toUTF8), ("q.asm", "LDI".toUTF8)]
    let assembling := run ["asm", "p.asm", "-o", "p.img"] files
    let failing := run ["asm", "-oq.img", "q.asm"] files
    (assembling.exit = 0 ∧ ∃ size lines,
      run ["run", "p.asm", "-t"] (assembling.after files) =
        .success (["🔧 Running: p.asm", size] ++ lines) ∧
      run ["run", "-t", "p.img"] (assembling.after files) =
        .success (["🔧 Running: p.img", "📂 Loaded 16 nibbles"] ++ lines)) ∧
    failing.exit = 1 ∧ (run ["run", "q.asm"] (failing.after files)).stderr = failing.stderr := by
  intro files assembling failing
  have read : files.readText "p.asm" = .ok "LDI 1\nOUT\nHLT" := Files.readText_of_content rfl
  have read' : files.readText "q.asm" = .ok "LDI" := Files.readText_of_content rfl
  obtain ⟨program, result⟩ : ∃ program, Assembly.assemble "LDI 1\nOUT\nHLT" = .ok program :=
    ⟨_, rfl⟩
  obtain ⟨error, result'⟩ : ∃ error, Assembly.assemble "LDI" = .error error := ⟨_, rfl⟩
  have asm : parse ["asm", "p.asm", "-o", "p.img"] = .ok (.assemble "p.asm" (some "p.img")) := rfl
  have asm' : parse ["asm", "-oq.img", "q.asm"] = .ok (.assemble "q.asm" (some "q.img")) := rfl
  have runSource : parse ["run", "p.asm", "-t"] = .ok (.run "p.asm" 1000 true false) := rfl
  have runImage : parse ["run", "-t", "p.img"] = .ok (.run "p.img" 1000 true false) := rfl
  have runSource' : parse ["run", "q.asm"] = .ok (.run "q.asm" 1000 false false) := rfl
  have runImage' : parse ["run", "q.img"] = .ok (.run "q.img" 1000 false false) := rfl
  have succeeds : assembling.exit = 0 :=
    (congrArg Outcome.exit (run_of_parse asm files)).trans
      (exit_assembleFile read result (by decide))
  obtain ⟨-, agree, -⟩ := run_assembled files asm runSource runImage (by decide) (by decide)
  obtain ⟨-, -, fail, -⟩ := run_assembled files asm' runSource' runImage' (by decide) (by decide)
  obtain ⟨-, other, lines, -, -, fromSource, fromImage⟩ := agree succeeds
  obtain ⟨exit, -, same⟩ := fail (.inr ⟨_, error, read', result'⟩)
  exact ⟨⟨succeeds, _, lines, fromSource, fromImage⟩, exit, same⟩

end NibbleComputer.CommandLine
