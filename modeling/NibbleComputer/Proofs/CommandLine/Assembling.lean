import NibbleComputer.Proofs.CommandLine.Running

/-!
# Assembling a file is all or nothing

The command that assembles a source to an image touches no file before it has the whole image. It
then creates the image file, which empties one that is there, and writes line after line. If
anything fails, it has failed before that, and all files are as they were.

- `Files.create`, `Files.append`: the steps in which a file is written.
- `Image.writeLines`, `Image.writeLines_eq_store`: an image written step by step.
- `CommandLine.assembleSteps`: the files after the steps of the command.
- `CommandLine.Explains`: why the command has failed.
- `CommandLine.run_assemble`: what the command leaves behind.
-/

namespace NibbleComputer

/-! ## Writing a file step by step -/

namespace Files

variable {files created : Files} {name : String}

/-- A file is created without content, in the place of one that is there. If that is not possible,
nothing happens. -/
def create (files : Files) (name : String) : Except Error Files :=
  files.write name .empty

/-- More content behind that of a file. -/
def append (files : Files) (name : String) (content : ByteArray) : Files :=
  { files with
    content? := fun other =>
      if other = name then (files.content? name).map (· ++ content) else files.content? other }

/-- The same contents under the same names. -/
theorem ext_content {others : Files} (content : ∀ name, files.content? name = others.content? name)
    (writable : files.writable = others.writable) : files = others := by
  cases files
  cases others
  obtain rfl := funext content
  obtain rfl := writable
  rfl

@[simp] theorem append_empty (files : Files) (name : String) :
    files.append name .empty = files := by
  refine ext_content (fun other => ?_) rfl
  by_cases here : other = name
  · subst here
    simp [append, ByteArray.append_empty]
  · simp [append, here]

theorem append_append (files : Files) (name : String) (early late : ByteArray) :
    (files.append name early).append name late = files.append name (early ++ late) := by
  refine ext_content (fun other => ?_) rfl
  by_cases here : other = name
  · subst here
    simp [append, Function.comp_def, ByteArray.append_assoc]
  · simp [append, here]

/-- What is appended to a file that has just been created is its content. -/
theorem write_of_create (done : files.create name = .ok created) (content : ByteArray) :
    files.write name content = .ok (created.append name content) := by
  unfold create write at done
  split at done
  · next writable =>
    cases done
    rw [write, if_pos writable, append]
    congr 2
    funext other
    by_cases here : other = name
    · simp [here, ByteArray.empty_append]
    · simp [here]
  · cases done

theorem writable_of_create (done : files.create name = .ok created) :
    files.writable name = true := by
  unfold create write at done
  split at done
  · assumption
  · cases done

/-- A write leaves open what can be written. -/
theorem writable_write {content : ByteArray} (done : files.write name content = .ok created) :
    created.writable = files.writable := by
  unfold write at done
  split at done
  · cases done
    rfl
  · cases done

theorem write_of_not_create {reason : Error} (failed : files.create name = .error reason)
    (content : ByteArray) : files.write name content = .error reason := by
  unfold create write at failed
  split at failed
  · cases failed
  · next readonly =>
    rw [write, if_neg readonly]
    exact failed

/-- Lines that are appended one after the other make up their text. -/
theorem foldl_append (files : Files) (name : String) (lines : List String) :
    lines.foldl (fun files line => files.append name (line ++ "\n").toUTF8) files =
      files.append name (Text.unlines lines).toUTF8 := by
  induction lines generalizing files with
  | nil => exact (append_empty files name).symm
  | cons line lines ih =>
    have text : Text.unlines (line :: lines) = line ++ "\n" ++ Text.unlines lines := by
      apply String.toList_inj.mp
      simp
    rw [List.foldl_cons, ih, append_append, text]
    rfl

end Files

namespace Image

/-- An image is written step by step: its number of nibbles is looked at, the file is created, and
the lines are appended one after the other. -/
def writeLines (files : Files) (name : String) (nibbles : List Nibble) :
    Files × Except Error Unit :=
  if memorySize < nibbles.length then (files, .error (.tooLarge nibbles.length))
  else match files.create name with
    | .error reason => (files, .error (.io reason))
    | .ok created =>
      let lines := header nibbles.length ++ renderLines 0 nibbles
      (lines.foldl (fun files line => files.append name (line ++ "\n").toUTF8) created, .ok ())

/-- The steps come to writing the whole text at once. -/
theorem writeLines_eq_store (files : Files) (name : String) (nibbles : List Nibble) :
    writeLines files name nibbles = store files name nibbles := by
  by_cases fits : nibbles.length ≤ memorySize
  · rw [writeLines, if_neg (Nat.not_lt_of_le fits), store, render_of_le fits]
    cases made : files.create name with
    | error reason => simp only [Files.write_of_not_create made]
    | ok created => simp only [Files.write_of_create made, Files.foldl_append]
  · have long := Nat.lt_of_not_le fits
    rw [writeLines, if_pos long, store_of_lt long]

end Image

namespace CommandLine

variable {files created : Files} {source image : String} {program : Assembly.Program}

/-! ## The steps of the command -/

/-- The files after the steps of the command: the source is read and assembled as a whole, and only
then is the image written step by step. -/
def assembleSteps (files : Files) (source image : String) : Files :=
  match assembleSource files source with
  | .error _ => files
  | .ok program => (Image.writeLines files image program.code.toList).1

/-- A message that tells what has gone wrong first. -/
inductive Explains (files : Files) (source image : String) : String → Prop where
  /-- The source could not be read as text. -/
  | unread {error : Files.Error} (unread : files.readText source = .error error) :
    Explains files source image ("Failed to read file: " ++ error.message)
  /-- The source did not assemble. The message ends with the number of the line. -/
  | unassembled {text detail : String} {error : Assembly.Error}
    (read : files.readText source = .ok text) (failed : Assembly.assemble text = .error error)
    (message : error.message = detail ++ " at line " ++ Text.decimal error.line) :
    Explains files source image ("Assembly error: " ++ error.message)
  /-- The image file could not be created. -/
  | unsaved {text : String} {program : Assembly.Program} {reason : Files.Error}
    (read : files.readText source = .ok text) (assembled : Assembly.assemble text = .ok program)
    (uncreated : files.create image = .error reason) :
    Explains files source image ("Failed to save image: I/O error: " ++ reason.message)

/-- Every message of an assembly error ends with its line. -/
theorem exists_message (error : Assembly.Error) :
    ∃ detail, error.message = detail ++ " at line " ++ Text.decimal error.line := by
  obtain ⟨line, fault⟩ := error
  cases fault <;> exact ⟨_, String.append_assoc.symm⟩

/-- A source fails to assemble because it could not be read or because of an assembly error. -/
theorem explains_of_assembleSource {failure : Failure}
    (failed : assembleSource files source = .error failure) (image : String) :
    Explains files source image failure.message := by
  unfold assembleSource at failed
  split at failed
  · next error unread =>
    cases failed
    exact .unread unread
  · next text read =>
    cases result : Assembly.assemble text with
    | ok program => rw [result] at failed; cases failed
    | error error =>
      rw [result] at failed
      cases failed
      obtain ⟨detail, message⟩ := exists_message error
      exact .unassembled read result message

/-- If the image file can be created, it comes to hold the image. -/
theorem assembleFile_of_create (ok : assembleSource files source = .ok program)
    (made : files.create image = .ok created) :
    let outcome := assembleFile files source (some image)
    let after := outcome.after files
    outcome.exit = 0 ∧ outcome.stderr = "" ∧
      after = (Image.writeLines files image program.code.toList).1 ∧
      Image.load after image = .ok program.code.toList := by
  intro outcome after
  have fits : program.code.toList.length ≤ memorySize := by
    rw [Memory.length_toList]
    exact Nat.le_refl _
  obtain ⟨text, written, rendered, write, stored⟩ :=
    Image.store_of_le fits (Files.writable_of_create made)
  have content : written.content? image = some text.toUTF8 := by
    rw [Files.content?_write write, if_pos rfl]
  have shape : outcome =
      { Outcome.success (programLines program ++ ["✓ Saved to " ++ image]) with
        saved? := some (image, text.toUTF8) } := by
    unfold outcome
    simp only [assembleFile, ok, Image.save, stored, Except.map, content, Option.map_some]
  have all : after = written := by
    refine Files.ext_content (fun other => ?_) (Files.writable_write write).symm
    unfold after
    rw [Outcome.content?_after (congrArg Outcome.saved? shape), Files.content?_write write]
  refine ⟨congrArg Outcome.exit shape, congrArg Outcome.stderr shape, ?_, ?_⟩
  · rw [all, Image.writeLines_eq_store, stored]
  · rw [all, Image.load, Files.readText_of_content content]
    exact Image.parse_of_render rendered

/-- If it cannot be created, nothing happens to the files. -/
theorem assembleFile_of_not_create (ok : assembleSource files source = .ok program)
    {reason : Files.Error} (failed : files.create image = .error reason) :
    assembleFile files source (some image) =
        .failure (programLines program) (.saveImage (.io reason)) ∧
      Image.writeLines files image program.code.toList = (files, .error (.io reason)) := by
  have fits : ¬ memorySize < program.code.toList.length := by
    rw [Memory.length_toList]
    exact Nat.lt_irrefl _
  have steps : Image.writeLines files image program.code.toList = (files, .error (.io reason)) := by
    rw [Image.writeLines, if_neg fits, failed]
  refine ⟨?_, steps⟩
  rw [assembleFile, ok]
  simp only [Image.save, ← Image.writeLines_eq_store, steps, Except.map]

/-! ## The main result -/

/-- **Assembling a file is all or nothing.** Whatever the files hold, the command that assembles a
source to an image leaves the files as its steps do, and its exit code is 0 or 1. If it is 0, the
source has been read and assembled, the image file is loaded as the sixteen nibbles of the program,
other files are as they were, and there is no message. If it is 1, all files are as they were, and
there is one message, which tells what has gone wrong: that the source could not be read, or on
which line it could not be assembled, or that the image file could not be created. Nothing is
printed unless the source has been assembled. -/
theorem run_assemble (files : Files) {arguments : List String} {source image : String}
    (asked : parse arguments = .ok (.assemble source (some image))) :
    let outcome := run arguments files
    let after := outcome.after files
    after = assembleSteps files source image ∧
      (outcome.exit = 0 ∨ outcome.exit = 1) ∧
      (outcome.exit = 0 → ∃ text program,
        files.readText source = .ok text ∧ Assembly.assemble text = .ok program ∧
          Image.load after image = .ok program.code.toList ∧ program.code.toList.length = 16 ∧
          (∀ other, other ≠ image → after.content? other = files.content? other) ∧
          outcome.stderr = "") ∧
      (outcome.exit = 1 → after = files ∧
        ∃ message, outcome.stderr = Text.unlines ["❌ " ++ message] ∧
          Explains files source image message) ∧
      (outcome.stdout ≠ "" → ∃ text program,
        files.readText source = .ok text ∧ Assembly.assemble text = .ok program) := by
  intro outcome after
  have assembles : outcome = assembleFile files source (some image) := run_of_parse asked files
  have others (other : String) (ne : other ≠ image) :
      after.content? other = files.content? other := by
    unfold after
    rw [assembles]
    exact content?_after_assembleFile ne
  cases ok : assembleSource files source with
  | error failure =>
    have shape : outcome = .failure [] failure := by rw [assembles, assembleFile, ok]
    have kept : after = files := by
      unfold after
      rw [shape, Outcome.after_of_unsaved rfl]
    have explained := explains_of_assembleSource ok image
    rw [shape]
    refine ⟨?_, .inr rfl, ?_, fun _ => ⟨kept, _, rfl, explained⟩, fun printed => ?_⟩
    · rw [kept, assembleSteps, ok]
    · rintro ⟨⟩
    · exact absurd rfl printed
  | ok program =>
    obtain ⟨text, read, assembled⟩ := exists_of_assembleSource ok
    cases made : files.create image with
    | ok created =>
      obtain ⟨exit, silent, steps, loaded⟩ := assembleFile_of_create ok made
      rw [← assembles] at exit silent steps loaded
      refine ⟨?_, .inl exit, fun _ => ⟨text, program, read, assembled, loaded,
        program.code.length_toList, others, silent⟩, ?_, fun _ => ⟨text, program, read, assembled⟩⟩
      · rw [assembleSteps, ok]
        exact steps
      · intro fails
        rw [exit] at fails
        cases fails
    | error reason =>
      obtain ⟨failed, steps⟩ := assembleFile_of_not_create ok made
      have shape := assembles.trans failed
      have kept : after = files := by
        unfold after
        rw [shape, Outcome.after_of_unsaved rfl]
      have message : (Failure.saveImage (.io reason)).message =
          "Failed to save image: I/O error: " ++ reason.message := String.append_assoc.symm
      rw [shape]
      refine ⟨?_, .inr rfl, ?_, fun _ => ⟨kept, _, ?_, .unsaved read assembled made⟩,
        fun _ => ⟨text, program, read, assembled⟩⟩
      · rw [kept, assembleSteps, ok]
        exact (congrArg Prod.fst steps).symm
      · rintro ⟨⟩
      · rw [← message]
        rfl

/-- A source that is replaced by its own image, a source without the operand that it needs beside an
image that is kept, and an image in a directory that is not there. -/
theorem run_assemble_kept :
    let files := Files.ofContents
      [("p.asm", "LDI 1\nHLT".toUTF8), ("q.asm", "LDI".toUTF8), ("p.img", "F".toUTF8)]
    let replacing := run ["asm", "p.asm", "-o", "p.asm"] files
    let failing := run ["asm", "q.asm", "-op.img"] files
    let missing := run ["asm", "--output=d/p.img", "p.asm"] files
    (replacing.exit = 0 ∧ ∃ program, Assembly.assemble "LDI 1\nHLT" = .ok program ∧
      Image.load (replacing.after files) "p.asm" = .ok program.code.toList) ∧
    (failing.exit = 1 ∧ failing.after files = files ∧ failing.stdout = "") ∧
    missing.exit = 1 ∧ missing.after files = files := by
  intro files replacing failing missing
  have read : files.readText "p.asm" = .ok "LDI 1\nHLT" := Files.readText_of_content rfl
  have read' : files.readText "q.asm" = .ok "LDI" := Files.readText_of_content rfl
  obtain ⟨program, result⟩ : ∃ program, Assembly.assemble "LDI 1\nHLT" = .ok program := ⟨_, rfl⟩
  obtain ⟨error, result'⟩ : ∃ error, Assembly.assemble "LDI" = .error error := ⟨_, rfl⟩
  have asked : parse ["asm", "p.asm", "-o", "p.asm"] = .ok (.assemble "p.asm" (some "p.asm")) := rfl
  have asked' : parse ["asm", "q.asm", "-op.img"] = .ok (.assemble "q.asm" (some "p.img")) := rfl
  have asked'' : parse ["asm", "--output=d/p.img", "p.asm"] =
      .ok (.assemble "p.asm" (some "d/p.img")) := rfl
  have exit : replacing.exit = 0 :=
    (congrArg Outcome.exit (run_of_parse asked files)).trans
      (exit_assembleFile read result (by decide))
  obtain ⟨-, -, done, -⟩ := run_assemble files asked
  obtain ⟨-, code, done', failed, prints⟩ := run_assemble files asked'
  obtain ⟨-, -, -, failed', -⟩ := run_assemble files asked''
  refine ⟨⟨exit, ?_⟩, ?_, ?_⟩
  · obtain ⟨text, program, same, assembled, loaded, -⟩ := done exit
    obtain rfl := Except.ok.inj (read.symm.trans same)
    exact ⟨program, assembled, loaded⟩
  · -- the second source does not assemble, whatever it is said to assemble to
    have unassembled : ¬ ∃ text program, files.readText "q.asm" = .ok text ∧
        Assembly.assemble text = .ok program := by
      rintro ⟨text, program, same, assembled⟩
      obtain rfl := Except.ok.inj (read'.symm.trans same)
      cases result'.symm.trans assembled
    have exit' : failing.exit = 1 := code.resolve_left fun zero => by
      obtain ⟨text, program, same, assembled, -⟩ := done' zero
      exact unassembled ⟨text, program, same, assembled⟩
    exact ⟨exit', (failed exit').1, by_contra fun printed => unassembled (prints printed)⟩
  · have ok : assembleSource files "p.asm" = .ok program := by
      rw [assembleSource, read]
      simp only [result, Except.mapError]
    have readonly : ¬ files.writable "d/p.img" = true := by decide
    have uncreated : files.create "d/p.img" = .error .notFound := by
      rw [Files.create, Files.write, if_neg readonly]
    have exit'' : missing.exit = 1 :=
      congrArg Outcome.exit ((run_of_parse asked'' files).trans
        (assembleFile_of_not_create ok uncreated).1)
    exact ⟨exit'', (failed' exit'').1⟩

end CommandLine

end NibbleComputer
