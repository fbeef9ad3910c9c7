import NibbleComputer.Proofs.Image.Grammar
import NibbleComputer.Proofs.Text.Lines

/-!
# Saving and loading an image

An image file is read back as the nibbles that were written. The reader does not know the writer:
it takes the header and the addresses for comments, and of each other line it keeps the digit.

- `Image.parse_of_render`: the text of some nibbles is read as those nibbles.
- `Image.parse_length_le`, `Image.length_le_of_load`: no image is longer than memory.
- `Image.store_of_le`, `Image.store_of_lt`: saving, if memory has a cell for each nibble and if not.
- `Image.write_of_save`: what has been saved.
- `Image.load_store`: what has been saved is loaded.
-/

namespace NibbleComputer.Image

/-! ## The lines of an image text -/

/-- The lines above the nibbles. -/
def header (count : Nat) : List String :=
  ["; SAP-1 memory image", "; " ++ Text.decimal count ++ " nibbles", ""]

/-- The lines of some nibbles, the first of them at an address. -/
def renderLines (address : Nat) (nibbles : List Nibble) : List String :=
  (nibbles.zipIdx address).map fun entry => renderLine entry.1 entry.2

variable {nibbles : List Nibble}

theorem render_of_le (fits : nibbles.length ≤ memorySize) :
    render nibbles = .ok (Text.unlines (header nibbles.length ++ renderLines 0 nibbles)) := by
  rw [render, if_neg (Nat.not_lt_of_le fits)]
  rfl

/-- A semicolon in front of a line leaves nothing of it. -/
theorem stripComment_semicolon (comment : List Char) : stripComment (';' :: comment) = [] := by
  simp [stripComment, Text.trim, Text.trimStart, Text.trimEnd]

/-- The digit is what is left of a line without the address. -/
theorem stripComment_renderLine (nibble : Nibble) (address : Nat) :
    stripComment (renderLine nibble address).toList = nibble.hex.toList := by
  have digit : ∀ n : Nibble, (n.hex.toList ++ [' ']).all (· != ';') = true ∧
      Text.trim (n.hex.toList ++ [' ']) = n.hex.toList := by decide
  obtain ⟨plain, trimmed⟩ := digit nibble
  have shape : (renderLine nibble address).toList =
      (nibble.hex.toList ++ [' ']) ++ ';' :: ' ' :: (Text.hexadecimal address).toList := by
    simp [renderLine]
  rw [stripComment, shape, List.takeWhile_append_of_pos (List.all_eq_true.mp plain)]
  simpa using trimmed

/-- The digit of a nibble denotes it. -/
theorem readNibble_hex (nibble : Nibble) :
    nibble.hex.toList ≠ [] ∧ readNibble nibble.hex.toList = .ok nibble := by
  have digit : ∀ n : Nibble, n.hex.toList ≠ [] ∧
      Text.readByte? 16 (dropMark n.hex.toList) = some n.toByte ∧ n.toByte < 16 := by decide
  obtain ⟨ne, read, narrow⟩ := digit nibble
  refine ⟨ne, ?_⟩
  rw [readNibble, read]
  simp only [narrow, if_true, Nibble.ofByte_toByte]

/-! ## Reading them -/

/-- Lines of which nothing is left are skipped. -/
theorem parseLines_append_of_comments {lines : List (List Char)}
    (none : ∀ line ∈ lines, stripComment line = []) (number : Nat)
    (others : List (List Char × Nat)) :
    parseLines (lines.zipIdx number ++ others) = parseLines others := by
  induction lines generalizing number with
  | nil => rfl
  | cons line lines ih =>
    have first := none line (List.mem_cons_self ..)
    rw [List.zipIdx_cons, List.cons_append, parseLines, first]
    exact ih (fun other mem => none other (List.mem_cons_of_mem _ mem)) (number + 1)

theorem stripComment_header {count : Nat} :
    ∀ line ∈ (header count).map String.toList, stripComment line = [] := by
  intro line mem
  obtain ⟨text, top, rfl⟩ := List.mem_map.mp mem
  rcases List.mem_cons.mp top with rfl | top
  · exact stripComment_semicolon _
  rcases List.mem_cons.mp top with rfl | top
  · rw [String.toList_append, String.toList_append]
    exact stripComment_semicolon _
  · rw [List.mem_singleton.mp top]
    rfl

/-- The lines of some nibbles are read as those nibbles, whatever their addresses and numbers. -/
theorem parseLines_renderLines (address number : Nat) (nibbles : List Nibble) :
    parseLines (((renderLines address nibbles).map String.toList).zipIdx number) = .ok nibbles := by
  induction nibbles generalizing address number with
  | nil => rfl
  | cons nibble nibbles ih =>
    obtain ⟨ne, read⟩ := readNibble_hex nibble
    have rest := ih (address + 1) (number + 1)
    rw [renderLines, List.zipIdx_cons, List.map_cons, List.map_cons, List.zipIdx_cons, parseLines,
      stripComment_renderLine]
    simp only [List.isEmpty_iff, ne, if_false, read]
    rw [renderLines] at rest
    rw [rest]
    rfl

/-- The characters of an image text, apart from the line ends. -/
def isTextChar (c : Char) : Bool :=
  c != '\n' && c != '\r'

theorem all_renderLine {address : Nat} (inside : address < memorySize) (nibble : Nibble) :
    (renderLine nibble address).toList.all isTextChar = true := by
  have digit : ∀ n < memorySize, (Text.hexadecimal n).toList.all isTextChar = true := by decide
  have first : nibble.hex.toList.all isTextChar = true := digit nibble.val nibble.isLt
  simp only [renderLine, String.toList_append, List.all_append, first, digit address inside]
  rfl

/-- No line of an image text has a line end in it. -/
theorem plain_of_mem (fits : nibbles.length ≤ memorySize) :
    ∀ text ∈ header nibbles.length ++ renderLines 0 nibbles,
      '\n' ∉ text.toList ∧ '\r' ∉ text.toList := by
  have top : ∀ count ≤ memorySize, ∀ text ∈ header count, text.toList.all isTextChar = true := by
    decide
  intro text mem
  have chars : text.toList.all isTextChar = true := by
    rcases List.mem_append.mp mem with above | row
    · exact top _ fits text above
    · obtain ⟨⟨nibble, address⟩, entry, rfl⟩ := List.mem_map.mp row
      have := List.snd_lt_of_mem_zipIdx entry
      exact all_renderLine (by omega) nibble
  exact ⟨fun newline => absurd (List.all_eq_true.mp chars _ newline) (by decide),
    fun ret => absurd (List.all_eq_true.mp chars _ ret) (by decide)⟩

/-- **Parsing undoes rendering.** -/
theorem parse_of_render {text : String} (rendered : render nibbles = .ok text) :
    parse text = .ok nibbles := by
  by_cases fits : nibbles.length ≤ memorySize
  · obtain rfl := Except.ok.inj ((render_of_le fits).symm.trans rendered)
    refine parse_eq_ok_iff.mpr ⟨?_, fits⟩
    rw [Text.numberedLines, Text.lines_unlines (plain_of_mem fits), List.map_append,
      List.zipIdx_append, parseLines_append_of_comments stripComment_header,
      parseLines_renderLines]
  · rw [render, if_pos (Nat.lt_of_not_le fits)] at rendered
    cases rendered

/-- No image has more nibbles than memory has cells. -/
theorem parse_length_le {text : String} (parsed : parse text = .ok nibbles) :
    nibbles.length ≤ memorySize :=
  (parse_eq_ok_iff.mp parsed).2

/-! ## Files -/

/-- An image file has no more nibbles than memory has cells. -/
theorem length_le_of_load {files : Files} {name : String}
    (read : load files name = .ok nibbles) : nibbles.length ≤ memorySize := by
  unfold load at read
  split at read
  · cases read
  · exact parse_length_le read

/-- Nibbles for which memory has cells are saved as their text where a file can be written. -/
theorem store_of_le {files : Files} {name : String} (fits : nibbles.length ≤ memorySize)
    (writable : files.writable name = true) :
    ∃ text after, render nibbles = .ok text ∧ files.write name text.toUTF8 = .ok after ∧
      store files name nibbles = (after, .ok ()) := by
  have rendered := render_of_le fits
  obtain ⟨after, written⟩ := Files.write_of_writable writable
    (Text.unlines (header nibbles.length ++ renderLines 0 nibbles)).toUTF8
  refine ⟨_, after, rendered, written, ?_⟩
  rw [store, rendered]
  simp only [written]

/-- What has been saved is the text of the nibbles. -/
theorem write_of_save {files after : Files} {name : String}
    (saved : save files name nibbles = .ok after) :
    ∃ text, render nibbles = .ok text ∧ files.write name text.toUTF8 = .ok after := by
  unfold save store at saved
  cases rendered : render nibbles with
  | error error =>
    rw [rendered] at saved
    cases saved
  | ok text =>
    rw [rendered] at saved
    dsimp only at saved
    cases written : files.write name text.toUTF8 with
    | error reason =>
      rw [written] at saved
      cases saved
    | ok written' =>
      rw [written] at saved
      cases saved
      exact ⟨text, rfl, written⟩

/-- More nibbles than memory has cells are refused before the file is looked at. -/
theorem store_of_lt (long : memorySize < nibbles.length) (files : Files) (name : String) :
    store files name nibbles = (files, .error (.tooLarge nibbles.length)) := by
  rw [store, render, if_pos long]

/-- **What has been saved is loaded.** If memory has a cell for each of some nibbles and the file
can be written, saving them succeeds, whatever the file held before: its text is read as exactly
these nibbles, and so is the file. Other files stay as they are. If there are more nibbles than
cells, saving them fails with their number, and all files, whether there or not, are as before. -/
theorem load_store (files : Files) (name : String) (nibbles : List Nibble) :
    let after := (store files name nibbles).1
    let answer := (store files name nibbles).2
    (nibbles.length ≤ memorySize → files.writable name = true →
      answer = .ok () ∧ save files name nibbles = .ok after ∧ load after name = .ok nibbles ∧
        (∃ text, after.content? name = some text.toUTF8 ∧ parse text = .ok nibbles) ∧
        ∀ other, other ≠ name → after.content? other = files.content? other) ∧
    (memorySize < nibbles.length →
      answer = .error (.tooLarge nibbles.length) ∧
        save files name nibbles = .error (.tooLarge nibbles.length) ∧ after = files) := by
  intro after answer
  constructor
  · intro fits writable
    obtain ⟨text, written, rendered, write, stored⟩ := store_of_le fits writable
    have parsed := parse_of_render rendered
    obtain rfl : after = written := congrArg Prod.fst stored
    refine ⟨congrArg Prod.snd stored, ?_, ?_, ⟨text, ?_, parsed⟩, ?_⟩
    · rw [save, stored]
      rfl
    · rw [load, Files.readText_write write]
      exact parsed
    · rw [Files.content?_write write, if_pos rfl]
    · intro other ne
      rw [Files.content?_write write, if_neg ne]
  · intro long
    have refused := store_of_lt long files name
    refine ⟨congrArg Prod.snd refused, ?_, congrArg Prod.fst refused⟩
    rw [save, refused]
    rfl

/-- An image that replaces a longer file, and one that does not fit. -/
theorem load_store_replaced :
    let files := Files.ofContents [("p.img", "1\n2\n3\nno image".toUTF8)]
    files.writable "p.img" = true ∧
      load (store files "p.img" [15, 0]).1 "p.img" = .ok [15, 0] ∧
      (store files "p.img" (List.replicate 17 0)).2 = .error (.tooLarge 17) ∧
      (store files "p.img" (List.replicate 17 0)).1 = files := by
  intro files
  have writable : files.writable "p.img" = true := by decide
  obtain ⟨-, -, loaded, -⟩ := (load_store files "p.img" [15, 0]).1 (by decide) writable
  obtain ⟨answer, -, kept⟩ := (load_store files "p.img" (List.replicate 17 0)).2 (by decide)
  exact ⟨writable, loaded, answer, kept⟩

end NibbleComputer.Image
