/-!
# Files

The files that a command can see, by name.

- `Files`: contents and the names that can be written.
- `Files.Error`: why a file cannot be read or written.
- `Files.readText`, `Files.write`: reading a file as text, and replacing its content.
-/

namespace NibbleComputer

/-- The files that a command can see. -/
structure Files where
  /-- The content of the file with a name, if there is one. -/
  content? : String → Option ByteArray
  /-- Whether a file with that name can be written; in a missing directory it cannot. -/
  writable : String → Bool

namespace Files

/-- Why a file cannot be read or written. -/
inductive Error where
  /-- There is no such file, or no directory for it. -/
  | notFound
  /-- The content is no UTF-8 text. -/
  | notText
deriving DecidableEq

/-- The error in words. -/
def Error.message : Error → String
  | notFound => "No such file or directory (os error 2)"
  | notText => "stream did not contain valid UTF-8"

/-- Whether a name is that of a file in the directory itself. -/
def isPlain (name : String) : Bool :=
  !name.isEmpty && name.toList.all (· != '/')

/-- The files of a directory without further directories. -/
def ofContents (contents : List (String × ByteArray)) : Files where
  content? name := contents.lookup name
  writable := isPlain

/-- The content of a file as text. -/
def readText (files : Files) (name : String) : Except Error String :=
  match files.content? name with
  | none => .error .notFound
  | some bytes =>
    match String.fromUTF8? bytes with
    | none => .error .notText
    | some text => .ok text

/-- The files after one of them has been given a content. -/
def write (files : Files) (name : String) (content : ByteArray) : Except Error Files :=
  if files.writable name then
    .ok { files with
      content? := fun other => if other = name then some content else files.content? other }
  else .error .notFound

/-- The bytes of a text are read as that text. -/
@[simp] theorem fromUTF8?_toUTF8 (text : String) : String.fromUTF8? text.toUTF8 = some text := by
  have valid : text.toUTF8.IsValidUTF8 := text.isValidUTF8
  simp only [String.fromUTF8?, valid]
  rfl

/-- A file is read by its content alone. -/
theorem readText_congr {files other : Files} {name : String}
    (same : files.content? name = other.content? name) :
    files.readText name = other.readText name := by
  rw [readText, same, readText]

/-- A file with the bytes of a text is read as that text. -/
theorem readText_of_content {files : Files} {name text : String}
    (h : files.content? name = some text.toUTF8) : files.readText name = .ok text := by
  rw [readText, h]
  simp only [fromUTF8?_toUTF8]

/-- A write changes the file of that name and no other. -/
theorem content?_write {files after : Files} {name : String} {content : ByteArray}
    (h : files.write name content = .ok after) (other : String) :
    after.content? other = if other = name then some content else files.content? other := by
  simp only [write] at h
  split at h
  · cases h
    rfl
  · cases h

/-- What has been written can be read. -/
theorem readText_write {files after : Files} {name text : String}
    (h : files.write name text.toUTF8 = .ok after) : after.readText name = .ok text :=
  readText_of_content (by rw [content?_write h, if_pos rfl])

theorem write_of_writable {files : Files} {name : String} (h : files.writable name = true)
    (content : ByteArray) : ∃ after, files.write name content = .ok after :=
  ⟨_, if_pos h⟩

end Files

end NibbleComputer
