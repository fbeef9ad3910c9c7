import NibbleComputer.Nibble

/-!
# Memory

Sixteen cells of one nibble, addressed by a nibble. Program and data share the cells.

- `Memory`: the cells, with `read`, `write` and `clear`.
- `Memory.load`: a program from address zero on, refused as a whole if it is too long.
- `Memory.dump`: a range of cells with their addresses.
- `Memory.read_write_self`, `Memory.read_write_of_ne`, `Memory.read_fill`: what each operation
  does to a cell.
-/

namespace NibbleComputer

/-- The number of memory cells. -/
def memorySize : Nat := 16

/-- The sum of two 64-bit numbers, or the largest such number if the sum does not fit. -/
def saturatingAdd (m n : Nat) : Nat := min (m + n) (UInt64.size - 1)

/-- Sixteen cells of one nibble. -/
structure Memory where
  cells : Vector Nibble 16
deriving DecidableEq

/-- Why memory refuses a program. -/
inductive MemoryError where
  /-- The program has more words than memory has cells. -/
  | programTooLarge (size : Nat)
deriving DecidableEq

/-- The error in words. -/
def MemoryError.message : MemoryError → String
  | .programTooLarge size =>
    "program size " ++ Text.decimal size ++ " exceeds memory size 16"

namespace Memory

/-- All cells zero. -/
def blank : Memory := ⟨Vector.replicate 16 0⟩

instance : Inhabited Memory := ⟨blank⟩

/-- The content of a cell. -/
def read (memory : Memory) (address : Nibble) : Nibble :=
  memory.cells[address]

/-- Memory after a cell has taken a value. -/
def write (memory : Memory) (address value : Nibble) : Memory :=
  ⟨memory.cells.set address value⟩

/-- The cells in the order of their addresses. -/
def toList (memory : Memory) : List Nibble :=
  memory.cells.toList

/-- Memory with the given nibbles from address zero on; the cells after them keep their
contents, and nibbles that find no cell are dropped. -/
def fill (memory : Memory) (nibbles : List Nibble) : Memory :=
  ⟨Vector.ofFn fun address => nibbles[address.val]?.getD (memory.read address)⟩

/-- Memory after a program has been loaded from address zero on, each word cut to its low four
bits; a program longer than memory is refused. -/
def load (memory : Memory) (words : List UInt8) : Except MemoryError Memory :=
  if memorySize < words.length then .error (.programTooLarge words.length)
  else .ok (memory.fill (words.map Nibble.ofByte))

/-- The cells from address `start` on, at most `count` of them, with their addresses. The end of
the range is a sum of 64-bit numbers that saturates, and no more than the number of cells. -/
def dump (memory : Memory) (start count : Nat) : List (Nat × Nibble) :=
  let stop := min (saturatingAdd start count) memorySize
  let first := min start stop
  (List.range' first (stop - first)).map fun i => (i, memory.read (.ofNat i))

/-! ## Texts -/

/-- The cells as hexadecimal digits. -/
def hexDigits (memory : Memory) : String :=
  Nibble.hexDigits memory.toList

/-- The fields in notation. -/
def inspect (memory : Memory) : String :=
  Text.record "Ram" [("cells", Text.quoted memory.hexDigits)]

/-! ## What each operation does to a cell -/

@[simp] theorem read_blank (address : Nibble) : blank.read address = 0 := by
  simp [read, blank]

@[simp] theorem read_write_self (memory : Memory) (address value : Nibble) :
    (memory.write address value).read address = value := by
  simp [read, write]

theorem read_write_of_ne (memory : Memory) {x y : Nibble} (value : Nibble) (h : y ≠ x) :
    (memory.write x value).read y = memory.read y := by
  have : x.val ≠ y.val := fun e => h (Fin.ext e.symm)
  simp [read, write, this]

@[simp] theorem read_fill (memory : Memory) (nibbles : List Nibble) (address : Nibble) :
    (memory.fill nibbles).read address = nibbles[address.val]?.getD (memory.read address) := by
  simp [read, fill]

/-- Memories with the same cells are equal. -/
theorem ext_read {m n : Memory} (h : ∀ address, m.read address = n.read address) : m = n := by
  cases m with
  | mk mc =>
    cases n with
    | mk nc =>
      congr
      apply Vector.ext
      intro i hi
      exact h ⟨i, hi⟩

/-- Of two writes to a cell the second counts. -/
@[simp] theorem write_write_self (memory : Memory) (address v w : Nibble) :
    (memory.write address v).write address w = memory.write address w := by
  refine ext_read fun y => ?_
  by_cases h : y = address
  · rw [h, read_write_self, read_write_self]
  · rw [read_write_of_ne _ w h, read_write_of_ne _ v h, read_write_of_ne _ w h]

/-- Writes to two cells may change places. -/
theorem write_comm (memory : Memory) {x y : Nibble} (v w : Nibble) (h : x ≠ y) :
    (memory.write x v).write y w = (memory.write y w).write x v := by
  refine ext_read fun z => ?_
  by_cases hx : z = x
  · rw [hx, read_write_self, read_write_of_ne _ w h, read_write_self]
  · rw [read_write_of_ne _ v hx]
    by_cases hy : z = y
    · rw [hy, read_write_self, read_write_self]
    · rw [read_write_of_ne _ w hy, read_write_of_ne _ w hy, read_write_of_ne _ v hx]

@[simp] theorem length_toList (memory : Memory) : memory.toList.length = 16 := by
  simp [toList]

theorem getElem?_toList (memory : Memory) (address : Nibble) :
    memory.toList[address.val]? = some (memory.read address) := by
  simp [toList, read]

end Memory

end NibbleComputer
