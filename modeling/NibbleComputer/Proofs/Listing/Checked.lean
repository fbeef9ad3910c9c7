import NibbleComputer.Proofs.Assembly.Checked
import NibbleComputer.Proofs.Listing.Tiling

/-!
# Listings with checks

The listing once more, with every step checked that is not defined for all values: the address of
an operand and the address behind an instruction are sums of numbers with a limit, and the cells of
an instruction are a part of the listed cells. No check fails, whatever the cells hold and however
many there are.

- `Listing.slice?`: the cells between two addresses.
- `Listing.describeAt?`, `Listing.lines?`: an instruction, and the loop over all of them.
- `Listing.lines?_of_walk`: the loop follows the walk from instruction to instruction.
- `no_check_fails`: neither the assembler nor the listing meets a check that fails.
-/

namespace NibbleComputer

namespace Listing

variable {limit : Nat} {cells : List Nibble} {address : Nat}

/-- The cells from an address up to another, if they are among the cells. -/
def slice? (cells : List Nibble) (first stop : Nat) : Option (List Nibble) :=
  if first ≤ stop ∧ stop ≤ cells.length then some ((cells.take stop).drop first) else none

/-- The text at an address and the number of cells it covers. If the opcode takes an operand, its
address is computed, and the cell there is read if there is one. -/
def describeAt? (limit : Nat) (cells : List Nibble) (address : Nat) : Option (String × Nat) :=
  match cells[address]? with
  | none => some ("???", 1)
  | some head =>
    let opcode := Opcode.ofNibble head
    if !opcode.takesOperand then some (opcode.mnemonic, 1)
    else do
      match cells[← add? limit address 1]? with
      | some operand => return (opcode.mnemonic ++ " " ++ operand.decimal, 2)
      | none => return (opcode.mnemonic ++ " ?", 1)

/-- The lines of a listing from an address on. The loop goes on if the address has moved on. -/
def lines? (limit : Nat) (cells : List Nibble) (address : Nat) : Option (List String) :=
  if _ : address < cells.length then do
    let (text, width) ← describeAt? limit cells address
    let next ← add? limit address width
    let raw ← slice? cells address next
    let line := Text.hexadecimal address ++ ": " ++ Text.padEnd 8 text ++ " ; " ++
      " ".intercalate (raw.map Nibble.hex)
    if _ : address < next then
      let others ← lines? limit cells next
      return line :: others
    else none
  else some []
termination_by cells.length - address
decreasing_by omega

/-- The listing of some cells. -/
def render? (limit : Nat) (cells : List Nibble) : Option String := do
  return Text.unlines (header ++ (← lines? limit cells 0))

/-- No check fails at any address. -/
theorem describeAt?_eq (short : cells.length < limit) (address : Nat) :
    describeAt? limit cells address = some (Instruction.describeAt cells address) := by
  unfold describeAt? Instruction.describeAt Instruction.at?
  by_cases inside : address < cells.length
  · have next : address + 1 < limit := by omega
    have left := List.drop_eq_getElem_cons inside
    have second : (cells.drop (address + 1)).head? = cells[address + 1]? := List.head?_drop
    rw [List.getElem?_eq_getElem inside, left, Instruction.first?]
    dsimp only
    rw [add?_of_lt next]
    unfold Instruction.text Instruction.width Instruction.raw Instruction.opcode
    cases takes : (Opcode.ofNibble cells[address]).takesOperand with
    | false => simp
    | true => cases operand : cells[address + 1]? <;> simp [second, operand]
  · rw [List.getElem?_eq_none (by omega), List.drop_eq_nil_of_le (by omega)]
    rfl

/-- The cells of an instruction are a part of the listed cells. -/
theorem slice?_of_at? {instruction : Instruction}
    (here : Instruction.at? cells address = some instruction) :
    slice? cells address (address + instruction.width) = some instruction.raw := by
  rw [slice?, if_pos ⟨Nat.le_add_right .., add_width_le here⟩, Instruction.raw_of_first? here,
    List.drop_take, Nat.add_sub_cancel_left]

/-- The loop follows the walk. -/
theorem lines?_of_walk {shown : List Row} (short : cells.length < limit)
    (walk : Walk cells address shown) :
    lines? limit cells address = some (shown.map Row.display) := by
  induction walk with
  | @done address past =>
    rw [lines?, dif_neg (Nat.not_lt.mpr past)]
    rfl
  | @line address instruction others here rest ih =>
    have bound := add_width_le here
    have pos : 0 < instruction.width := Nat.succ_pos _
    have described : describeAt? limit cells address =
        some (instruction.text, instruction.width) := by
      rw [describeAt?_eq short, Instruction.describeAt, here]
    have next : add? limit address instruction.width = some (address + instruction.width) :=
      add?_of_lt (by omega)
    have moved : address < address + instruction.width := by omega
    rw [lines?, dif_pos (by omega)]
    simp only [described, next, slice?_of_at? here, ih, dif_pos moved, Option.bind_eq_bind,
      Option.bind_some]
    rfl

/-- No check fails while a listing is made, and the loop ends. -/
theorem render?_eq (short : cells.length < limit) :
    render? limit cells = some (render cells) := by
  rw [render?, lines?_of_walk short (walk_rows List.drop_zero)]
  rfl

end Listing

/-! ## The main result -/

/-- **No check fails.** Let the texts and the lists of cells be shorter than there are numbers.
Whatever characters a source has and however many lines, the assembler with checks gives what the
assembler gives, a program or an error: it cuts texts between characters only, writes no cell beyond
memory, and computes no sum that is not a number. Whatever cells there are, the listing with checks
describes every address and gives the listing: it takes no cells beyond the last one, computes no
sum that is not a number, and its loop ends. -/
theorem no_check_fails (limit : Nat) :
    (∀ source : String, source.utf8ByteSize < limit →
        Assembly.assemble? limit source = some (Assembly.assemble source)) ∧
      ∀ cells : List Nibble, cells.length < limit →
        (∀ address, Listing.describeAt? limit cells address =
            some (Instruction.describeAt cells address)) ∧
          Listing.render? limit cells = some (Listing.render cells) :=
  ⟨fun _ short => Assembly.assemble?_eq short,
    fun _ short => ⟨Listing.describeAt?_eq short, Listing.render?_eq short⟩⟩

/-- A source with marks between characters of two bytes and a colon behind one, and cells that end
with an opcode without its operand. -/
theorem no_check_fails_beyond_ascii :
    let source := "s: LDA s;ä// ö\nü: OUT"
    let cells : List Nibble := [15, 1]
    source.utf8ByteSize < UInt64.size ∧
      Assembly.assemble? UInt64.size source =
        some (.error { line := 2, fault := .unknownInstruction "Ü:" }) ∧
      cells.length < UInt64.size ∧
      Listing.describeAt? UInt64.size cells (UInt64.size - 1) = some ("???", 1) ∧
      Listing.render? UInt64.size cells = some (Listing.render cells) := by
  intro source cells
  have short : source.utf8ByteSize < UInt64.size := by decide
  have short' : cells.length < UInt64.size := by decide
  obtain ⟨assembled, listed⟩ := no_check_fails UInt64.size
  obtain ⟨described, rendered⟩ := listed cells short'
  have failed : Assembly.assemble source =
      .error { line := 2, fault := .unknownInstruction "Ü:" } := by
    dsimp only [source]
    rfl
  refine ⟨short, failed ▸ assembled source short, short', ?_, rendered⟩
  rw [described]
  rfl

end NibbleComputer
