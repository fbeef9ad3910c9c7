import NibbleComputer.Assembly.Program
import NibbleComputer.CommandLine.Outcome
import NibbleComputer.Machine.Basic

/-!
# The self test

A few checks of the parts against each other, with a line for each.

- `CommandLine.Check`: a check with its title and its result.
- `CommandLine.checks`: the checks.
- `CommandLine.selfTest`: the outcome of the self test.
-/

namespace NibbleComputer.CommandLine

/-- A check. -/
structure Check where
  title : String
  passed : Bool
  /-- What was found instead, for a check that did not pass. -/
  finding : String := ""

/-- The line of a check. -/
def Check.line (check : Check) : String :=
  check.title ++ "... " ++ if check.passed then "✓" else "✗" ++ check.finding

/-- The arithmetic unit wraps and signals carry and borrow, for all pairs of nibbles. -/
def aluCheck : Check where
  title := "ALU add/subtract wrap"
  passed := Nibble.all.all fun a => Nibble.all.all fun b =>
    let sum := Alu.compute a b false
    let difference := Alu.compute a b true
    sum.result.val == (a.val + b.val) % 16 && sum.flags.carry == decide (15 < a.val + b.val) &&
      difference.result.val == (a.val + 16 - b.val) % 16 &&
      difference.flags.carry == decide (a.val < b.val)

/-- A jump loads the counter and does not let it count. -/
def jumpCheck : Check :=
  let signals := Microcode.signals Opcode.jmp.code 4 {}
  { title := "JMP skips counter increment"
    passed := signals.contains .jump && !signals.contains .counterEnable
    finding := " (got " ++ signals.display ++ ")" }

/-- A machine with a program at the start of its memory. -/
def loaded (words : List UInt8) : Machine :=
  { Machine.initial with memory := Memory.blank.fill (words.map Nibble.ofByte) }

/-- An immediate load ends after eight ticks. -/
def loadCheck : Check :=
  let registers := ((loaded [5, 5]).after 8).registers
  { title := "LDI 5 in eight ticks"
    passed := registers.a == 5 && registers.pc == 2
    finding := " (A=" ++ registers.a.decimal ++ ", PC=" ++ registers.pc.decimal ++ ")" }

/-- A small source has the nibbles that it should have. -/
def assemblerCheck : Check where
  title := "Assembler output"
  passed := match Assembly.assemble "LDI 5\nOUT\nHLT" with
    | .ok program => program.words.take 5 == [5, 5, 14, 15, 0]
    | .error _ => false

/-- A halted machine stays as it is. -/
def haltCheck : Check :=
  let halted := (loaded [5, 7, 14, 15]).run 100
  { title := "HLT freezes the machine"
    passed := halted.halted && halted.run 100 == halted && halted.registers.out == 7 }

/-- The checks in order. -/
def checks : List Check :=
  [aluCheck, jumpCheck, loadCheck, assemblerCheck, haltCheck]

/-- The outcome of the self test. -/
def selfTest : Outcome :=
  let passed := checks.countP Check.passed
  let failed := checks.length - passed
  let lines :=
    ["━━━ SAP-1 Emulator Self-Test ━━━", ""] ++ checks.map Check.line ++
      ["", "━━━━━━━━━━━━━━━━━━━━━━━━━━━━━━",
       "Results: " ++ Text.decimal passed ++ " passed, " ++ Text.decimal failed ++ " failed"]
  if failed = 0 then .success (lines ++ ["✓ All tests passed!"])
  else { exit := 1, stdout := Text.unlines lines }

end NibbleComputer.CommandLine
