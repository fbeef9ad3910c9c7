import NibbleComputer.Assembly.Program
import NibbleComputer.CommandLine.Arguments
import NibbleComputer.CommandLine.SelfTest
import NibbleComputer.Image
import NibbleComputer.Machine.Execution
import NibbleComputer.Snapshot

/-!
# Commands

What each command prints and writes, as a function of the files that it can see.

- `CommandLine.Loaded`, `CommandLine.loadProgram`: a program from a source or an image.
- `CommandLine.runProgram`, `CommandLine.assembleFile`, `CommandLine.disassembleFile`,
  `CommandLine.demonstration`: the commands.
- `CommandLine.perform`, `CommandLine.run`: the outcome of a command and of some arguments.
-/

namespace NibbleComputer.CommandLine

/-! ## Running a program -/

/-- A program that comes from a file. -/
inductive Loaded where
  /-- The file holds a source. -/
  | source (program : Assembly.Program)
  /-- The file holds an image. -/
  | image (nibbles : List Nibble)

namespace Loaded

/-- The line that tells the size of the program. -/
def line : Loaded → String
  | source program => "📝 Assembled " ++ Text.decimal program.size ++ " nibbles"
  | image nibbles => "📂 Loaded " ++ Text.decimal nibbles.length ++ " nibbles"

/-- The program as words of memory; that of a source fills all cells. -/
def words : Loaded → List UInt8
  | source program => program.words
  | image nibbles => nibbles.map Nibble.toByte

end Loaded

/-- The program of the source in a file. -/
def assembleSource (files : Files) (name : String) : Except Failure Assembly.Program :=
  match files.readText name with
  | .error error => .error (.readSource error)
  | .ok source => (Assembly.assemble source).mapError .assemble

/-- Whether a file holds a source, by the end of its name. -/
def isSourceName (name : String) : Bool :=
  ".asm".toList.isSuffixOf name.toList

/-- The program in a file, which holds a source or an image. -/
def loadProgram (files : Files) (name : String) : Except Failure Loaded :=
  if isSourceName name then (assembleSource files name).map .source
  else ((Image.load files name).mapError .loadImage).map .image

/-- A nibble as a row of lamps, the most significant bit first. -/
def lamps (n : Nibble) : String :=
  String.ofList ([3, 2, 1, 0].map fun i => if n.bit i then '●' else '○')

/-- A flag as a digit. -/
def flagDigit (flag : Bool) : String :=
  if flag then "1" else "0"

/-- Both flags. -/
def flagsText (flags : Flags) : String :=
  "Z=" ++ flagDigit flags.zero ++ " C=" ++ flagDigit flags.carry

/-- The line of a completed instruction in a trace. -/
def traceLine (report : Machine.Report) : String :=
  report.address.hex ++ ": " ++ Text.padEnd 8 report.text ++ " " ++
    report.after.registers.display ++ "  " ++ flagsText report.after.alu.flags

/-- The line that shows the output register. -/
def outLine (n : Nibble) : String :=
  "OUT: " ++ n.decimal ++ "  " ++ lamps n

/-- The lines of a completed instruction: its trace, if asked for, and its output, if it is an
output instruction. -/
def reportLines (trace : Bool) (report : Machine.Report) : List String :=
  (if trace then [traceLine report] else []) ++
    if report.opcode = .out then [outLine report.after.registers.out] else []

/-- The lines that describe a machine after a run. -/
def resultLines (m : Machine) : List String :=
  let out := m.registers.out
  ["Ticks: " ++ toString m.ticks,
   "Halted: " ++ toString m.halted,
   "Registers: " ++ m.registers.display,
   "Flags: " ++ flagsText m.alu.flags,
   "Bus: " ++ m.bus.value.hex ++ "  ALU: " ++ m.alu.result.hex ++ "  Step: " ++ toString m.step,
   "OUT: " ++ out.decimal ++ " (0x" ++ out.hex ++ ", " ++ out.bits ++ ")  " ++ lamps out]

/-- The lines of a run from the program on. -/
def executionLines (start : Machine) (maxTicks : UInt64) (trace json : Bool) : List String :=
  let final := start.runTo maxTicks
  ["", "━━━ Execution ━━━"] ++ (start.reportsTo maxTicks).flatMap (reportLines trace) ++
    ["", "━━━ Result ━━━"] ++ resultLines final ++
    (if json then [final.snapshot .pretty] else []) ++
    if final.halted then []
    else ["", "⚠️  Reached max ticks limit (" ++ toString maxTicks ++
      "). Use --max-ticks to increase."]

/-- Runs the program in a file. -/
def runProgram (files : Files) (name : String) (maxTicks : UInt64) (trace json : Bool) :
    Outcome :=
  let title := "🔧 Running: " ++ name
  match loadProgram files name with
  | .error failure => .failure [title] failure
  | .ok loaded =>
    match Machine.initial.load loaded.words with
    | .error error => .failure [title, loaded.line] (.loadProgram error)
    | .ok start => .success ([title, loaded.line] ++ executionLines start maxTicks trace json)

/-! ## Assembling and listing -/

/-- The lines that describe an assembled program. -/
def programLines (program : Assembly.Program) : List String :=
  ("✓ Assembled " ++ Text.decimal program.size ++ " nibbles") ::
    program.labels.entries.map fun entry =>
      "  " ++ Text.padEnd 10 entry.1 ++ " = " ++ Text.hexadecimal entry.2

/-- Assembles the source in a file, to an image file or to a listing. -/
def assembleFile (files : Files) (name : String) (output? : Option String) : Outcome :=
  match assembleSource files name with
  | .error failure => .failure [] failure
  | .ok program =>
    let lines := programLines program
    match output? with
    | none =>
      { exit := 0, stdout := Text.unlines (lines ++ [""]) ++ Listing.render program.code.toList }
    | some output =>
      match Image.save files output program.code.toList with
      | .error error => .failure lines (.saveImage error)
      | .ok after =>
        { Outcome.success (lines ++ ["✓ Saved to " ++ output]) with
          saved? := (after.content? output).map fun content => (output, content) }

/-- Lists the image in a file. -/
def disassembleFile (files : Files) (name : String) : Outcome :=
  match Image.load files name with
  | .error error => .failure [] (.loadImage error)
  | .ok image => { exit := 0, stdout := Listing.render image }

/-! ## The demonstration -/

/-- The source of the demonstration: a counter that runs round from 15 to 0. -/
def counterSource : String :=
  Text.unlines
    ["// Looping counter (0-15)",
     "init:",
     "  LDI 0    // start at 0",
     "loop:",
     "  OUT      // display A",
     "  ADD inc  // add 1",
     "  JMP loop // repeat",
     "",
     "inc:",
     "  DATA 1"]

/-- The output register after the first of every three instructions. -/
def outputs : (passes : Nat) → Machine → List String
  | 0, _ => []
  | passes + 1, m =>
    let shown := m.instruction
    shown.registers.out.decimal :: outputs passes shown.instruction.instruction

/-- The lines above the demonstration. -/
def banner : List String :=
  ["SAP-1 Emulator v0.1.0",
   "A 4-bit microcoded computer emulator",
   "",
   "Use --help for available commands",
   "",
   "━━━ Looping Counter Demo ━━━"]

/-- Runs the counter for 18 passes after its first instruction. -/
def demonstration : Outcome :=
  match Assembly.assemble counterSource with
  | .error error => .failure banner (.assemble error)
  | .ok program =>
    match Machine.initial.load program.words with
    | .error error => .failure banner (.loadProgram error)
    | .ok start =>
      .success (banner ++
        ["OUT: " ++ " ".intercalate (outputs 18 start.instruction),
         "",
         "✓ Counter wrapped from 15 back to 0"])

/-! ## All commands -/

/-- The outcome of a command. -/
def perform (files : Files) : Command → Outcome
  | .demonstrate => demonstration
  | .selfTest => selfTest
  | .run program maxTicks trace json => runProgram files program maxTicks trace json
  | .assemble source output? => assembleFile files source output?
  | .disassemble image => disassembleFile files image

/-- The outcome of some arguments. A question for the help has the exit code 0, and arguments that
make no sense have the exit code 2. What is printed in these two cases is left out. -/
def run (arguments : List String) (files : Files) : Outcome :=
  match parse arguments with
  | .ok command => perform files command
  | .error .help => { exit := 0 }
  | .error .version => .success ["sap1-emu 0.1.0"]
  | .error .usage => { exit := 2 }

/-- The file that a command reads. -/
def Command.input? : Command → Option String
  | .demonstrate | .selfTest => none
  | .run program _ _ _ => some program
  | .assemble source _ => some source
  | .disassemble image => some image

end NibbleComputer.CommandLine
