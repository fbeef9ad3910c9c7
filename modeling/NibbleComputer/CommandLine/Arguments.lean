import NibbleComputer.Text.Numeral

/-!
# Arguments

The arguments of the program: settings, the name of a command, and its operands. A setting has a
long name after two dashes and may have a letter after one dash; letters share a dash, the last
of them with a value behind it. A value also follows an equals sign or is the next argument.
After `--` every argument is an operand. The help and the version may be asked for instead of a
command; what comes before such a question must make sense, and what comes after it is not read.

- `CommandLine.Command`: what the program is asked to do.
- `CommandLine.Stop`: why there is no command.
- `CommandLine.scan`: arguments as settings and operands, up to where they stop.
- `CommandLine.parse`: arguments as a command.
-/

namespace NibbleComputer.CommandLine

/-- What the program is asked to do. -/
inductive Command where
  /-- The demonstration. -/
  | demonstrate
  /-- The self test. -/
  | selfTest
  /-- Run a program up to a number of ticks. -/
  | run (program : String) (maxTicks : UInt64) (trace json : Bool)
  /-- Assemble a source, to a file or to a listing. -/
  | assemble (source : String) (output? : Option String)
  /-- List an image. -/
  | disassemble (image : String)
deriving DecidableEq

/-- Why there is no command to carry out. -/
inductive Stop where
  /-- The arguments make no sense. -/
  | usage
  /-- The help is asked for. -/
  | help
  /-- The version is asked for. -/
  | version
deriving DecidableEq

/-! ## Settings -/

/-- A setting. -/
inductive Setting where
  /-- More of the log is to be printed, the more often it is given. An outcome leaves the log out,
  so nothing here depends on it. -/
  | verbose
  | help
  | version
  | maxTicks
  | trace
  | json
  | output
deriving DecidableEq

namespace Setting

/-- The name after two dashes. -/
def name : Setting → String
  | verbose => "verbose"
  | help => "help"
  | version => "version"
  | maxTicks => "max-ticks"
  | trace => "trace"
  | json => "json"
  | output => "output"

/-- The letter after one dash. -/
def letter? : Setting → Option Char
  | verbose => some 'v'
  | help => some 'h'
  | version => some 'V'
  | maxTicks => some 'm'
  | trace => some 't'
  | json => none
  | output => some 'o'

/-- Whether the setting has a value. -/
def takesValue : Setting → Bool
  | maxTicks | output => true
  | verbose | help | version | trace | json => false

/-- Whether the setting may be given more than once. -/
def repeats : Setting → Bool
  | verbose => true
  | _ => false

/-- Where a setting ends the scan, what it asks for. -/
def stop? : Setting → Option Stop
  | help => some .help
  | version => some .version
  | _ => none

end Setting

/-! ## Scanning -/

/-- A setting with its value, or an operand. -/
inductive Item where
  | setting (setting : Setting) (value? : Option String)
  | operand (text : String)
deriving DecidableEq

/-- What an argument has been read as: its items, and the setting that still waits for a value or
why the scan stops. -/
abbrev Read := List Item × Except Stop (Option Setting)

/-- A setting without a value, unless it ends the scan. -/
def accept (setting : Setting) : Read :=
  match setting.stop? with
  | some stop => ([], .error stop)
  | none => ([.setting setting none], .ok none)

/-- The settings behind one dash. -/
def scanLetters (allowed : List Setting) : List Char → Read
  | [] => ([], .ok none)
  | c :: rest =>
    match allowed.find? fun setting => setting.letter? == some c with
    | none => ([], .error .usage)
    | some setting =>
      if setting.takesValue then
        match rest with
        | [] => ([], .ok (some setting))
        | '=' :: value => ([.setting setting (some (String.ofList value))], .ok none)
        | value => ([.setting setting (some (String.ofList value))], .ok none)
      else
        match accept setting with
        | (items, .error stop) => (items, .error stop)
        | (items, .ok _) =>
          let others := scanLetters allowed rest
          (items ++ others.1, others.2)

/-- The setting behind two dashes. -/
def scanName (allowed : List Setting) (text : List Char) : Read :=
  let name := String.ofList (text.takeWhile (· != '='))
  match allowed.find? fun setting => setting.name == name with
  | none => ([], .error .usage)
  | some setting =>
    match text.dropWhile (· != '=') with
    | [] => if setting.takesValue then ([], .ok (some setting)) else accept setting
    | _ :: value =>
      if setting.takesValue then ([.setting setting (some (String.ofList value))], .ok none)
      else ([], .error .usage)

/-- How an argument reads before any `--`. -/
inductive Shape where
  /-- Two dashes and nothing else. -/
  | separator
  /-- Two dashes and a name. -/
  | name (text : List Char)
  /-- One dash and letters. -/
  | letters (text : List Char)
  /-- Anything else, a lone dash among it. -/
  | plain

/-- The shape of an argument. -/
def shape (argument : String) : Shape :=
  match argument.toList with
  | ['-', '-'] => .separator
  | '-' :: '-' :: text => .name text
  | ['-'] => .plain
  | '-' :: text => .letters text
  | _ => .plain

/-- The settings of an argument, unless it is an operand. -/
def scanSettings? (allowed : List Setting) (argument : String) : Option Read :=
  match shape argument with
  | .name text => some (scanName allowed text)
  | .letters text => some (scanLetters allowed text)
  | .separator | .plain => none

/-- The arguments of a command as settings and operands, up to where the scan stops, if it does. A
setting that waits for a value takes the next argument, which must not start with a dash and
more. -/
def scan (allowed : List Setting) : (waiting? : Option Setting) → List String →
    List Item × Option Stop
  | none, [] => ([], none)
  | some _, [] => ([], some .usage)
  | some setting, argument :: rest =>
    match shape argument with
    | .plain =>
      let others := scan allowed none rest
      (.setting setting (some argument) :: others.1, others.2)
    | _ => ([], some .usage)
  | none, argument :: rest =>
    match scanSettings? allowed argument with
    | some (items, .error stop) => (items, some stop)
    | some (items, .ok waiting?) =>
      let others := scan allowed waiting? rest
      (items ++ others.1, others.2)
    | none =>
      match shape argument with
      | .separator => (rest.map .operand, none)
      | _ =>
        let others := scan allowed none rest
        (.operand argument :: others.1, others.2)

/-! ## Commands -/

/-- The operands among some items. -/
def operands (items : List Item) : List String :=
  items.filterMap fun
    | .operand text => some text
    | .setting _ _ => none

/-- The values with which a setting is given. -/
def valuesOf (items : List Item) (setting : Setting) : List (Option String) :=
  items.filterMap fun
    | .setting given value? => if given = setting then some value? else none
    | .operand _ => none

/-- Whether a setting is given. -/
def isGiven (items : List Item) (setting : Setting) : Bool :=
  !(valuesOf items setting).isEmpty

/-- The value of a setting, if it is given. -/
def valueOf? (items : List Item) (setting : Setting) : Option String :=
  (valuesOf items setting).head?.join

/-- Whether no setting is given more often than it may. -/
def isConsistent (allowed : List Setting) (items : List Item) : Bool :=
  allowed.all fun setting => setting.repeats || (valuesOf items setting).length ≤ 1

/-- The settings before the name of a command. -/
def rootSettings : List Setting := [.verbose, .help, .version]

/-- The settings of a command with the given name, if there is one, and how many operands it
has. -/
def formOf? : String → Option (List Setting × Nat)
  | "run" => some ([.verbose, .help, .maxTicks, .trace, .json], 1)
  | "asm" => some ([.verbose, .help, .output], 1)
  | "disasm" => some ([.verbose, .help], 1)
  | "test" => some ([.verbose, .help], 0)
  | _ => none

/-- The limit on the ticks that is given, or the default, unless it is no number. -/
def maxTicks? (items : List Item) : Option UInt64 :=
  match valueOf? items .maxTicks with
  | none => some 1000
  | some value => Text.readUInt64? 10 value.toList

/-- The command with the given name, operands and settings. -/
def command? (name : String) (items : List Item) : Option Command :=
  match name, operands items with
  | "run", [program] => (maxTicks? items).map fun maxTicks =>
    .run program maxTicks (isGiven items .trace) (isGiven items .json)
  | "asm", [source] => some (.assemble source (valueOf? items .output))
  | "disasm", [image] => some (.disassemble image)
  | "test", [] => some .selfTest
  | _, _ => none

/-- The command with the given name and arguments. Items before a stop that could belong to no
command make no sense, whatever the stop asks for. -/
def parseCommand (name : String) (arguments : List String) : Except Stop Command :=
  match formOf? name with
  | none => .error .usage
  | some (allowed, most) =>
    let (items, stop?) := scan allowed none arguments
    if !isConsistent allowed items || most < (operands items).length || (maxTicks? items).isNone
    then .error .usage
    else match stop? with
      | some stop => .error stop
      | none => match command? name items with
        | none => .error .usage
        | some command => .ok command

/-- What the command `help` comes to. It may be given the name of a command, its own among them. -/
def parseHelp : List String → Stop
  | [] => .help
  | [name] => if name = "help" ∨ (formOf? name).isSome then .help else .usage
  | _ :: _ :: _ => .usage

/-- The command that the arguments ask for. Before its name there are only settings. -/
def parse : List String → Except Stop Command
  | [] => .ok .demonstrate
  | argument :: rest =>
    match scanSettings? rootSettings argument with
    | some (_, .error stop) => .error stop
    | some (_, .ok _) => parse rest
    | none =>
      match shape argument with
      | .separator => if rest.isEmpty then .ok .demonstrate else .error .usage
      | _ => if argument = "help" then .error (parseHelp rest) else parseCommand argument rest

end NibbleComputer.CommandLine
