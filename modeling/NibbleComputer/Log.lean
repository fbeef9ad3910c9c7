/-!
# Log messages

- `Log.Level`, `Log.Message`: a message with its level.
- `Log.Message.display`: the message as a line of a log.
-/

namespace NibbleComputer.Log

/-- How much detail a message gives. -/
inductive Level where
  | trace
  | debug
deriving DecidableEq

/-- The name of a level in a log. -/
def Level.label : Level → String
  | trace => "TRACE"
  | debug => "DEBUG"

/-- A message of a log. -/
structure Message where
  level : Level
  text : String
deriving DecidableEq

/-- The level and the text of a message. -/
def Message.display (message : Message) : String :=
  message.level.label ++ " " ++ message.text

end NibbleComputer.Log
