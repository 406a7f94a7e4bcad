import Telemetry.Stage
import Telemetry.Text.Quoted

/-!
# Events

What is noted while a header is composed. Every event has a level, the part of the program it
belongs to, a message and fields; all of them together make its line in the log.
-/

namespace Telemetry

/-- How important a line in the log is. -/
inductive Level where
  | error
  | warn
  | info
  | debug
  | trace
deriving DecidableEq, Repr

namespace Level

/-- The name of a level. -/
def text : Level → String
  | error => "ERROR"
  | warn => "WARN"
  | info => "INFO"
  | debug => "DEBUG"
  | trace => "TRACE"

/-- The place of a level in the order from the most important to the least. -/
def rank : Level → Nat
  | error => 0
  | warn => 1
  | info => 2
  | debug => 3
  | trace => 4

/-- Whether lines of a level are shown if `limit` is the least important level to be shown. -/
def shownAt (level limit : Level) : Bool := level.rank ≤ limit.rank

end Level

/-- Something noted while a header is composed. -/
inductive Event where
  /-- A document is about to be read from a file. -/
  | reading (path : String)
  /-- A document with so many message types is about to be examined. -/
  | validating (messages : Nat)
  /-- A message type has passed all checks. -/
  | accepted (name : String) (id : UInt8) (fields : Nat)
  /-- A section of the header is about to be made. -/
  | emitting (stage : Stage)
  /-- The sections are about to be put together. -/
  | closing
  /-- The header is about to be written. -/
  | committing (path : String)
  /-- The header has been written. -/
  | composed (path : String) (messages : Nat)
  /-- There is no file to compare the header with. -/
  | noOutput (path : String)
deriving DecidableEq, Repr

/-- How a character of a message stands in the log. Control characters that a terminal might obey
are shown by their number: the bell, the backspace, the form feed, the escape and the delete
character by two digits, those above ASCII between braces. -/
def logChar (c : Char) : String :=
  match c with
  | '\x07' => "\\x07"
  | '\x08' => "\\x08"
  | '\x0c' => "\\x0c"
  | '\x1b' => "\\x1b"
  | '\x7f' => "\\x7f"
  | c =>
    if 0x80 ≤ c.toNat ∧ c.toNat < 0xa0 then "\\u\x7b" ++ Text.hexDigits c.toNat ++ "\x7d"
    else String.singleton c

/-- A line in the log: the level, the part of the program, the message, and fields by name. -/
def logLine (level : Level) (source message : String) (fields : List (String × String)) : String :=
  level.text ++ " " ++ source ++ ": " ++ String.join (message.toList.map logChar)
    ++ String.join (fields.map fun (name, value) => " " ++ name ++ "=" ++ value)

namespace Event

/-- The level of an event. -/
def level : Event → Level
  | accepted _ _ _ => .trace
  | composed _ _ => .info
  | _ => .debug

/-- The part of the program that an event belongs to. -/
def source : Event → String
  | accepted _ _ _ => "msgspec_codegen::repr"
  | emitting _ => "msgspec_codegen::codegen"
  | _ => "msgspec_codegen::compose"

/-- The stage that an event announces. -/
def stage? : Event → Option Stage
  | reading _ => some .load
  | validating _ => some .validate
  | emitting stage => some stage
  | closing => some .finalize
  | committing _ => some .write
  | accepted _ _ _ | composed _ _ | noOutput _ => none

/-- The message of an event. -/
def message : Event → String
  | reading _ => "reading spec"
  | validating _ => "validating spec"
  | accepted _ _ _ => "validated message type"
  | emitting _ => "emitting"
  | closing => "closing include guard"
  | committing _ => "committing"
  | composed _ _ => "message spec composition done"
  | noOutput _ => "no existing output"

/-- The names and values that follow the message, beside the stage. -/
def details : Event → List (String × String)
  | reading path => [("path", path)]
  | validating messages => [("message_types", toString messages)]
  | accepted name id fields =>
    [("name", Text.quoted name), ("id", toString id.toNat), ("fields", toString fields)]
  | emitting _ => []
  | closing => []
  | committing path => [("path", path)]
  | composed path messages => [("path", path), ("message_types", toString messages)]
  | noOutput path => [("path", path)]

/-- The line of an event in the log: message, stage if it announces one, and details. -/
def line (e : Event) : String :=
  let stage := (e.stage?.map fun stage => [("stage", stage.text)]).getD []
  logLine e.level e.source e.message (stage ++ e.details)

end Event

end Telemetry
