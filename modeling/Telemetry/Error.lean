import Telemetry.Document.Reader
import Telemetry.Files.Error
import Telemetry.Schema.Validation
import Telemetry.Stage

/-!
# Errors

Why no header can be composed: the document cannot be read from its file, its text is no document,
the document describes no schema, or the header cannot be written. Each belongs to a stage and has
an exit code of its own.
-/

namespace Telemetry

/-- Why no header can be composed. -/
inductive Error where
  | unreadable (path : String) (cause : FileError)
  | malformed (path : String) (cause : Json.ReadError)
  | invalid (cause : SchemaError)
  | unwritable (path : String) (cause : FileError)
deriving DecidableEq, Repr

namespace Error

/-- The message for an error. -/
def text : Error → String
  | unreadable path cause => "failed to read spec " ++ path ++ ": " ++ cause.text
  | malformed path cause => "failed to parse spec " ++ path ++ ": " ++ cause.text
  | invalid cause => cause.text
  | unwritable path cause => "failed to write " ++ path ++ ": " ++ cause.text

/-- The message of what lies behind an error. A schema error stands for itself. -/
def causeText? : Error → Option String
  | unreadable _ cause => some cause.text
  | malformed _ cause => some cause.text
  | invalid _ => none
  | unwritable _ cause => some cause.text

/-- The stage in which an error arises. -/
def stage : Error → Stage
  | unreadable _ _ | malformed _ _ => .load
  | invalid _ => .validate
  | unwritable _ _ => .write

/-- The exit code of a program that ends with an error. -/
def exitCode : Error → Nat
  | unreadable _ _ => 2
  | malformed _ _ => 3
  | invalid _ => 4
  | unwritable _ _ => 5

end Error

end Telemetry
