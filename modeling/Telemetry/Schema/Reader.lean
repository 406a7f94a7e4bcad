import Telemetry.Error

/-!
# Reading schemas

The schema that the bytes of a document describe: the bytes must hold a document, and that must make
sense.
-/

namespace Telemetry

namespace Schema

/-- The schema that the bytes of a document describe; `path` is where they come from. -/
def ofBytes? (path : String) (bytes : Bytes) : Except Error Schema :=
  match Document.read? bytes with
  | .error e => .error (.malformed path e)
  | .ok d => (ofDocument? d).mapError .invalid

/-- The path shown for a document that does not come from a file. -/
def memoryPath : String := "<memory>"

/-- The schema that a document in memory describes. -/
def load? (bytes : Bytes) : Except Error Schema := ofBytes? memoryPath bytes

end Schema

end Telemetry
