import Telemetry.Json.Value

/-!
# Documents

A document describes message types: it is an object with one member per message type. It is kept as
it was written, members in their order and repeated names as often as they occur. Whether it makes
sense is asked later, so an id may be any number, and the type code of a field any value.
-/

namespace Telemetry

/-- What a document says about a message type. -/
structure Definition where
  /-- The number that identifies the message type, if one is given. -/
  id : Option Json.Number
  /-- Whether messages of the type come in bundles. -/
  bundle : Bool
  /-- The names of the fields and their type codes. -/
  fields : List (String × Json.Value)
deriving Repr

/-- A document: the names of message types and what it says about each. -/
abbrev Document := List (String × Definition)

end Telemetry
