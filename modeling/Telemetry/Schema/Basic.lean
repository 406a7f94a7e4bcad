import Telemetry.Checksum
import Telemetry.WireType

/-!
# Schemas

A schema is the message types that the telemetry runtime knows, in order: each with the number and
the constant that identify it, and the types of its fields on the wire. From the name of a message
type follow the names of the C declarations made for it.
-/

namespace Telemetry

/-- A field of a message. -/
structure Field where
  name : String
  type : WireType
deriving DecidableEq, Repr

/-- A message type. -/
structure Message where
  /-- The name of the message type, part of the names of its C declarations. -/
  name : String
  /-- The enumeration constant that stands for the message type. -/
  ident : String
  /-- The number that identifies the message type. -/
  id : UInt8
  /-- Whether messages of the type come in bundles. -/
  bundle : Bool
  fields : List Field
deriving DecidableEq, Repr

namespace Message

/-- The name of the C structure that holds a message. -/
def layoutName (m : Message) : String := "msgspec_" ++ m.name ++ "_t"

/-- The name of the C array with the codes of the fields. -/
def formatName (m : Message) : String := "msgspec_binary_" ++ m.name

/-- The name of the C function that sends a message. -/
def senderName (m : Message) : String := "tbi_send_" ++ m.name

/-- The codes of the fields, in order. -/
def format (m : Message) : List UInt8 := m.fields.map (·.type.code)

/-- The number of bytes that the fields take on the wire. -/
def wireSize (m : Message) : Nat := m.fields.foldr (fun f size => f.type.width + size) 0

end Message

/-- The message types of a telemetry link, in order of declaration. -/
structure Schema where
  messages : List Message
deriving DecidableEq, Repr

namespace Schema

/-- The number of message types. -/
def size (s : Schema) : Nat := s.messages.length

/-- Whether there is no message type. -/
def isEmpty (s : Schema) : Bool := s.messages.isEmpty

/-- The message types that come in bundles. -/
def bundled (s : Schema) : List Message := s.messages.filter (·.bundle)

/-- The bytes that the checksum is taken of: of each message type the number, then the codes of its
fields. -/
def signature (s : Schema) : Bytes := s.messages.flatMap fun m => m.id :: m.format

/-- The checksum by which two ends of a link tell whether they use the same schema. -/
def checksum (s : Schema) : Checksum := Checksum.ofBytes s.signature

end Schema

end Telemetry
