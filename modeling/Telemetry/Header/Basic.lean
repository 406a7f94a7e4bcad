import Telemetry.Schema.Basic

/-!
# Headers

What a generated C header declares for a schema, as data: enumeration constants, layouts, functions
that send, arrays of type codes and the rows of the registration table. The declarations refer to
each other by name only, and all names come from the names and constants of the message types.
-/

namespace Telemetry

/-- A constant of the enumeration of message types. -/
structure Enumerator where
  ident : String
  value : UInt8
deriving DecidableEq, Repr

/-- A C structure that holds a message. -/
structure Layout where
  /-- The message type that the comment names. -/
  message : String
  /-- The number of bytes on the wire that the comment gives. -/
  size : Nat
  /-- C type and name of each member. -/
  members : List (String × String)
  name : String
deriving DecidableEq, Repr

/-- A C function that sends a message. -/
structure Sender where
  function : String
  layout : String
  ident : String
deriving DecidableEq, Repr

/-- A C array with the codes of the fields of a message. -/
structure FormatArray where
  name : String
  codes : List UInt8
deriving DecidableEq, Repr

/-- A row of the registration table. -/
structure Row where
  ident : String
  bundle : Bool
  layout : String
  formatLength : Nat
  format : String
deriving DecidableEq, Repr

/-- The declarations of a header. -/
structure Header where
  enumerators : List Enumerator
  /-- The constants of the message types that come in bundles. -/
  bundled : List String
  layouts : List Layout
  senders : List Sender
  formats : List FormatArray
  rows : List Row
  checksum : Checksum
deriving DecidableEq, Repr

namespace Message

/-- The enumeration constant of a message type. -/
def enumerator (m : Message) : Enumerator := ⟨m.ident, m.id⟩

/-- The layout of a message type. -/
def layout (m : Message) : Layout :=
  ⟨m.name, m.wireSize, m.fields.map fun f => (f.type.cType, f.name), m.layoutName⟩

/-- The function that sends messages of a type. -/
def sender (m : Message) : Sender := ⟨m.senderName, m.layoutName, m.ident⟩

/-- The array with the codes of the fields of a message type. -/
def formatArray (m : Message) : FormatArray := ⟨m.formatName, m.format⟩

/-- The row of a message type in the registration table. -/
def row (m : Message) : Row := ⟨m.ident, m.bundle, m.layoutName, m.fields.length, m.formatName⟩

end Message

/-- The header of a schema: of each kind of declaration one per message type, in order. -/
def Schema.header (s : Schema) : Header where
  enumerators := s.messages.map Message.enumerator
  bundled := s.bundled.map Message.ident
  layouts := s.messages.map Message.layout
  senders := s.messages.map Message.sender
  formats := s.messages.map Message.formatArray
  rows := s.messages.map Message.row
  checksum := s.checksum

end Telemetry
