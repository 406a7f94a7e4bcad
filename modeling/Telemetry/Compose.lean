import Telemetry.Files.Replacement
import Telemetry.Header.Text
import Telemetry.Schema.Reader
import Telemetry.Text.Utf8

/-!
# Composing headers

The whole way from a document in a file to a header in another: `loadSchema` reads the document and
examines it, `composeHeader` makes the header, and `compose` either puts that in the place of the
output file or only compares the two.
-/

namespace Telemetry

/-- The output file if none is named. -/
def defaultOutput : String := "generated/messagespec.h"

/-- What is to be done with the header. -/
inductive Mode where
  /-- It replaces the output file. -/
  | write
  /-- It is compared with the output file, which stays as it is. -/
  | check
deriving DecidableEq, Repr

/-- What to compose from what. -/
structure Config where
  input : String
  output : String := defaultOutput
  mode : Mode := .write
deriving DecidableEq, Repr

/-- How composing ended, if not with an error. -/
inductive Outcome where
  | written (messages bytes : Nat)
  | upToDate
  | stale
deriving DecidableEq, Repr

/-- The events noted while a document is examined: its size, and each message type that passes. -/
def Document.examinationEvents (d : Document) : List Event :=
  .validating d.length :: d.examine.accepted.map fun m => .accepted m.name m.id m.fields.length

/-- The events noted while the bytes of a file are made a schema: none, if they hold no document. -/
def loadEvents (bytes : Bytes) : List Event :=
  match Document.read? bytes with
  | .error _ => []
  | .ok d => d.examinationEvents

/-- The events noted while a header is made. -/
def headerEvents : List Event :=
  [.emitting .enumeration, .emitting .layouts, .emitting .senders, .emitting .formats,
    .emitting .registrationTable, .emitting .registrationFunction, .closing]

namespace Program

/-- The schema that a file describes. -/
def loadSchema (path : String) : Program (Except Error Schema) := do
  noteAll [.reading path]
  match ← read (.ofString path) with
  | .error e => pure (.error (.unreadable path e))
  | .ok bytes => do
    noteAll (loadEvents bytes)
    pure (Schema.ofBytes? path bytes)

/-- The bytes of the header of a schema. -/
def composeHeader (s : Schema) : Program Bytes := do
  noteAll headerEvents
  pure (Text.Utf8.ofString s.headerText)

/-- Puts a header in the place of a file. -/
def writeHeader (writer : Nat) (path : String) (s : Schema) (header : Bytes) :
    Program (Except Error Outcome) := do
  noteAll [.committing path]
  match ← replaceFile writer (.ofString path) header with
  | .error e => pure (.error (.unwritable path e))
  | .ok () => do
    noteAll [.composed path s.size]
    pure (.ok (.written s.size header.length))

/-- Compares a header with a file. A file that does not exist is not up to date. -/
def checkHeader (path : String) (header : Bytes) : Program (Except Error Outcome) := do
  match ← read (.ofString path) with
  | .ok bytes => pure (.ok (if bytes = header then .upToDate else .stale))
  | .error .notFound => do
    noteAll [.noOutput path]
    pure (.ok .stale)
  | .error e => pure (.error (.unwritable path e))

/-- Composes a header. -/
def compose (writer : Nat) (config : Config) : Program (Except Error Outcome) := do
  match ← loadSchema config.input with
  | .error e => pure (.error e)
  | .ok s => do
    let header ← composeHeader s
    match config.mode with
    | .write => writeHeader writer config.output s header
    | .check => checkHeader config.output header

end Program

end Telemetry
