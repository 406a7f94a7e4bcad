import Telemetry.Document.Basic
import Telemetry.Json.Reader

/-!
# Reading documents

A definition is an object with the members `id`, `bundle` and `data_types`, each at most once and
each optional; members under other keys are passed over. It may also be a list of these three in
this order, of which the first must be there.
-/

namespace Telemetry

open Json

/-- How deep brackets may be nested in a type code, which itself stands inside three of them. -/
def codeDepth : Nat := depthLimit - 3

/-- Reads an id, which is a number or null. -/
def readId (s : Bytes) : Except Fault (Option Number × Bytes) := do
  let wanted := "a JSON number"
  let (found, s) ← readFound (skipBlanks s)
  match found with
  | .null => .ok (none, s)
  | .number n => .ok (some n, s)
  | .list => .error (faultOfList (.mismatch .list wanted) (s.drop 1))
  | .object => .error (faultOfObject (.mismatch .object wanted) (s.drop 1))
  | found => .error (.here (.mismatch found wanted) s)

/-- Reads a bundle flag. -/
def readBundle (s : Bytes) : Except Fault (Bool × Bytes) := do
  let (found, s) ← readFound (skipBlanks s)
  match found with
  | .boolean b => .ok (b, s)
  | found => .error (.here (.mismatch found "a boolean") s)

/-- Reads an object whose members are all of one kind, in the order written. -/
def readOrdered {α : Type} (value : Scan α) (s : Bytes) :
    Except Fault (List (String × α) × Bytes) := do
  let (found, s) ← readFound (skipBlanks s)
  match found with
  | .object => readMembers value (s.drop 1)
  | found => .error (.here (.mismatch found "a JSON object") s)

/-- Reads the fields of a message type. -/
def readFields : Scan (List (String × Value)) := readOrdered (readValue codeDepth)

/-- The members of a definition that have been read so far. -/
structure Draft where
  id : Option (Option Number)
  bundle : Option Bool
  fields : Option (List (String × Value))

namespace Draft

/-- The draft of which nothing has been read. -/
def empty : Draft := ⟨none, none, none⟩

/-- The definition with what is missing filled in. -/
def definition (x : Draft) : Definition where
  id := x.id.getD none
  bundle := x.bundle.getD false
  fields := x.fields.getD []

/-- Reads the value of a member into a place that must be free. That it is not is noticed in front
of the colon. -/
def readInto {α : Type} (key : String) (place : Option α) (value : Scan α) (s : Bytes) :
    Except Fault (α × Bytes) :=
  match place with
  | some _ => .error (faultOfObject (.repeatedMember key) s)
  | none => do value (← readColon s)

/-- Reads a member of a definition behind its key. -/
def readMember (x : Draft) (key : String) (s : Bytes) : Except Fault (Draft × Bytes) :=
  if key = "id" then do
    let (id, s) ← readInto key x.id readId s
    .ok ({ x with id := some id }, s)
  else if key = "bundle" then do
    let (bundle, s) ← readInto key x.bundle readBundle s
    .ok ({ x with bundle := some bundle }, s)
  else if key = "data_types" then do
    let (fields, s) ← readInto key x.fields readFields s
    .ok ({ x with fields := some fields }, s)
  else do
    let s ← skipValue (← readColon s)
    .ok (x, s)

end Draft

/-- What a definition is called where something else stands. -/
def definitionText : String := "struct MessageDef"

/-- Reads the next item of a list, or takes the default if there is none. -/
def readItemOr {α : Type} (default : α) (item : Scan α) (s : Bytes) : Except Fault (α × Bytes) := do
  match ← nextItem false s with
  | none => .ok (default, s)
  | some s => item s

/-- Reads a definition written as an object, behind the bracket. -/
def readObjectDefinition (s : Bytes) : Except Fault (Definition × Bytes) := do
  let (x, s) ← foldMembers Draft.readMember true .empty s
  let s ← readEnd (objectEnd s)
  .ok (x.definition, s)

/-- Reads a definition written as a list, behind the bracket. -/
def readListDefinition (s : Bytes) : Except Fault (Definition × Bytes) := do
  match ← nextItem true s with
  | none => .error (faultOfList (.tooFewItems 0 (definitionText ++ " with 3 elements")) s)
  | some s =>
    let (id, s) ← readId s
    let (bundle, s) ← readItemOr false readBundle s
    let (fields, s) ← readItemOr [] readFields s
    let s ← readEnd (listEnd s)
    .ok (⟨id, bundle, fields⟩, s)

/-- Reads the definition of a message type. -/
def readDefinition (s : Bytes) : Except Fault (Definition × Bytes) := do
  let (found, s) ← readFound (skipBlanks s)
  match found with
  | .object => readObjectDefinition (s.drop 1)
  | .list => readListDefinition (s.drop 1)
  | found => .error (.here (.mismatch found definitionText) s)

/-- The document that some bytes hold. -/
def Document.read? (bytes : Bytes) : Except ReadError Document :=
  readWhole (readOrdered readDefinition) bytes

end Telemetry
