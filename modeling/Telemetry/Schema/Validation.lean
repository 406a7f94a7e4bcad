import Telemetry.Document.Basic
import Telemetry.Schema.Basic
import Telemetry.Schema.Error

/-!
# From documents to schemas

`Schema.ofDocument?` turns a document into the schema it describes, or says what is wrong with it
first. Message types are examined in order, each against those before it (`accept`), and `examine`
keeps how far that came: the message types in front of the first problem, and the problem.

Within a message type the name comes first, then the id, then each field in order with its name, its
repetition and its type code; only then is the message type compared with the ones before it, first
by id, then by name. Names of message types must differ even without regard to case, because the
constants that stand for them are in upper case.
-/

namespace Telemetry

/-- A C identifier: a letter or an underscore, followed by letters, digits and underscores. -/
def isIdentifier (name : String) : Bool :=
  match name.toList with
  | [] => false
  | c :: cs => (c == '_' || c.isAlpha) && cs.all fun c => c == '_' || c.isAlphanum

/-- Refuses a name that is no identifier. -/
def checkIdentifier (name : String) : Except SchemaError Unit :=
  if isIdentifier name then .ok () else .error (.invalidIdentifier name)

/-- The wire type that a value stands for: the one whose code it is, as an integer. -/
def WireType.ofValue? : Json.Value → Option WireType
  | .number (.integer n) => if 0 ≤ n then ofCode? n.toNat else none
  | _ => none

/-- The least number that is no integer of 64 bits. -/
def integerBound : Nat := 1 <<< 64

/-- The id of a message type. Integers above 255 are out of range, and so are doubles from the
integers' bound on, since larger integers are read as doubles. Everything else that is no byte
counts as no id. -/
def checkId (message : String) : Option Json.Number → Except SchemaError UInt8
  | none => .error (.missingId message none)
  | some (.integer n) =>
    if n < 0 then .error (.missingId message (some (Json.Number.integer n).text))
    else if n ≤ 255 then .ok n.toNat.toUInt8
    else .error (.idOutOfRange message (Json.Number.integer n).text)
  | some (.double negative x) =>
    let text := (Json.Number.double negative x).text
    if !negative && x.atLeast integerBound then .error (.idOutOfRange message text)
    else .error (.missingId message (some text))

/-- A field of a message type, given the fields before it. -/
def checkField (message : String) (earlier : List Field) (name : String) (code : Json.Value) :
    Except SchemaError Field := do
  checkIdentifier name
  if earlier.any (·.name = name) then .error (.duplicateField message name)
  else
    match WireType.ofValue? code with
    | none => .error (.unknownType message name code.text)
    | some type => .ok ⟨name, type⟩

/-- The fields of a message type: those before, and the ones described. -/
def checkFields (message : String) (earlier : List Field) :
    List (String × Json.Value) → Except SchemaError (List Field)
  | [] => .ok earlier
  | (name, code) :: rest => do
    let field ← checkField message earlier name code
    checkFields message (earlier ++ [field]) rest

/-- The constant that stands for a message type: its name in upper case. -/
def constantOf (name : String) : String := name.map Char.toUpper

/-- A message type by itself. -/
def checkMessage (name : String) (definition : Definition) : Except SchemaError Message := do
  checkIdentifier name
  let id ← checkId name definition.id
  let fields ← checkFields name [] definition.fields
  .ok ⟨name, constantOf name, id, definition.bundle, fields⟩

/-- A message type, given those before it, from which it must differ in id and in name. -/
def accept (earlier : List Message) (name : String) (definition : Definition) :
    Except SchemaError Message := do
  let m ← checkMessage name definition
  match earlier.find? (·.id = m.id) with
  | some first => .error (.duplicateId m.id first.name m.name)
  | none =>
    match earlier.find? (·.ident = m.ident) with
    | some first => .error (.duplicateName m.ident first.name m.name)
    | none => .ok m

/-- How far a document makes sense: the message types before the first problem, and the problem. -/
structure Examination where
  accepted : List Message
  problem : Option SchemaError
deriving DecidableEq, Repr

/-- Examines message types in order, after those already accepted. -/
def examineAfter (earlier : List Message) : Document → Examination
  | [] => ⟨earlier, none⟩
  | (name, definition) :: rest =>
    match accept earlier name definition with
    | .error e => ⟨earlier, some e⟩
    | .ok m => examineAfter (earlier ++ [m]) rest

namespace Document

/-- Examines a document. There must be a message type, as a C enumeration cannot be empty. -/
def examine (d : Document) : Examination :=
  if d = [] then ⟨[], some .noMessages⟩ else examineAfter [] d

end Document

/-- The outcome of an examination. -/
def Examination.schema? (x : Examination) : Except SchemaError Schema :=
  match x.problem with
  | some e => .error e
  | none => .ok ⟨x.accepted⟩

/-- The schema that a document describes. -/
def Schema.ofDocument? (d : Document) : Except SchemaError Schema := d.examine.schema?

end Telemetry
