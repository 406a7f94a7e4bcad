/-!
# Schema errors

What can be wrong with a document that can be read, with the names and values that a message about
it shows.
-/

namespace Telemetry

/-- Why a document describes no schema. -/
inductive SchemaError where
  | noMessages
  | missingId (message : String) (found : Option String)
  | idOutOfRange (message id : String)
  | unknownType (message field code : String)
  | duplicateId (id : UInt8) (first second : String)
  | duplicateName (ident first second : String)
  | duplicateField (message field : String)
  | invalidIdentifier (name : String)
deriving DecidableEq, Repr

/-- A name or value between backticks. -/
private def ticked (s : String) : String := "`" ++ s ++ "`"

/-- The message for a schema error. -/
def SchemaError.text : SchemaError → String
  | noMessages => "spec declares no message types"
  | missingId message found =>
    "message type " ++ ticked message ++ " has no valid id (found " ++ found.getD "nothing" ++ ")"
  | idOutOfRange message id =>
    "message type " ++ ticked message ++ " has id " ++ id ++ ", ids must fit in a byte"
  | unknownType message field code =>
    "field " ++ ticked field ++ " of message type " ++ ticked message ++
      " has unknown type code " ++ code
  | duplicateId id first second =>
    "message types " ++ ticked first ++ " and " ++ ticked second ++ " share id " ++
      toString id.toNat
  | duplicateName ident first second =>
    "message types " ++ ticked first ++ " and " ++ ticked second ++ " both map to " ++ ticked ident
  | duplicateField message field =>
    "message type " ++ ticked message ++ " declares field " ++ ticked field ++ " more than once"
  | invalidIdentifier name => ticked name ++ " is not a valid C identifier"

end Telemetry
