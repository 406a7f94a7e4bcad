/-!
# Stages

The steps by which a header is composed, in the order in which they are taken.
-/

namespace Telemetry

/-- A step of composing a header. -/
inductive Stage where
  | load
  | validate
  | enumeration
  | layouts
  | senders
  | formats
  | registrationTable
  | registrationFunction
  | finalize
  | write
deriving DecidableEq, Repr

namespace Stage

/-- All stages in order. -/
def all : List Stage :=
  [load, validate, enumeration, layouts, senders, formats, registrationTable, registrationFunction,
    finalize, write]

/-- How a stage is named in messages. -/
def text : Stage → String
  | load => "load"
  | validate => "validate"
  | enumeration => "enumeration"
  | layouts => "layouts"
  | senders => "send stubs"
  | formats => "format descriptors"
  | registrationTable => "registration table"
  | registrationFunction => "registration function"
  | finalize => "finalize"
  | write => "write"

end Stage

end Telemetry
