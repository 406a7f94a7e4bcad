import Telemetry.Compose

/-!
# Arguments

What the arguments of the command mean. They are taken from left to right, and the first that is
wrong decides.

A value that stands in an argument of its own, be it the path or the value of an option, is looked
at only when the next argument has been recognised, or at the end: until then it is pending
(`Progress.pending`). So an argument that is unknown, has a value it should not have, or is one path
too many is reported even if a pending value is wrong too.
-/

namespace Telemetry

/-- Why arguments are not accepted. Asking for help is one reason. -/
inductive UsageError where
  | helpRequested
  | unknownArgument
  | tooManyValues
  | invalidValue
  | repeatedOption
  | missingPath
deriving DecidableEq, Repr

/-- What the command is to do, and how often it was asked to say more. -/
structure Invocation where
  config : Config
  verbosity : Nat
deriving DecidableEq, Repr

/-- A value that has not been looked at yet. -/
inductive Pending where
  | path (value : String)
  /-- The value of the output option; none if it has yet to come. -/
  | output (value : Option String)
deriving DecidableEq, Repr

/-- What the arguments so far have said. -/
structure Progress where
  path : Option String := none
  output : Option String := none
  check : Bool := false
  verbosity : Nat := 0
  pending : Option Pending := none
deriving DecidableEq, Repr

/-- The verbosity stops here. -/
def greatestVerbosity : Nat := 255

namespace Progress

/-- Takes the path, which must not be empty. -/
def setPath (x : Progress) (value : String) : Except UsageError Progress :=
  if value = "" then .error .invalidValue else .ok { x with path := some value }

/-- Takes the value of the output option, which may be given once and must not be empty. -/
def setOutput (x : Progress) (value : String) : Except UsageError Progress :=
  if x.output.isSome then .error .repeatedOption
  else if value = "" then .error .invalidValue
  else .ok { x with output := some value }

/-- Looks at the value that is pending. -/
def settle (x : Progress) : Except UsageError Progress :=
  let y := { x with pending := none }
  match x.pending with
  | none => .ok x
  | some (.path value) => y.setPath value
  | some (.output none) => .error .invalidValue
  | some (.output (some value)) => y.setOutput value

/-- Takes a mark for more verbosity. -/
def addVerbosity (x : Progress) : Except UsageError Progress := do
  let x ← x.settle
  .ok { x with verbosity := min (x.verbosity + 1) greatestVerbosity }

/-- Takes the option to check only, which may be given once. -/
def setCheck (x : Progress) : Except UsageError Progress := do
  let x ← x.settle
  if x.check then .error .repeatedOption else .ok { x with check := true }

/-- Takes the request for help. -/
def requestHelp (x : Progress) : Except UsageError Progress := do
  let _ ← x.settle
  .error .helpRequested

/-- Takes the output option, with its value if that is attached. -/
def startOutput (x : Progress) (attached : Option String) : Except UsageError Progress := do
  let x ← x.settle
  match attached with
  | some value => x.setOutput value
  | none => .ok { x with pending := some (.output none) }

/-- Whether there has been a path. -/
def hasPath (x : Progress) : Bool :=
  match x.pending with
  | some (.path _) => true
  | _ => x.path.isSome

/-- Takes an argument that is no option: the path, of which there is only one. -/
def addPositional (x : Progress) (value : String) : Except UsageError Progress := do
  if x.hasPath then .error .unknownArgument
  else
    let x ← x.settle
    .ok { x with pending := some (.path value) }

/-- Takes an argument that is no option where options may stand: the value of an output option that
is waiting for one, else the path. -/
def addValue (x : Progress) (value : String) : Except UsageError Progress :=
  if x.pending = some (.output none) then .ok { x with pending := some (.output (some value)) }
  else x.addPositional value

/-- Takes an option by its long name, with the value attached to it. -/
def addLong (x : Progress) (name : String) (attached : Option String) :
    Except UsageError Progress :=
  if name = "output" then x.startOutput attached
  else if name = "verbose" ∨ name = "check" ∨ name = "help" then
    if attached.isSome then .error .tooManyValues
    else if name = "verbose" then x.addVerbosity
    else if name = "check" then x.setCheck
    else x.requestHelp
  else .error .unknownArgument

/-- The value attached to an option by its letter: what follows, without an equals sign in front. -/
def attachedValue : List Char → Option String
  | [] => none
  | '=' :: cs => some (String.ofList cs)
  | cs => some (String.ofList cs)

/-- Takes options by their letters. What follows the letter of the output option is its value. -/
def addLetters (x : Progress) : List Char → Except UsageError Progress
  | [] => .ok x
  | c :: cs =>
    if c = 'v' then do addLetters (← x.addVerbosity) cs
    else if c = 'h' then x.requestHelp
    else if c = 'o' then x.startOutput (attachedValue cs)
    else .error .unknownArgument

/-- Splits the text of a long option at its first equals sign. -/
def splitLong (cs : List Char) : String × Option String :=
  let name := cs.takeWhile (· != '=')
  (String.ofList name, ((cs.drop name.length).tail?).map String.ofList)

/-- Takes arguments behind the mark that ends the options. -/
def addPositionals (x : Progress) : List String → Except UsageError Progress
  | [] => .ok x
  | a :: rest => do addPositionals (← x.addPositional a) rest

/-- Takes arguments. -/
def addAll (x : Progress) : List String → Except UsageError Progress
  | [] => .ok x
  | a :: rest =>
    match a.toList with
    | ['-', '-'] => x.addPositionals rest
    | '-' :: '-' :: cs => do
      let (name, attached) := splitLong cs
      addAll (← x.addLong name attached) rest
    | '-' :: c :: cs => do addAll (← x.addLetters (c :: cs)) rest
    | _ => do addAll (← x.addValue a) rest

end Progress

namespace Invocation

/-- What the arguments mean. -/
def ofArguments? (arguments : List String) : Except UsageError Invocation := do
  let x ← (← Progress.addAll {} arguments).settle
  match x.path with
  | none => .error .missingPath
  | some path =>
    .ok ⟨⟨path, x.output.getD defaultOutput, if x.check then .check else .write⟩, x.verbosity⟩

/-- The least important level that is shown. -/
def level (x : Invocation) : Level :=
  match x.verbosity with
  | 0 => .warn
  | 1 => .debug
  | _ => .trace

end Invocation

end Telemetry
