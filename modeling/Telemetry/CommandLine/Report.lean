import Telemetry.CommandLine.Arguments

/-!
# Reports

What the command prints and the code it exits with. The lines of events that are shown go to the
error output while the command works; `Invocation.conclusion` is what comes last.
-/

namespace Telemetry

/-- What a command leaves behind: its exit code and what it printed. -/
structure Report where
  exitCode : Nat
  output : String
  errors : List String
deriving DecidableEq, Repr

/-- The text that explains the command. -/
def helpText : String :=
  Text.unlines
    ["Generate the TBI message spec header from a JSON message spec",
      "",
      "Usage: msgspec-gen [OPTIONS] <PATH_TO_FILE>",
      "",
      "Arguments:",
      "  <PATH_TO_FILE>  Path to the JSON message spec",
      "",
      "Options:",
      "  -o, --output <OUTPUT>  Where to write the generated header [default: " ++ defaultOutput ++
        "]",
      "  -v, --verbose...       Enable verbose mode (repeat for more detail)",
      "      --check            Only check that the header on disk is up to date",
      "  -h, --help             Print help"]

/-- What a command printed to the error output. -/
def Report.errorText (r : Report) : String := Text.unlines r.errors

namespace UsageError

/-- The exit code if arguments are not accepted. To be asked for help is no failure. -/
def exitCode : UsageError → Nat
  | helpRequested => 0
  | _ => 2

/-- What is printed if arguments are not accepted: the help that was asked for. -/
def output : UsageError → String
  | helpRequested => helpText
  | _ => ""

/-- What is wrong with arguments that are not accepted. -/
def text : UsageError → String
  | helpRequested => "help was asked for"
  | unknownArgument => "unexpected argument"
  | tooManyValues => "unexpected value for an option that takes none"
  | invalidValue => "a value is missing or empty"
  | repeatedOption => "an option cannot be used more than once"
  | missingPath => "the path to the document is missing"

/-- The lines for arguments that are not accepted, unless help was asked for. -/
def errors (e : UsageError) : List String :=
  match e with
  | helpRequested => []
  | e => ["error: " ++ e.text, "For more information, try '--help'."]

end UsageError

/-- An error with what was being done, and once more with what lies behind it. -/
def Error.chain (input : String) (e : Error) : String :=
  "composing " ++ input ++ ": " ++ e.text ++ ((e.causeText?.map (": " ++ ·)).getD "")

namespace Invocation

/-- The lines for an error: what happened, if the command was asked to say more, and in which stage.
-/
def errorLines (x : Invocation) (e : Error) : List String :=
  (if x.verbosity = 0 then [] else [logLine .error "msgspec_gen" (e.chain x.config.input) []])
    ++ ["ERROR! Composition failed during " ++ e.stage.text ++ ", run with -v to debug"]

/-- What is printed at the end, and the exit code. -/
def conclusion (x : Invocation) : Except Error Outcome → Report
  | .ok (.written _ _) => ⟨0, "Message spec composition done!\n", []⟩
  | .ok .upToDate => ⟨0, x.config.output ++ " is up to date\n", []⟩
  | .ok .stale => ⟨1, "", [x.config.output ++ " is out of date, regenerate it"]⟩
  | .error e => ⟨e.exitCode, "", x.errorLines e⟩

/-- The lines of the events that are shown. -/
def shownLines (x : Invocation) (events : List Event) : List String :=
  (events.filter fun e => e.level.shownAt x.level).map Event.line

/-- The report of a whole run. -/
def report (x : Invocation) (run : Run (Except Error Outcome)) : Report :=
  let last := x.conclusion run.result
  { last with errors := x.shownLines run.events ++ last.errors }

/-- The program that the command runs. -/
def program (x : Invocation) (writer : Nat) : Program (Except Error Outcome) :=
  .compose writer x.config

end Invocation

end Telemetry
