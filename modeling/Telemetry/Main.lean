import Telemetry.CommandLine.Report

/-!
# The command

Runs the program of a command line on the files of the machine, and prints what it has to say.
-/

namespace Telemetry

/-- The number and the text of an error of the operating system. -/
def systemError? : IO.Error → Option (UInt32 × String)
  | .alreadyExists _ n s | .invalidArgument _ n s | .permissionDenied _ n s => some (n, s)
  | .resourceExhausted _ n s | .inappropriateType _ n s | .noSuchThing _ n s => some (n, s)
  | .interrupted _ n s | .noFileOrDirectory _ n s => some (n, s)
  | .otherError n s | .resourceBusy n s | .resourceVanished n s | .unsupportedOperation n s
  | .hardwareFault n s | .unsatisfiedConstraints n s | .illegalOperation n s | .protocolError n s
  | .timeExpired n s => some (n, s)
  | .unexpectedEof | .userError _ => none

/-- The file error with a number of the operating system. -/
def FileError.ofNumber (number : Nat) (text : String) : FileError :=
  match number with
  | 2 => .notFound
  | 16 => .busy
  | 17 => .alreadyExists
  | 20 => .notDirectory
  | 21 => .isDirectory
  | 36 => .nameTooLong
  | n => .other n text

/-- The file error that the machine reports. Some calls give its number with the sign turned. -/
def FileError.ofSystem (e : IO.Error) : FileError :=
  match systemError? e with
  | some (number, text) => .ofNumber (min number.toNat (-number).toNat) text
  | none => .other 0 e.toString

/-- Asks the machine for something that concerns some paths. A null character in one is an error of
its own. -/
def attempt {α : Type} (paths : List Path) (action : IO α) : IO (Except FileError α) := do
  if paths.any fun p => p.text.toList.contains '\x00' then return .error .nullInName
  try
    return .ok (← action)
  catch e =>
    return .error (.ofSystem e)

/-- Makes a call to the file system of the machine. What is behind a slash and a dot is a directory.
-/
def Call.perform : (c : Call) → IO c.Response
  | .read p => attempt [p] do return (← IO.FS.readBinFile p.text).toList
  | .makeDirectory p => attempt [p] (IO.FS.createDir p.text)
  | .isDirectory p => do
    let opened ← attempt [p] (IO.FS.Handle.mk (p.text ++ "/.") .read)
    return opened.toBool
  | .create p => attempt [p] do let _ ← IO.FS.Handle.mk p.text .write
  | .append p bytes =>
    attempt [p] do
      let file ← IO.FS.Handle.mk p.text .append
      file.write ⟨bytes.toArray⟩
      file.flush
      return bytes.length
  | .rename source destination =>
    attempt [source, destination] (IO.FS.rename source.text destination.text)
  | .remove p => attempt [p] (IO.FS.removeFile p.text)

/-- Runs a program on the machine, with something to do at each event. -/
def Program.execute {α : Type} (onEvent : Event → IO Unit) : Program α → IO α
  | .done x => return x
  | .note e p => do
    onEvent e
    p.execute onEvent
  | .call c k => do
    let r ← c.perform
    (k r).execute onEvent

/-- Runs the command that an invocation asks for, and gives its exit code. -/
def Invocation.execute (x : Invocation) : IO UInt32 := do
  let writer ← IO.monoNanosNow
  let onEvent (e : Event) : IO Unit := do
    if e.level.shownAt x.level then IO.eprintln e.line
  let result ← (x.program writer).execute onEvent
  let last := x.conclusion result
  IO.eprint last.errorText
  IO.print last.output
  return last.exitCode.toUInt32

end Telemetry

/-- The command. -/
def main (arguments : List String) : IO UInt32 := do
  match Telemetry.Invocation.ofArguments? arguments with
  | .ok x => x.execute
  | .error e => do
    e.errors.forM IO.eprintln
    IO.print e.output
    return e.exitCode.toUInt32
