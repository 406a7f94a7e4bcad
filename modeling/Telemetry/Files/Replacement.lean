import Telemetry.Program

/-!
# Replacing files

A file is replaced as a whole: the new contents go to a temporary file beside it, which is then
moved onto it, so whoever reads the path finds the old contents or the new, never a part.
Directories that the path needs are made first. If anything fails, the temporary file is removed
again.

The temporary file has the writer's number in its name, so that writers do not disturb each other.
-/

namespace Telemetry

namespace Program

/-- Answers an error, unless there is a directory at the path. -/
def unlessDirectory (p : Path) (e : FileError) : Program (Except FileError Unit) := do
  if ← isDirectory p then pure (.ok ()) else pure (.error e)

/-- Makes the first of some directories, and those it lies in as far as they are missing. They are
given from the inside out. -/
def createDirectories : List Path → Program (Except FileError Unit)
  | [] => pure (.ok ())
  | p :: outer => do
    match ← makeDirectory p with
    | .ok () => pure (.ok ())
    | .error .notFound =>
      match ← createDirectories outer with
      | .error e => pure (.error e)
      | .ok () =>
        match ← makeDirectory p with
        | .ok () => pure (.ok ())
        | .error e => unlessDirectory p e
    | .error e => unlessDirectory p e

/-- Adds bytes to the end of a file, in as many calls as it takes. -/
def appendAll (p : Path) (bytes : Bytes) : Program (Except FileError Unit) :=
  if bytes = [] then pure (.ok ())
  else
    (append p bytes).bind fun
      | .error e => pure (.error e)
      | .ok n => if n = 0 then pure (.error .nothingWritten) else appendAll p (bytes.drop n)
termination_by bytes.length
decreasing_by
  have : bytes.length ≠ 0 := by simpa using ‹¬bytes = []›
  simp only [List.length_drop]
  omega

/-- Puts bytes into a new file and moves it to its place. -/
def writeAndRename (temporary p : Path) (bytes : Bytes) : Program (Except FileError Unit) := do
  match ← create temporary with
  | .error e => pure (.error e)
  | .ok () =>
    match ← appendAll temporary bytes with
    | .error e => pure (.error e)
    | .ok () => rename temporary p

/-- Replaces the file at a path. -/
def replaceFile (writer : Nat) (p : Path) (bytes : Bytes) : Program (Except FileError Unit) := do
  match ← createDirectories (p.ancestry.drop 1) with
  | .error e => pure (.error e)
  | .ok () =>
    let temporary := p.temporary writer
    match ← writeAndRename temporary p bytes with
    | .ok () => pure (.ok ())
    | .error e => do
      let _ ← remove temporary
      pure (.error e)

end Program

end Telemetry
