import Telemetry.Event
import Telemetry.Files.Tree

/-!
# Programs

A program is what it does step by step: it notes events and makes calls to the file system, going on
with what a call answers, until it is done. Since a program is a value, it can be run in more than
one way. `Program.run` runs it alone on a tree of files; programs that run side by side take turns
with single calls, each of which `Files.perform` describes.
-/

namespace Telemetry

/-- A call to the file system. -/
inductive Call where
  | read (path : Path)
  | makeDirectory (path : Path)
  | isDirectory (path : Path)
  /-- Makes an empty file, or empties the one that is there. -/
  | create (path : Path)
  /-- Adds bytes to the end of a file; the answer is how many were added. -/
  | append (path : Path) (bytes : Bytes)
  | rename (source destination : Path)
  | remove (path : Path)
deriving DecidableEq, Repr

/-- What a call answers. -/
@[reducible] def Call.Response : Call → Type
  | .read _ => Except FileError Bytes
  | .makeDirectory _ => Except FileError Unit
  | .isDirectory _ => Bool
  | .create _ => Except FileError Unit
  | .append _ _ => Except FileError Nat
  | .rename _ _ => Except FileError Unit
  | .remove _ => Except FileError Unit

/-- What a program does: it is done, or notes an event and goes on, or makes a call and goes on with
the answer. -/
inductive Program (α : Type) : Type where
  | done (result : α)
  | note (event : Event) (next : Program α)
  | call (c : Call) (next : c.Response → Program α)

namespace Program

/-- One program and then another that depends on the result of the first. -/
def bind {α β : Type} : Program α → (α → Program β) → Program β
  | done x, next => next x
  | note e p, next => note e (p.bind next)
  | call c k, next => call c fun r => (k r).bind next

instance : Monad Program where
  pure := done
  bind := bind

/-- To be done is to leave a program as it is. -/
theorem bind_done {α : Type} (p : Program α) : p.bind done = p := by
  induction p with
  | done x => rfl
  | note e p ih => simp [bind, ih]
  | call c k ih => simp [bind, ih]

/-- Three programs, one after the other. -/
theorem bind_bind {α β γ : Type} (p : Program α) (next : α → Program β) (last : β → Program γ) :
    (p.bind next).bind last = p.bind fun x => (next x).bind last := by
  induction p with
  | done x => rfl
  | note e p ih => simp [bind, ih]
  | call c k ih => simp [bind, ih]

instance : LawfulMonad Program :=
  LawfulMonad.mk' Program (fun p => bind_done p) (fun _ _ => rfl) (fun p k l => bind_bind p k l)

/-- Notes events in order. -/
def noteAll : List Event → Program Unit
  | [] => done ()
  | e :: es => note e (noteAll es)

/-- Reads a file. -/
def read (p : Path) : Program (Except FileError Bytes) := call (.read p) done

/-- Makes a directory. -/
def makeDirectory (p : Path) : Program (Except FileError Unit) := call (.makeDirectory p) done

/-- Asks whether there is a directory. -/
def isDirectory (p : Path) : Program Bool := call (.isDirectory p) done

/-- Makes a file empty. -/
def create (p : Path) : Program (Except FileError Unit) := call (.create p) done

/-- Adds some of the bytes to the end of a file. -/
def append (p : Path) (bytes : Bytes) : Program (Except FileError Nat) :=
  call (.append p bytes) done

/-- Moves a file. -/
def rename (source destination : Path) : Program (Except FileError Unit) :=
  call (.rename source destination) done

/-- Removes a file. -/
def remove (p : Path) : Program (Except FileError Unit) := call (.remove p) done

end Program

/-! ### Running on a tree of files -/

/-- The tree after a call that may fail, which it does without a change. -/
def Files.changed (f : Files) : Except FileError Files → Except FileError Unit × Files
  | .ok g => (.ok (), g)
  | .error e => (.error e, f)

/-- Makes a call. Bytes are added all at once. -/
def Files.perform (f : Files) : (c : Call) → c.Response × Files
  | .read p => (f.read p, f)
  | .makeDirectory p => f.changed (f.makeDirectory p)
  | .isDirectory p => (f.isDirectory p, f)
  | .create p => f.changed (f.create p)
  | .append p bytes =>
    match f.append p bytes with
    | .ok g => (.ok bytes.length, g)
    | .error e => (.error e, f)
  | .rename source destination => f.changed (f.rename source destination)
  | .remove p => f.changed (f.remove p)

/-- What comes of running a program: its result, the files it leaves and the events it noted. -/
structure Run (α : Type) where
  result : α
  files : Files
  events : List Event

/-- Runs a program alone on a tree of files. -/
def Program.run {α : Type} (f : Files) : Program α → Run α
  | done x => ⟨x, f, []⟩
  | note e p =>
    let r := p.run f
    ⟨r.result, r.files, e :: r.events⟩
  | call c k =>
    let (r, g) := f.perform c
    (k r).run g

namespace Program

@[simp] theorem run_pure {α : Type} (f : Files) (x : α) :
    (pure x : Program α).run f = ⟨x, f, []⟩ := rfl

/-- Two programs one after the other: the second starts with the files that the first leaves. -/
@[simp] theorem run_bind {α β : Type} (f : Files) (p : Program α) (next : α → Program β) :
    (p >>= next).run f =
      { (next (p.run f).result).run (p.run f).files with
        events := (p.run f).events ++ ((next (p.run f).result).run (p.run f).files).events } := by
  change (p.bind next).run f = _
  induction p generalizing f with
  | done x => rfl
  | note e p ih => simp [bind, run, ih]
  | call c k ih => simp [bind, run, ih]

@[simp] theorem run_noteAll (f : Files) (es : List Event) : (noteAll es).run f = ⟨(), f, es⟩ := by
  induction es with
  | nil => rfl
  | cons e es ih => simp [noteAll, run, ih]

end Program

end Telemetry
