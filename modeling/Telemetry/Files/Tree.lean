import Telemetry.Bytes
import Telemetry.Files.Error
import Telemetry.Files.Path

/-!
# File trees

A tree of files and directories with a working directory, and the calls that programs make on it.
Every file and directory has a location, the names that lead to it from the root. `Files.get?` is
the view through which each call is described.

A path is followed name by name, and all but the last must be directories (`Files.walk`). What the
last name stands for need not exist; it may be a dot name, which is a directory that exists, and
slashes may follow it (`Files.target`).
-/

namespace Telemetry

/-- The names that lead from the root to a file or directory. -/
abbrev Location := List String

/-- What stands at a location. -/
inductive Node where
  | file (contents : Bytes)
  | directory
deriving DecidableEq, Repr

/-- A tree of files and directories. The root is a directory without an entry. -/
structure Files where
  entries : List (Location × Node)
  /-- The working directory. -/
  here : Location
deriving DecidableEq, Repr

/-- What a path leads to. -/
inductive Target where
  /-- The path ends in a dot name, or is the root. -/
  | directory (location : Location)
  /-- The path ends in an ordinary name, whether there is anything or not. -/
  | entry (location : Location) (slash : Bool)
deriving DecidableEq, Repr

/-- The greatest number of bytes in a name. -/
def greatestNameLength : Nat := 255

/-- Paths must have fewer bytes than this. -/
def pathLengthBound : Nat := 4096

namespace Path

/-- The names to follow, dots among them. -/
def steps (p : Path) : List String := p.segments.filter (· ≠ "")

/-- Whether the path ends in a slash. -/
def endsInSlash (p : Path) : Bool := p.segments.getLast? = some ""

/-- What can be wrong with a path whatever there is in the tree. -/
def check (p : Path) : Except FileError Unit :=
  let text := p.text
  if text.toList.contains '\x00' then .error .nullInName
  else if text = "" then .error .notFound
  else if pathLengthBound ≤ text.utf8ByteSize then .error .nameTooLong
  else .ok ()

end Path

namespace Files

/-! ### The view -/

/-- What stands at a location. -/
def get? (f : Files) (l : Location) : Option Node :=
  if l = [] then some .directory else f.entries.lookup l

/-- The tree with something removed. -/
def erase (f : Files) (l : Location) : Files :=
  { f with entries := f.entries.filter (·.1 ≠ l) }

/-- The tree with something put at a location, in place of what was there. -/
def set (f : Files) (l : Location) (node : Node) : Files :=
  { f with entries := (l, node) :: (f.erase l).entries }

/-- The root is a directory. -/
@[simp] theorem get?_root (f : Files) : f.get? [] = some .directory := rfl

private theorem lookup_filter_ne {l l' : Location} (h : l' ≠ l) (entries : List (Location × Node)) :
    (entries.filter (·.1 ≠ l)).lookup l' = entries.lookup l' := by
  induction entries with
  | nil => rfl
  | cons e es ih =>
    obtain ⟨k, node⟩ := e
    by_cases hk : k = l
    · subst hk
      have : (l' == k) = false := by simpa using h
      simpa [List.lookup_cons, this] using ih
    · by_cases hl : l' = k
      · simp [hl, hk]
      · have : (l' == k) = false := by simpa using hl
        simpa [List.lookup_cons, hk, this] using ih

private theorem lookup_filter_self (l : Location) (entries : List (Location × Node)) :
    (entries.filter (·.1 ≠ l)).lookup l = none := by
  rw [List.lookup_eq_none_iff]
  intro e he
  have := (List.mem_filter.1 he).2
  simp only [decide_not, Bool.not_eq_true', decide_eq_false_iff_not] at this
  simpa using fun h => this h.symm

/-- What has been removed is not there. -/
theorem get?_erase_self (f : Files) {l : Location} (h : l ≠ []) : (f.erase l).get? l = none := by
  simp only [get?, erase, if_neg h, lookup_filter_self]

/-- Removing something changes nothing else. -/
theorem get?_erase_of_ne (f : Files) {l l' : Location} (h : l' ≠ l) :
    (f.erase l).get? l' = f.get? l' := by
  simp only [get?, erase, lookup_filter_ne h]

/-- What has been put somewhere is there. -/
theorem get?_set_self (f : Files) {l : Location} (h : l ≠ []) (node : Node) :
    (f.set l node).get? l = some node := by
  simp [get?, set, h]

/-- Putting something somewhere changes nothing else. -/
theorem get?_set_of_ne (f : Files) {l l' : Location} (h : l' ≠ l) (node : Node) :
    (f.set l node).get? l' = f.get? l' := by
  have : (l' == l) = false := by simpa using h
  rw [← get?_erase_of_ne f h]
  simp only [get?, set, List.lookup_cons, this]

/-- The working directory stays where it is. -/
@[simp] theorem here_erase (f : Files) (l : Location) : (f.erase l).here = f.here := rfl

@[simp] theorem here_set (f : Files) (l : Location) (node : Node) :
    (f.set l node).here = f.here := rfl

/-! ### Following paths -/

/-- Goes from a directory to a directory by one name. -/
def step (f : Files) (start : Location) (name : String) : Except FileError Location :=
  if name = "." then .ok start
  else if name = ".." then .ok start.dropLast
  else if greatestNameLength < name.utf8ByteSize then .error .nameTooLong
  else
    match f.get? (start ++ [name]) with
    | none => .error .notFound
    | some (.file _) => .error .notDirectory
    | some .directory => .ok (start ++ [name])

/-- Goes from a directory to a directory by several names. -/
def walk (f : Files) (start : Location) : List String → Except FileError Location
  | [] => .ok start
  | name :: names => do f.walk (← f.step start name) names

/-- What a path leads to. -/
def target (f : Files) (p : Path) : Except FileError Target := do
  p.check
  let start := if p.absolute then [] else f.here
  match p.steps.getLast? with
  | none => .ok (.directory start)
  | some last =>
    let parent ← f.walk start p.steps.dropLast
    if last = "." then .ok (.directory parent)
    else if last = ".." then .ok (.directory parent.dropLast)
    else if greatestNameLength < last.utf8ByteSize then .error .nameTooLong
    else .ok (.entry (parent ++ [last]) p.endsInSlash)

/-! ### Calls -/

/-- Reads a file. -/
def read (f : Files) (p : Path) : Except FileError Bytes := do
  match ← f.target p with
  | .directory _ => .error .isDirectory
  | .entry l slash =>
    match f.get? l with
    | none => .error .notFound
    | some .directory => .error .isDirectory
    | some (.file contents) => if slash then .error .notDirectory else .ok contents

/-- Whether a path leads to a directory. -/
def isDirectory (f : Files) (p : Path) : Bool :=
  match f.target p with
  | .error _ => false
  | .ok (.directory _) => true
  | .ok (.entry l _) => f.get? l = some .directory

/-- Makes a directory, where nothing may stand yet. -/
def makeDirectory (f : Files) (p : Path) : Except FileError Files := do
  match ← f.target p with
  | .directory _ => .error .alreadyExists
  | .entry l _ =>
    match f.get? l with
    | some _ => .error .alreadyExists
    | none => .ok (f.set l .directory)

/-- Makes an empty file, or empties the one that is there. -/
def create (f : Files) (p : Path) : Except FileError Files := do
  match ← f.target p with
  | .directory _ => .error .isDirectory
  | .entry l slash =>
    if slash || f.get? l = some .directory then .error .isDirectory
    else .ok (f.set l (.file []))

/-- Adds bytes to the end of a file. -/
def append (f : Files) (p : Path) (bytes : Bytes) : Except FileError Files := do
  match ← f.target p with
  | .directory _ => .error .isDirectory
  | .entry l _ =>
    match f.get? l with
    | none => .error .notFound
    | some .directory => .error .isDirectory
    | some (.file contents) => .ok (f.set l (.file (contents ++ bytes)))

/-- Moves a file to another path, in place of a file that may be there. Directories stay where they
are. -/
def rename (f : Files) (source destination : Path) : Except FileError Files := do
  match ← f.target source, ← f.target destination with
  | .entry a slash, .entry b slash' =>
    match f.get? a with
    | none => .error .notFound
    | some .directory => .error .isDirectory
    | some (.file contents) =>
      if slash || slash' then .error .notDirectory
      else if f.get? b = some .directory then .error .isDirectory
      else .ok ((f.erase a).set b (.file contents))
  | _, _ => .error .busy

/-- Removes a file. -/
def remove (f : Files) (p : Path) : Except FileError Files := do
  match ← f.target p with
  | .directory _ => .error .isDirectory
  | .entry l slash =>
    match f.get? l with
    | none => .error .notFound
    | some .directory => .error .isDirectory
    | some (.file _) => if slash then .error .notDirectory else .ok (f.erase l)

/-- Everything below the working directory, located from there. -/
def below (f : Files) : List (Location × Node) :=
  f.entries.filterMap fun (l, node) =>
    if f.here.isPrefixOf l && l.length ≠ f.here.length then some (l.drop f.here.length, node)
    else none

end Files

end Telemetry
