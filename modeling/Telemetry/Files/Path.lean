/-!
# Paths

A path as it is written: the texts between its slashes, with a mark if it starts at the root. Empty
texts come from slashes in a row or at the end; they and single dots name nothing, two dots name the
directory above. What remains after removing the last name, and everything behind the new last one,
is the parent.
-/

namespace Telemetry

/-- A path, taken apart at its slashes. -/
structure Path where
  absolute : Bool
  segments : List String
deriving DecidableEq, Repr

/-- The texts between the slashes. -/
def splitSlashes : List Char → List (List Char)
  | [] => [[]]
  | c :: cs =>
    if c = '/' then [] :: splitSlashes cs
    else
      match splitSlashes cs with
      | [] => [[c]]
      | s :: ss => (c :: s) :: ss

namespace Path

/-- A path from its text. -/
def ofString (text : String) : Path :=
  match text.toList with
  | '/' :: cs => ⟨true, (splitSlashes cs).map String.ofList⟩
  | cs => ⟨false, (splitSlashes cs).map String.ofList⟩

/-- The text of a path. -/
def text (p : Path) : String :=
  (if p.absolute then "/" else "") ++ String.join (p.segments.intersperse "/")

/-- Whether a segment names a file or directory; two dots do. -/
def isName (segment : String) : Bool := segment != "" && segment != "."

/-- The path and what it lies in, from the inside out: its initial parts that end in a name. -/
def ancestry (p : Path) : List Path :=
  (List.range p.segments.length).reverse.filterMap fun i =>
    let part := p.segments.take (i + 1)
    if (part.getLast?.map isName).getD false then some ⟨p.absolute, part⟩ else none

/-- The directory that the path lies in, if there is a name for it. -/
def parent? (p : Path) : Option Path := p.ancestry[1]?

/-- The last name of the path, unless it is the directory above something. -/
def fileName? (p : Path) : Option String :=
  match (p.segments.filter isName).getLast? with
  | none => none
  | some name => if name = ".." then none else some name

/-- The path with one more name at its end. -/
def push (p : Path) (name : String) : Path :=
  if p.segments.getLast? = some "" then ⟨p.absolute, p.segments.dropLast ++ [name]⟩
  else ⟨p.absolute, p.segments ++ [name]⟩

/-- The path with another last name, or with a further one if it has no file name. -/
def withFileName (p : Path) (name : String) : Path :=
  match p.fileName? with
  | none => p.push name
  | some _ =>
    match p.parent? with
    | none => ⟨p.absolute, [name]⟩
    | some parent => parent.push name

/-- The name of the temporary file that a writer uses for a file of the given name. -/
def temporaryName (fileName : String) (writer : Nat) : String :=
  "." ++ fileName ++ "." ++ toString writer ++ ".tmp"

/-- The temporary file that a writer uses for the path, beside it. -/
def temporary (p : Path) (writer : Nat) : Path :=
  p.withFileName (temporaryName (p.fileName?.getD "") writer)

end Path

end Telemetry
