import Telemetry.Json.Strings
import Telemetry.Json.Words

/-!
# Lists and objects

What stands between brackets: items with commas between them, and for objects a key and a colon
before each. `foldItems` and `foldMembers` read what an opening bracket announces, up to the closing
one, with a reader for the single item; `listEnd` and `objectEnd` look for the closing bracket.

Some faults are noticed only when a whole value has been seen. They lie where reading stands after
the closing bracket has been looked for, found or not, which is why `listEnd` and `objectEnd` tell
both whether the bracket was there and where they came to.

`skipItems` is for lists and objects nobody asked for. It differs in what it calls wrong behind a
comma.
-/

namespace Telemetry.Json

/-! ### Closing brackets -/

/-- Looks for the end of a list: what stands in its way, if anything, and where that leads. -/
def listEnd (s : Bytes) : Option Cause × Bytes :=
  match skipBlanks s with
  | [] => (some (.endOfInput .list), [])
  | b :: s =>
    if b = Byte.closeList then (none, s)
    else if b = Byte.comma then
      let rest := skipBlanks s
      if rest.head? = some Byte.closeList then (some .trailingComma, rest)
      else (some .trailingText, rest)
    else (some .trailingText, b :: s)

/-- Looks for the end of an object: what stands in its way, if anything, and where that leads. -/
def objectEnd (s : Bytes) : Option Cause × Bytes :=
  match skipBlanks s with
  | [] => (some (.endOfInput .object), [])
  | b :: s =>
    if b = Byte.closeObject then (none, s)
    else if b = Byte.comma then (some .trailingComma, b :: s)
    else (some .trailingText, b :: s)

/-- Reads a closing bracket that was looked for. -/
def readEnd : Option Cause × Bytes → Except Fault Bytes
  | (none, s) => .ok s
  | (some cause, s) => .error (.ahead cause s)

/-- A fault of a whole list, noticed in front of `s`. -/
def faultOfList (cause : Cause) (s : Bytes) : Fault := .here cause (listEnd s).2

/-- A fault of a whole object, noticed in front of `s`. -/
def faultOfObject (cause : Cause) (s : Bytes) : Fault := .here cause (objectEnd s).2

/-! ### Items and members -/

/-- Finds where the next item of a list begins; there is none in front of the closing bracket. -/
def nextItem (first : Bool) (s : Bytes) : Except Fault (Option Bytes) :=
  match skipBlanks s with
  | [] => .error (.ahead (.endOfInput .list) [])
  | b :: s =>
    if b = Byte.closeList then .ok none
    else if first then .ok (some (b :: s))
    else if b ≠ Byte.comma then .error (.ahead .missingListSeparator (b :: s))
    else
      match skipBlanks s with
      | [] => .error (.ahead (.endOfInput .value) [])
      | b :: s =>
        if b = Byte.closeList then .error (.ahead .trailingComma (b :: s))
        else .ok (some (b :: s))

/-- Reads the key of the next member of an object; there is none in front of the closing bracket. -/
def nextKey (first : Bool) (s : Bytes) : Except Fault (Option (String × Bytes)) :=
  match skipBlanks s with
  | [] => .error (.ahead (.endOfInput .object) [])
  | b :: s =>
    if b = Byte.closeObject then .ok none
    else if first then
      if b = Byte.quote then (readString s).map some else .error (.ahead .keyNotString (b :: s))
    else if b ≠ Byte.comma then .error (.ahead .missingObjectSeparator (b :: s))
    else
      match skipBlanks s with
      | [] => .error (.ahead (.endOfInput .value) [])
      | b :: s =>
        if b = Byte.closeObject then .error (.ahead .trailingComma (b :: s))
        else if b = Byte.quote then (readString s).map some
        else .error (.ahead .keyNotString (b :: s))

/-- Reads the colon behind a key. -/
def readColon (s : Bytes) : Except Fault Bytes :=
  match skipBlanks s with
  | [] => .error (.ahead (.endOfInput .object) [])
  | b :: s => if b = Byte.colon then .ok s else .error (.ahead .missingColon (b :: s))

/-- Reads the items of a list in front of its closing bracket, each taken into a result so far. An
item consumes bytes. -/
def foldItems {σ : Type} (item : σ → Bytes → Except Fault (σ × Bytes)) (first : Bool) (x : σ)
    (s : Bytes) : Except Fault (σ × Bytes) :=
  match nextItem first s with
  | .error e => .error e
  | .ok none => .ok (x, s)
  | .ok (some t) =>
    match item x t with
    | .error e => .error e
    | .ok (y, r) =>
      if r.length < s.length then foldItems item false y r else .error (.here .missingValue r)
termination_by s.length

/-- Reads the members of an object in front of its closing bracket, each taken into a result so far.
The reader of a member gets its key and starts in front of the colon. A member consumes bytes. -/
def foldMembers {σ : Type} (member : σ → String → Bytes → Except Fault (σ × Bytes))
    (first : Bool) (x : σ) (s : Bytes) : Except Fault (σ × Bytes) :=
  match nextKey first s with
  | .error e => .error e
  | .ok none => .ok (x, s)
  | .ok (some (key, t)) =>
    match member x key t with
    | .error e => .error e
    | .ok (y, r) =>
      if r.length < s.length then foldMembers member false y r else .error (.here .missingValue r)
termination_by s.length

/-- Reads a list behind its opening bracket. -/
def readList {α : Type} (item : Scan α) (s : Bytes) : Except Fault (List α × Bytes) := do
  let (xs, s) ← foldItems (fun xs s => do let (x, s) ← item s; .ok (x :: xs, s)) true [] s
  let s ← readEnd (listEnd s)
  .ok (xs.reverse, s)

/-- Reads an object behind its opening bracket; its members in the order written. -/
def readMembers {α : Type} (value : Scan α) (s : Bytes) :
    Except Fault (List (String × α) × Bytes) := do
  let (ms, s) ← foldMembers
    (fun ms key s => do
      let s ← readColon s
      let (x, s) ← value s
      .ok ((key, x) :: ms, s))
    true [] s
  let s ← readEnd (objectEnd s)
  .ok (ms.reverse, s)

/-! ### Brackets nobody asked for -/

/-- The two kinds of brackets. -/
inductive Bracket where
  | list
  | object
deriving DecidableEq, Repr

namespace Bracket

/-- The closing bracket. -/
def close : Bracket → UInt8
  | list => Byte.closeList
  | object => Byte.closeObject

/-- What was unfinished if the bytes end before the closing bracket. -/
def unfinished : Bracket → Unfinished
  | list => .list
  | object => .object

/-- What is wrong if something else stands behind an item. -/
def missingSeparator : Bracket → Cause
  | list => .missingListSeparator
  | object => .missingObjectSeparator

end Bracket

/-- Passes over the key of a member and the colon behind it. -/
def skipKey (s : Bytes) : Except Fault Bytes :=
  match skipBlanks s with
  | [] => .error (.ahead (.endOfInput .object) [])
  | b :: s =>
    if b = Byte.quote then do
      let s ← skipString s
      readColon s
    else .error (.ahead .keyNotString (b :: s))

/-- Passes over items, of which there is at least one, and the closing bracket. An item consumes
bytes. -/
def skipItems (bracket : Bracket) (item : Bytes → Except Fault Bytes) (s : Bytes) :
    Except Fault Bytes :=
  match item s with
  | .error e => .error e
  | .ok r =>
    match skipBlanks r with
    | [] => .error (.ahead (.endOfInput bracket.unfinished) [])
    | b :: t =>
      if b = bracket.close then .ok t
      else if b ≠ Byte.comma then .error (.ahead bracket.missingSeparator (b :: t))
      else if t.length < s.length then skipItems bracket item t
      else .error (.here .missingValue t)
termination_by s.length

/-- Passes over what an opening bracket announces, and the closing bracket. -/
def skipBracket (bracket : Bracket) (item : Bytes → Except Fault Bytes) (s : Bytes) :
    Except Fault Bytes :=
  match skipBlanks s with
  | [] => .error (.ahead (.endOfInput bracket.unfinished) [])
  | b :: t => if b = bracket.close then .ok t else skipItems bracket item s

end Telemetry.Json
