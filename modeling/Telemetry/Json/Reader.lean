import Telemetry.Json.Brackets
import Telemetry.Json.Numerals

/-!
# Reading values

`readValue` reads any value and `skipValue` passes over one; `readFound` only finds out what stands
next, so that a reader of one kind of value can say what it met instead. Brackets that are read may
be nested only so deep, and `depth` is how many more may be opened; brackets that are skipped may be
nested to any depth.
-/

namespace Telemetry.Json

/-- How many brackets may be open at a time. -/
def depthLimit : Nat := 127

/-- Finds what stands next. Words, numbers and strings are read; in front of a bracket nothing is.
-/
def readFound : Scan Found
  | [] => .error (.ahead (.endOfInput .value) [])
  | b :: s =>
    match Start.ofByte? b with
    | none => .error (.ahead .missingValue (b :: s))
    | some .null => do let s ← readNull s; .ok (.null, s)
    | some .true => do let s ← readTrue s; .ok (.boolean true, s)
    | some .false => do let s ← readFalse s; .ok (.boolean false, s)
    | some .number => do let (n, s) ← readNumber (b :: s); .ok (.number n, s)
    | some .string => do let (x, s) ← readString s; .ok (.string x, s)
    | some .list => .ok (.list, b :: s)
    | some .object => .ok (.object, b :: s)

/-- Reads a value in which so many brackets may be nested. -/
def readValue (depth : Nat) (s : Bytes) : Except Fault (Value × Bytes) := do
  let (found, s) ← readFound (skipBlanks s)
  match found with
  | .null => .ok (.null, s)
  | .boolean b => .ok (.boolean b, s)
  | .number n => .ok (.number n, s)
  | .string x => .ok (.string x, s)
  | .list =>
    match depth with
    | 0 => .error (.ahead .tooDeep s)
    | depth + 1 => do
      let (xs, s) ← readList (readValue depth) (s.drop 1)
      .ok (.array xs, s)
  | .object =>
    match depth with
    | 0 => .error (.ahead .tooDeep s)
    | depth + 1 => do
      let (ms, s) ← readMembers (readValue depth) (s.drop 1)
      .ok (.object (sortMembers ms), s)

/-- Reads a whole document with a reader for the value it holds. Only blanks may follow that. -/
def readWhole {α : Type} (value : Scan α) (document : Bytes) : Except ReadError α :=
  let outcome := do
    let (x, s) ← value document
    match skipBlanks s with
    | [] => .ok x
    | s => .error (.ahead .trailingText s)
  outcome.mapError fun fault => fault.locate document

/-- The value that a document holds. -/
def Value.read? (document : Bytes) : Except ReadError Value :=
  readWhole (readValue depthLimit) document

/-! ### Values nobody asked for -/

/-- Passes over a value in which no more brackets are nested than `depth`. -/
def skipNested (depth : Nat) (s : Bytes) : Except Fault Bytes :=
  match skipBlanks s with
  | [] => .error (.ahead (.endOfInput .value) [])
  | b :: s =>
    match Start.ofByte? b with
    | none => .error (.ahead .missingValue (b :: s))
    | some .null => readNull s
    | some .true => readTrue s
    | some .false => readFalse s
    | some .number => skipNumeral (b :: s)
    | some .string => skipString s
    | some .list =>
      match depth with
      | 0 => .error (.ahead .tooDeep (b :: s))
      | depth + 1 => skipBracket .list (skipNested depth) s
    | some .object =>
      match depth with
      | 0 => .error (.ahead .tooDeep (b :: s))
      | depth + 1 => skipBracket .object (fun s => do skipNested depth (← skipKey s)) s

/-- Passes over a value. There cannot be more brackets in it than bytes, so depth is no limit. -/
def skipValue (s : Bytes) : Except Fault Bytes := skipNested s.length s

end Telemetry.Json
