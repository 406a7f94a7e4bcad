import Telemetry.Bytes
import Telemetry.Json.Value
import Telemetry.Text.Quoted

/-!
# Faults in documents

Why a document cannot be read, and where. A scanner works on the bytes still to be read and knows
neither line nor column, so a `Fault` tells its place by how many bytes were left; `Fault.locate`
turns that into a line and a column once the whole document is at hand.

A fault lies either *here*, behind the bytes read so far, or *ahead*, behind the next byte if there
is one.
-/

namespace Telemetry.Json

/-- What a scanner was in the middle of when the bytes ended. -/
inductive Unfinished where
  | value
  | list
  | object
  | string
deriving DecidableEq, Repr

/-- What was found where something else was wanted. -/
inductive Found where
  | null
  | boolean (b : Bool)
  | number (n : Number)
  | string (s : String)
  | list
  | object
deriving DecidableEq, Repr

/-- Why reading stopped. -/
inductive Cause where
  | endOfInput (within : Unfinished)
  | unknownWord
  | controlCharacter
  | invalidEscape
  | loneSurrogate
  | missingSurrogate
  | invalidCharacter
  | invalidNumber
  | numberOutOfRange
  | tooDeep
  | missingListSeparator
  | missingObjectSeparator
  | missingColon
  | trailingComma
  | trailingText
  | keyNotString
  | missingValue
  | mismatch (found : Found) (wanted : String)
  | tooFewItems (count : Nat) (wanted : String)
  | repeatedMember (key : String)
deriving DecidableEq, Repr

/-- The kinds of faults: text that is no JSON, JSON of the wrong shape, and text that ends too
early. -/
inductive Category where
  | syntactic
  | data
  | endOfInput
deriving DecidableEq, Repr

/-- The name of what was unfinished. -/
def Unfinished.text : Unfinished → String
  | value => "a value"
  | list => "a list"
  | object => "an object"
  | string => "a string"

/-- How what was found is named. -/
def Found.text : Found → String
  | null => "null"
  | boolean b => "boolean `" ++ (if b then "true" else "false") ++ "`"
  | number (.integer n) => "integer `" ++ (Number.integer n).text ++ "`"
  | number (.double negative x) => "floating point `" ++ (Number.double negative x).text ++ "`"
  | string s => "string " ++ Text.quoted s
  | list => "sequence"
  | object => "map"

namespace Cause

/-- The message for a cause. -/
def text : Cause → String
  | endOfInput within => "EOF while parsing " ++ within.text
  | unknownWord => "expected ident"
  | controlCharacter => "control character (\\u0000-\\u001F) found while parsing a string"
  | invalidEscape => "invalid escape"
  | loneSurrogate => "lone leading surrogate in hex escape"
  | missingSurrogate => "unexpected end of hex escape"
  | invalidCharacter => "invalid unicode code point"
  | invalidNumber => "invalid number"
  | numberOutOfRange => "number out of range"
  | tooDeep => "recursion limit exceeded"
  | missingListSeparator => "expected `,` or `]`"
  | missingObjectSeparator => "expected `,` or `\x7d`"
  | missingColon => "expected `:`"
  | trailingComma => "trailing comma"
  | trailingText => "trailing characters"
  | keyNotString => "key must be a string"
  | missingValue => "expected value"
  | mismatch found wanted => "invalid type: " ++ found.text ++ ", expected " ++ wanted
  | tooFewItems count wanted => "invalid length " ++ toString count ++ ", expected " ++ wanted
  | repeatedMember key => "duplicate field `" ++ key ++ "`"

/-- The kind of a cause. -/
def category : Cause → Category
  | endOfInput _ => .endOfInput
  | mismatch _ _ | tooFewItems _ _ | repeatedMember _ => .data
  | _ => .syntactic

end Cause

/-- Why reading stopped, how many bytes were left then, and how many columns before that place the
fault is shown. -/
structure Fault where
  cause : Cause
  left : Nat
  back : Nat
deriving DecidableEq, Repr

/-- A scanner reads a value off the front of the bytes and gives back what follows it. -/
abbrev Scan (α : Type) := Bytes → Except Fault (α × Bytes)

namespace Fault

/-- A fault behind everything that was read before `rest`. -/
def here (cause : Cause) (rest : Bytes) : Fault := ⟨cause, rest.length, 0⟩

/-- A fault behind the first byte of `rest`, or at the end. -/
def ahead (cause : Cause) (rest : Bytes) : Fault := ⟨cause, rest.length - 1, 0⟩

end Fault

/-- A place in a document: lines count from one, and columns are the bytes since the last line feed.
-/
structure Position where
  line : Nat
  column : Nat
deriving DecidableEq, Repr

/-- The place behind some bytes of a document. -/
def Position.after (bytes : Bytes) : Position where
  line := 1 + bytes.count Byte.lineFeed
  column := (bytes.reverse.takeWhile (· != Byte.lineFeed)).length

/-- Why a document cannot be read, and its line and column. -/
structure ReadError where
  cause : Cause
  position : Position
deriving DecidableEq, Repr

/-- The fault of a document as an error with a line and a column. -/
def Fault.locate (fault : Fault) (document : Bytes) : ReadError :=
  let place := Position.after (document.take (document.length - fault.left))
  ⟨fault.cause, ⟨place.line, place.column - fault.back⟩⟩

/-- The message for an error: its cause and its place. -/
def ReadError.text (e : ReadError) : String :=
  e.cause.text ++ " at line " ++ toString e.position.line ++ " column " ++
    toString e.position.column

end Telemetry.Json
