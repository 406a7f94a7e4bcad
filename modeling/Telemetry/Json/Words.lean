import Telemetry.Json.Fault

/-!
# Words and first bytes

What the first byte of a value says about the value, and the three values that are words.
-/

namespace Telemetry.Json

/-- Passes over blanks. -/
def skipBlanks (s : Bytes) : Bytes := s.dropWhile Byte.isBlank

/-- Behind blanks there is no blank to pass over. -/
@[simp] theorem skipBlanks_skipBlanks (s : Bytes) : skipBlanks (skipBlanks s) = skipBlanks s := by
  induction s with
  | nil => rfl
  | cons b s ih =>
    simp only [skipBlanks, List.dropWhile_cons] at ih ⊢
    split
    · exact ih
    · simp_all

/-- What a value is by its first byte. -/
inductive Start where
  | null
  | true
  | false
  | number
  | string
  | list
  | object
deriving DecidableEq, Repr

/-- What the value is that starts with a byte, if one can. -/
def Start.ofByte? (b : UInt8) : Option Start :=
  if b = Byte.ofAscii 'n' then some null
  else if b = Byte.ofAscii 't' then some true
  else if b = Byte.ofAscii 'f' then some false
  else if b = Byte.minus ∨ Byte.isDigit b then some number
  else if b = Byte.quote then some string
  else if b = Byte.openList then some list
  else if b = Byte.openObject then some object
  else none

/-- Reads the given bytes off the front. -/
def readWord : Bytes → Bytes → Except Fault Bytes
  | [], s => .ok s
  | _ :: _, [] => .error (.here (.endOfInput .value) [])
  | w :: ws, b :: s => if b = w then readWord ws s else .error (.here .unknownWord s)

/-- A word is read off the front, whatever follows. -/
@[simp] theorem readWord_append (word s : Bytes) : readWord word (word ++ s) = .ok s := by
  induction word with
  | nil => rfl
  | cons w ws ih => simpa [readWord] using ih

/-- Reads the word for the null value, whose first byte has been read. -/
def readNull (s : Bytes) : Except Fault Bytes :=
  readWord ("ull".toList.map Byte.ofAscii) s

/-- Reads the word for truth, whose first byte has been read. -/
def readTrue (s : Bytes) : Except Fault Bytes :=
  readWord ("rue".toList.map Byte.ofAscii) s

/-- Reads the word for falsehood, whose first byte has been read. -/
def readFalse (s : Bytes) : Except Fault Bytes :=
  readWord ("alse".toList.map Byte.ofAscii) s

end Telemetry.Json
