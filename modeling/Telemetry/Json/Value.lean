import Telemetry.Binary64.Shortest

/-!
# JSON values

The values that a document can hold, and their compact text. Numbers keep apart the integers of 64
bits and everything else, which is a double. The members of an object are in ascending order of
their keys, each key once: `insertMember` puts a member in its place, and a later one replaces an
earlier one.
-/

namespace Telemetry.Json

/-- A number. Integers from `-2 ^ 63` to `2 ^ 64 - 1` are exact; all others are doubles, whose sign
is kept beside them so that the two zeros differ. -/
inductive Number where
  | integer (n : Int)
  | double (negative : Bool) (magnitude : Binary64)
deriving DecidableEq, Repr

/-- A JSON value. -/
inductive Value where
  | null
  | boolean (b : Bool)
  | number (n : Number)
  | string (s : String)
  | array (items : List Value)
  | object (members : List (String × Value))
deriving Repr

/-- Puts a member into a list of members in ascending order of keys, in the place of one with the
same key if there is one. -/
def insertMember {α : Type} (key : String) (value : α) : List (String × α) → List (String × α)
  | [] => [(key, value)]
  | m :: ms =>
    if key < m.1 then (key, value) :: m :: ms
    else if key = m.1 then (key, value) :: ms
    else m :: insertMember key value ms

/-- The members of an object that was written with the given members: in order of keys, the last of
equal keys. -/
def sortMembers {α : Type} (members : List (String × α)) : List (String × α) :=
  members.foldl (fun ms m => insertMember m.1 m.2 ms) []

/-! ### Text -/

/-- The text of a number. -/
def Number.text : Number → String
  | .integer n => toString n
  | .double negative x => if negative then "-" ++ x.text else x.text

/-- The lower case hexadecimal digit of a number below sixteen. -/
def hexChar (n : Nat) : Char := Nat.digitChar n

/-- How a character stands in a string: an escape for the quote, the backslash and the characters
below the space, everything else as it is. -/
def escapedChar (c : Char) : List Char :=
  match c with
  | '"' => ['\\', '"']
  | '\\' => ['\\', '\\']
  | '\x08' => ['\\', 'b']
  | '\x0c' => ['\\', 'f']
  | '\n' => ['\\', 'n']
  | '\r' => ['\\', 'r']
  | '\t' => ['\\', 't']
  | c =>
    if c.toNat < 0x20 then ['\\', 'u', '0', '0', hexChar (c.toNat / 16), hexChar (c.toNat % 16)]
    else [c]

/-- The text of a string, between quotes. -/
def stringChars (s : String) : List Char :=
  '"' :: s.toList.flatMap escapedChar ++ ['"']

mutual

/-- The compact text of a value. -/
def Value.chars : Value → List Char
  | .null => "null".toList
  | .boolean b => (if b then "true" else "false").toList
  | .number n => n.text.toList
  | .string s => stringChars s
  | .array items => '[' :: [','].intercalate (itemChars items) ++ [']']
  | .object members => '\x7b' :: [','].intercalate (memberChars members) ++ ['\x7d']

/-- The texts of the items of a list. -/
def itemChars : List Value → List (List Char)
  | [] => []
  | x :: xs => x.chars :: itemChars xs

/-- The texts of the members of an object. -/
def memberChars : List (String × Value) → List (List Char)
  | [] => []
  | (key, x) :: ms => (stringChars key ++ ':' :: x.chars) :: memberChars ms

end

/-- The compact text of a value. -/
def Value.text (x : Value) : String := String.ofList x.chars

end Telemetry.Json
