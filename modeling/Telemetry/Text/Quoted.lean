import Telemetry.Text.GraphemeExtend
import Telemetry.Text.Unprintable

/-!
# Quoted text

How a string is shown in a message: between double quotes, with an escape for every character that
would end the quotation, start an escape, or not be visible as itself.
-/

namespace Telemetry.Text

/-- Whether a code point lies in one of the ranges. -/
def inRanges (ranges : List (Nat × Nat)) (n : Nat) : Bool :=
  ranges.any fun (first, last) => first ≤ n && n ≤ last

/-- Whether a character has no visible form of its own. -/
def isUnprintable (c : Char) : Bool := inRanges unprintableRanges c.toNat

/-- Whether a character is shown on what stands before it. The halfwidth voicing marks extend a
grapheme too, but take a place of their own beside it. -/
def isAttached (c : Char) : Bool :=
  inRanges graphemeExtendRanges c.toNat && c != '\uff9e' && c != '\uff9f'

/-- A character is shown as itself if it is the space, or visible and not attached to its neighbour.
-/
def isShown (c : Char) : Bool := c == ' ' || !(isUnprintable c || isAttached c)

/-- The lower case hexadecimal digits of a number, without leading zeros. -/
def hexDigits (n : Nat) : String := String.ofList (Nat.toDigits 16 n)

/-- How a character stands in quoted text: the quote and the backslash after a backslash, the three
common blanks and the null character as a letter after one, other hidden characters by their number.
-/
def quotedChar (c : Char) : String :=
  match c with
  | '"' => "\\\""
  | '\\' => "\\\\"
  | '\n' => "\\n"
  | '\r' => "\\r"
  | '\t' => "\\t"
  | '\x00' => "\\0"
  | c => if isShown c then String.singleton c else "\\u\x7b" ++ hexDigits c.toNat ++ "\x7d"

/-- A string between double quotes, every character visible. -/
def quoted (s : String) : String :=
  "\"" ++ String.join (s.toList.map quotedChar) ++ "\""

end Telemetry.Text
