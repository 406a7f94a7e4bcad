/-!
# Lines

Texts made of lines. `unlines` puts a line feed behind each line, and `lines` takes a text apart
again. A line ends in front of a line feed, or of a carriage return and a line feed; a carriage
return anywhere else belongs to its line. What stands behind the last line feed is a line too,
unless it is empty.
-/

namespace Telemetry.Text

/-- A text of whole lines. -/
def unlines (lines : List String) : String := String.join (lines.map (· ++ "\n"))

/-- Takes characters apart into lines. -/
def splitLines : List Char → List (List Char)
  | [] => []
  | '\n' :: cs => [] :: splitLines cs
  | '\r' :: '\n' :: cs => [] :: splitLines cs
  | c :: cs =>
    match splitLines cs with
    | [] => [[c]]
    | l :: ls => (c :: l) :: ls

/-- The lines of a text. -/
def lines (text : String) : List String := (splitLines text.toList).map String.ofList

end Telemetry.Text
