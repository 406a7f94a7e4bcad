/-!
# Bytes

Documents, headers and file contents are lists of bytes. This module names the ASCII bytes that have
a meaning of their own in a document, and the classes of bytes that its scanners ask for.
-/

namespace Telemetry

/-- A piece of text or file contents, before any decoding. -/
abbrev Bytes := List UInt8

namespace Byte

/-- The horizontal tab. -/
abbrev tab : UInt8 := 0x09

/-- The line feed; it alone ends a line. -/
abbrev lineFeed : UInt8 := 0x0a

/-- The carriage return. -/
abbrev carriageReturn : UInt8 := 0x0d

/-- The space. -/
abbrev space : UInt8 := 0x20

/-- The double quote, around strings. -/
abbrev quote : UInt8 := 0x22

/-- The plus sign, allowed before an exponent. -/
abbrev plus : UInt8 := 0x2b

/-- The comma, between the items of a list or an object. -/
abbrev comma : UInt8 := 0x2c

/-- The minus sign. -/
abbrev minus : UInt8 := 0x2d

/-- The full stop, before a fraction. -/
abbrev point : UInt8 := 0x2e

/-- The slash. -/
abbrev slash : UInt8 := 0x2f

/-- The digit zero. -/
abbrev zero : UInt8 := 0x30

/-- The digit nine. -/
abbrev nine : UInt8 := 0x39

/-- The colon, between a key and its value. -/
abbrev colon : UInt8 := 0x3a

/-- The backslash, which starts an escape. -/
abbrev backslash : UInt8 := 0x5c

/-- The opening bracket of a list. -/
abbrev openList : UInt8 := 0x5b

/-- The closing bracket of a list. -/
abbrev closeList : UInt8 := 0x5d

/-- The opening bracket of an object. -/
abbrev openObject : UInt8 := 0x7b

/-- The closing bracket of an object. -/
abbrev closeObject : UInt8 := 0x7d

/-- The byte of an ASCII character. -/
def ofAscii (c : Char) : UInt8 := c.toNat.toUInt8

/-- Blanks may stand between any two tokens: space, tab, line feed and carriage return. -/
def isBlank (b : UInt8) : Bool :=
  b == space || b == tab || b == lineFeed || b == carriageReturn

/-- The decimal digits. -/
def isDigit (b : UInt8) : Bool :=
  zero ≤ b && b ≤ nine

/-- The value of a decimal digit. -/
def digit (b : UInt8) : Nat := b.toNat - 0x30

/-- The value of a hexadecimal digit of either case. -/
def hexDigit? (b : UInt8) : Option Nat :=
  let n := b.toNat
  if 0x30 ≤ n ∧ n ≤ 0x39 then some (n - 0x30)
  else if 0x41 ≤ n ∧ n ≤ 0x46 then some (n - 0x41 + 10)
  else if 0x61 ≤ n ∧ n ≤ 0x66 then some (n - 0x61 + 10)
  else none

/-- Bytes below the space may not stand in a string. -/
def isControl (b : UInt8) : Bool :=
  b < space

end Byte

end Telemetry
