import Telemetry.Binary64.Decimal
import Telemetry.Json.Fault

/-!
# Numerals

Numbers as a document spells them. `readNumeral` takes a numeral apart into sign, significand and
power of ten; `Numeral.number?` is its value. A significand holds as many digits as stay below
`2 ^ 64`. Further digits before the point count as zeros, further ones after it are ignored.

`skipNumeral` passes over a numeral nobody asked for, of any size.
-/

namespace Telemetry.Json

/-- A numeral: plus or minus `significand · 10 ^ exponent`. It is `whole` if it was written as a
sign and digits that all fit into the significand. -/
structure Numeral where
  negative : Bool
  significand : Nat
  exponent : Int
  whole : Bool
deriving DecidableEq, Repr

/-- The greatest significand. -/
def greatestSignificand : Nat := (1 <<< 64) - 1

/-- The greatest number that may be written as an exponent. -/
def greatestExponent : Nat := (1 <<< 31) - 1

/-- Whether a digit comes next. -/
def startsWithDigit : Bytes → Bool
  | [] => false
  | b :: _ => Byte.isDigit b

/-- Passes over digits. -/
def skipDigits (s : Bytes) : Bytes := s.dropWhile Byte.isDigit

/-- Appends digits to a number for as long as it stays within the limit. -/
def takeDigits (limit : Nat) : Nat → Bytes → Nat × Bytes
  | n, [] => (n, [])
  | n, b :: s =>
    if Byte.isDigit b ∧ n * 10 + Byte.digit b ≤ limit then
      takeDigits limit (n * 10 + Byte.digit b) s
    else (n, b :: s)

/-- Reads the digits before the point. Those that do not fit into the significand raise the
exponent. There must be a digit, and none after a leading zero. -/
def readInteger (negative : Bool) : Scan Numeral
  | [] => .error (.here (.endOfInput .value) [])
  | b :: s =>
    if b = Byte.zero then
      if startsWithDigit s then .error (.ahead .invalidNumber s)
      else .ok (⟨negative, 0, 0, true⟩, s)
    else if Byte.isDigit b then
      let (n, r) := takeDigits greatestSignificand (Byte.digit b) s
      let rest := skipDigits r
      let skipped := r.length - rest.length
      .ok (⟨negative, n, skipped, skipped = 0⟩, rest)
    else .error (.here .invalidNumber s)

/-- Reads the point and the digits behind it, if there is a point. Those that fit into the
significand lower the exponent. There must be a digit. -/
def readFraction (x : Numeral) (s : Bytes) : Except Fault (Numeral × Bytes) :=
  match s with
  | [] => .ok (x, [])
  | b :: s =>
    if b ≠ Byte.point then .ok (x, b :: s)
    else if startsWithDigit s then
      let (n, r) := takeDigits greatestSignificand x.significand s
      let taken := s.length - r.length
      .ok (⟨x.negative, n, x.exponent - (taken : Int), false⟩, skipDigits r)
    else
      match s with
      | [] => .error (.ahead (.endOfInput .value) [])
      | s => .error (.ahead .invalidNumber s)

/-- Reads the sign of an exponent, which is negative after a minus. -/
def readExponentSign : Bytes → Bool × Bytes
  | [] => (false, [])
  | b :: s =>
    if b = Byte.plus then (false, s) else if b = Byte.minus then (true, s) else (false, b :: s)

/-- Whether a byte announces an exponent. -/
def isExponentMark (b : UInt8) : Bool := b == Byte.ofAscii 'e' || b == Byte.ofAscii 'E'

/-- Reads the exponent, if there is one. There must be a digit. At a digit too many the numeral is
zero if the exponent is negative, or the significand zero; otherwise it is out of range. -/
def readExponent (x : Numeral) (s : Bytes) : Except Fault (Numeral × Bytes) :=
  match s with
  | [] => .ok (x, [])
  | b :: s =>
    if !isExponentMark b then .ok (x, b :: s)
    else
      let (down, s) := readExponentSign s
      match s with
      | [] => .error (.here (.endOfInput .value) [])
      | b :: t =>
        if !Byte.isDigit b then .error (.here .invalidNumber t)
        else
          let (k, r) := takeDigits greatestExponent 0 (b :: t)
          if startsWithDigit r then
            if x.significand ≠ 0 ∧ !down then .error (.here .numberOutOfRange (r.drop 1))
            else .ok (⟨x.negative, 0, 0, false⟩, skipDigits r)
          else
            let shift : Int := if down then -(k : Int) else k
            .ok (⟨x.negative, x.significand, x.exponent + shift, false⟩, r)

/-- Reads a numeral. -/
def readNumeral (s : Bytes) : Except Fault (Numeral × Bytes) := do
  let (x, s) ←
    match s with
    | [] => readInteger false []
    | b :: s => if b = Byte.minus then readInteger true s else readInteger false (b :: s)
  let (x, s) ← readFraction x s
  readExponent x s

/-- The value of a numeral: an integer if it is written as one and has 64 bits, else a double, if
there is one that large. A zero with a minus is a double. -/
def Numeral.number? (x : Numeral) : Option Number :=
  if x.whole then
    if !x.negative then some (.integer x.significand)
    else if 1 ≤ x.significand ∧ x.significand ≤ 1 <<< 63 then some (.integer (-x.significand))
    else (Binary64.ofNat? x.significand).map (.double true)
  else (Binary64.ofDecimal? x.significand x.exponent).map (.double x.negative)

/-- Reads a number. -/
def readNumber (s : Bytes) : Except Fault (Number × Bytes) := do
  let (x, s) ← readNumeral s
  match x.number? with
  | some n => .ok (n, s)
  | none => .error (.here .numberOutOfRange s)

/-! ### Numerals nobody asked for -/

/-- Passes over digits, of which there must be one. A byte that is none is behind the fault. -/
def skipSomeDigits : Bytes → Except Fault Bytes
  | [] => .error (.here .invalidNumber [])
  | b :: s => if Byte.isDigit b then .ok (skipDigits s) else .error (.here .invalidNumber s)

/-- Passes over the digits before the point: a zero alone, or digits of which the first is another.
-/
def skipInteger : Bytes → Except Fault Bytes
  | [] => .error (.here .invalidNumber [])
  | b :: s =>
    if b = Byte.zero then
      if startsWithDigit s then .error (.ahead .invalidNumber s) else .ok s
    else skipSomeDigits (b :: s)

/-- Passes over the point and the digits behind it, if there is a point. -/
def skipFraction (s : Bytes) : Except Fault Bytes :=
  match s with
  | [] => .ok []
  | b :: s =>
    if b ≠ Byte.point then .ok (b :: s)
    else if startsWithDigit s then .ok (skipDigits s)
    else .error (.ahead .invalidNumber s)

/-- Passes over the exponent, if there is one. -/
def skipExponent (s : Bytes) : Except Fault Bytes :=
  match s with
  | [] => .ok []
  | b :: s => if isExponentMark b then skipSomeDigits (readExponentSign s).2 else .ok (b :: s)

/-- Passes over a numeral. -/
def skipNumeral (s : Bytes) : Except Fault Bytes := do
  let s ←
    match s with
    | [] => skipInteger []
    | b :: s => if b = Byte.minus then skipInteger s else skipInteger (b :: s)
  let s ← skipFraction s
  skipExponent s

end Telemetry.Json
