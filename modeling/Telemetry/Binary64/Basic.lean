/-!
# Numbers of double precision

The non-negative finite numbers that a double of 64 bits can hold: `mantissa · 2 ^ exponent`, the
mantissa below `2 ^ 53`. Arithmetic is exact arithmetic on fractions followed by one rounding,
`Binary64.round?`, to the nearest such number, a tie going to the even mantissa. What is too large
has no result.
-/

namespace Telemetry

/-- A non-negative finite number of double precision. Rounding makes the mantissa at least `2 ^ 52`
unless the exponent is the least one, so that equal numbers have equal parts. -/
structure Binary64 where
  mantissa : Nat
  exponent : Int
deriving DecidableEq, Repr

/-- The quotient rounded to the nearest whole number, a half to the even one. -/
def nearestQuotient (num den : Nat) : Nat :=
  let q := num / den
  let r := num % den
  if 2 * r < den then q else if den < 2 * r then q + 1 else q + q % 2

namespace Binary64

/-- The exponent of the finest numbers, those below `2 ^ -1022`. -/
def leastExponent : Int := -1074

/-- The exponent of the coarsest numbers. -/
def greatestExponent : Int := 971

/-- Mantissas stay below this. -/
def mantissaBound : Nat := 1 <<< 53

/-- Zero. -/
def zero : Binary64 := ⟨0, leastExponent⟩

/-- The numerator of the value, as a fraction. -/
def num (x : Binary64) : Nat := x.mantissa * Nat.pow 2 x.exponent.toNat

/-- The denominator of the value, as a fraction. -/
def den (x : Binary64) : Nat := Nat.pow 2 (-x.exponent).toNat

/-- The multiple of `2 ^ e` nearest to a fraction, if its mantissa is small enough. -/
def onGrid? (num den : Nat) (e : Int) : Option Binary64 :=
  let m := nearestQuotient (num * Nat.pow 2 (-e).toNat) (den * Nat.pow 2 e.toNat)
  if m < mantissaBound then some ⟨m, e⟩ else none

/-- An exponent at which the nearest multiple has 53 to 54 bits, or the least one. -/
def startExponent (num den : Nat) : Int :=
  max leastExponent ((num.log2 : Int) - den.log2 - 53)

/-- The number nearest to a fraction: the nearest multiple of `2 ^ e` for the first `e` at which it
fits. There is none if that `e` is too large. -/
def round? (num den : Nat) : Option Binary64 :=
  if num = 0 then some zero
  else
    let e := startExponent num den
    match (onGrid? num den e <|> onGrid? num den (e + 1) <|> onGrid? num den (e + 2)) with
    | none => none
    | some x => if x.exponent ≤ greatestExponent then some x else none

/-- The number nearest to a whole number. -/
def ofNat? (n : Nat) : Option Binary64 := round? n 1

/-- The product, rounded. -/
def mul? (x y : Binary64) : Option Binary64 := round? (x.num * y.num) (x.den * y.den)

/-- The quotient by a number that is not zero, rounded. -/
def div? (x y : Binary64) : Option Binary64 := round? (x.num * y.den) (x.den * y.num)

/-- Whether the number is at least `n`. -/
def atLeast (x : Binary64) (n : Nat) : Bool := n * x.den ≤ x.num

end Binary64

end Telemetry
