import Telemetry.Binary64.Basic

/-!
# Shortest decimal text of doubles

A double is shown by the fewest digits that read back as the same double. The numbers that round to
`mantissa · 2 ^ exponent` form an interval, whose ends belong to it if the mantissa is even. The
digits come from the coarsest grid `10 ^ e` with a point in that interval; if both neighbours of the
double on that grid are inside, the nearer one is taken, and the even one of two as near.

Measured in quarters of the unit `2 ^ exponent`, the double is `4 · mantissa`. The interval reaches
two quarters up and two down, or one down where the numbers below lie twice as close.
-/

namespace Telemetry.Binary64

/-- A decimal number `digits · 10 ^ exponent`. -/
structure Decimal where
  digits : Nat
  exponent : Int
deriving DecidableEq, Repr

/-- How many quarters below the double the interval of numbers that round to it begins. -/
def reachDown (x : Binary64) : Nat :=
  if x.mantissa = 1 <<< 52 ∧ leastExponent < x.exponent then 1 else 2

/-- The length of a step of the grid `10 ^ e` in quarters of the double's unit, as a fraction. -/
def gridStep (x : Binary64) (e : Int) : Nat × Nat :=
  (Nat.pow 10 e.toNat * Nat.pow 2 (2 - x.exponent).toNat,
    Nat.pow 10 (-e).toNat * Nat.pow 2 (x.exponent - 2).toNat)

/-- Whether `d` steps of the grid `10 ^ e` lead to a number that rounds to the double. -/
def roundsTo (x : Binary64) (e : Int) (d : Nat) : Bool :=
  let (p, q) := x.gridStep e
  let low := (4 * x.mantissa - x.reachDown) * q
  let high := (4 * x.mantissa + 2) * q
  if x.mantissa % 2 = 0 then low ≤ d * p && d * p ≤ high else low < d * p && d * p < high

/-- The neighbour of the double on the grid `10 ^ e` that is to be shown, if one rounds to it. -/
def neighbour? (x : Binary64) (e : Int) : Option Decimal :=
  let (p, q) := x.gridStep e
  let centre := 4 * x.mantissa * q
  let d := centre / p
  match x.roundsTo e d, x.roundsTo e (d + 1) with
  | false, false => none
  | true, false => some ⟨d, e⟩
  | false, true => some ⟨d + 1, e⟩
  | true, true =>
    let below := centre - d * p
    let above := (d + 1) * p - centre
    if below < above ∨ (below = above ∧ d % 2 = 0) then some ⟨d, e⟩ else some ⟨d + 1, e⟩

/-- The exponents of the grids from the coarsest that can matter to the finest. -/
def gridExponents : List Int :=
  (List.range 700).map fun i : Nat => (309 : Int) - i

/-- The fewest digits that read back as the double, which is not zero. -/
def shortest (x : Binary64) : Decimal :=
  (gridExponents.findSome? x.neighbour?).getD ⟨0, 0⟩

/-- A run of zeros. -/
def zeros (n : Nat) : List Char := List.replicate n '0'

/-- The sign and the digits of an exponent. -/
def exponentText (x : Int) : List Char :=
  (if x < 0 then '-' else '+') :: (toString x.natAbs).toList

/-- The exponent of the first digit from which on numbers are written with an exponent. -/
def positionalBelow : Int := 16

/-- The least exponent of the first digit at which numbers are written without an exponent. -/
def positionalFrom : Int := -5

/-- The text of a decimal number. Where the first digit's exponent is small it is positional, always
with a fraction; otherwise one digit, a fraction if there are more, and the exponent with its sign.
-/
def Decimal.text (x : Decimal) : List Char :=
  let ds := (toString x.digits).toList
  let first := x.exponent + ds.length - 1
  if positionalFrom ≤ first ∧ first < positionalBelow then
    if 0 ≤ x.exponent then ds ++ zeros x.exponent.toNat ++ ['.', '0']
    else if 0 ≤ first then ds.take (first.toNat + 1) ++ '.' :: ds.drop (first.toNat + 1)
    else ['0', '.'] ++ zeros (-first - 1).toNat ++ ds
  else
    let fraction := ds.drop 1
    ds.take 1 ++ (if fraction = [] then [] else '.' :: fraction) ++ 'e' :: exponentText first

/-- The text of a double. -/
def text (x : Binary64) : String :=
  if x.mantissa = 0 then "0.0" else String.ofList x.shortest.text

end Telemetry.Binary64
