import Telemetry.Binary64.Basic

/-!
# Decimal numerals as doubles

A numeral with a fraction or an exponent, `significand · 10 ^ exponent`, becomes a double in few
roundings: the significand is rounded, then multiplied or divided by the rounded power of ten. That
is not always the double nearest to the numeral; the last bit may differ.
-/

namespace Telemetry.Binary64

/-- The greatest power of ten that a double can hold. -/
def greatestPower : Nat := 308

/-- The double nearest to a power of ten, up to the greatest. -/
def powerOfTen? (k : Nat) : Option Binary64 :=
  if k ≤ greatestPower then ofNat? (Nat.pow 10 k) else none

/-- Divides by `10 ^ k`, taking the greatest power away first as often as needed. Zero stays zero.
-/
def scaleDown? (x : Binary64) (k : Nat) : Option Binary64 :=
  if k ≤ greatestPower then (powerOfTen? k).bind x.div?
  else if x = zero then some x
  else ((powerOfTen? greatestPower).bind x.div?).bind fun y => y.scaleDown? (k - greatestPower)
termination_by k
decreasing_by unfold greatestPower at *; omega

/-- Multiplies by `10 ^ k`. Zero stays zero; anything else overflows past the greatest power. -/
def scaleUp? (x : Binary64) (k : Nat) : Option Binary64 :=
  if k ≤ greatestPower then (powerOfTen? k).bind x.mul?
  else if x = zero then some x
  else none

/-- The double for `significand · 10 ^ exponent`; none if it is too large. -/
def ofDecimal? (significand : Nat) (exponent : Int) : Option Binary64 :=
  match ofNat? significand with
  | none => none
  | some x =>
    if 0 ≤ exponent then x.scaleUp? exponent.toNat else x.scaleDown? (-exponent).toNat

end Telemetry.Binary64
