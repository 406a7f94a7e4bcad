import Telemetry.Binary64.Decimal
import Telemetry.Proofs.Binary64.Rounding

/-!
# Large decimal numerals as doubles

A numeral that is too large for 64 bits is made up of a significand of 64 bits and a power of ten,
which are rounded apart before their product is. That is off by little: what is too large stays so
(`le_of_ofDecimal?`), and numerals of up to 308 digits have a double (`exists_ofDecimal?`).
-/

namespace Telemetry.Binary64

variable {x y z : Binary64} {n k : Nat}

/-- The greatest number that a double can hold. -/
def greatest : Binary64 := ⟨2 ^ 53 - 1, greatestExponent⟩

theorem fits_greatest : greatest.Fits := ⟨by decide, by decide⟩

/-- The greatest number is above the greatest power of ten, with some room in between. -/
theorem le_greatest : (10 : ℚ) ^ greatestPower * (1 + 2 ^ (-52 : ℤ)) ^ 2 ≤ greatest.value := by
  have hnat : 10 ^ 308 * (2 ^ 52 + 1) ^ 2 ≤ (2 ^ 53 - 1) * 2 ^ 971 * (2 ^ 52) ^ 2 := by
    decide +kernel
  have hcast : (10 : ℚ) ^ 308 * (2 ^ 52 + 1) ^ 2 ≤ (2 ^ 53 - 1 : ℕ) * 2 ^ 971 * (2 ^ 52) ^ 2 := by
    exact_mod_cast hnat
  have hpower : (1 + 2 ^ (-52 : ℤ) : ℚ) = (2 ^ 52 + 1) / 2 ^ 52 := by norm_num
  rw [hpower, div_pow, mul_div_assoc', div_le_iff₀ (by positivity)]
  exact hcast

/-! ### Whole numbers and products -/

theorem le_of_ofNat? (hx : ofNat? n = some x) (hy : y.Fits) (h : y.value ≤ n) :
    y.value ≤ x.value :=
  le_of_round? Nat.one_pos hx hy (by simpa using h)

theorem exists_ofNat? (hn : 1 ≤ n) (h : (n : ℚ) ≤ 10 ^ greatestPower) :
    ∃ x, ofNat? n = some x ∧ x.value ≤ n * (1 + 2 ^ (-52 : ℤ)) := by
  have hle : ((n : ℕ) : ℚ) / (1 : ℕ) ≤ greatest.value := by
    have hgreatest := le_greatest
    norm_num at hgreatest ⊢
    linarith
  obtain ⟨x, hx, -⟩ := exists_round? Nat.one_pos fits_greatest (le_refl _) hle
  have hone : (1 : ℚ) ≤ (n : ℕ) / (1 : ℕ) := by simpa using hn
  refine ⟨x, hx, ?_⟩
  simpa using value_le_of_round? Nat.one_pos hx hone

theorem num_mul_div_den_mul (x y : Binary64) :
    ((x.num * y.num : ℕ) : ℚ) / (x.den * y.den : ℕ) = x.value * y.value := by
  rw [← num_div_den, ← num_div_den]
  push_cast
  exact (div_mul_div_comm _ _ _ _).symm

theorem le_of_mul? (hz : x.mul? y = some z) {u : Binary64} (hu : u.Fits)
    (h : u.value ≤ x.value * y.value) : u.value ≤ z.value :=
  le_of_round? (Nat.mul_pos x.den_pos y.den_pos) hz hu (by rwa [num_mul_div_den_mul])

theorem exists_mul? (h : x.value * y.value ≤ greatest.value) : ∃ z, x.mul? y = some z := by
  obtain ⟨z, hz, -⟩ := exists_round? (Nat.mul_pos x.den_pos y.den_pos) fits_greatest (le_refl _)
    (by rwa [num_mul_div_den_mul])
  exact ⟨z, hz⟩

/-! ### Numerals that do not fit into 64 bits -/

/-- The least significand of a number that does not fit into 64 bits is rounded up, as its last bits
are more than a half of the unit at which doubles of that size lie. -/
theorem le_of_ofNat?_large (hn : 1844674407370955161 ≤ n) (hx : ofNat? n = some x) :
    1844674407370955264 ≤ x.value := by
  set y : Binary64 := ⟨7205759403792794, 8⟩ with hy
  have hyvalue : y.value = 1844674407370955264 := by norm_num [hy, value]
  have hfits : y.Fits := ⟨by norm_num, by decide⟩
  have hn' : (1844674407370955161 : ℚ) ≤ n := by exact_mod_cast hn
  rw [← hyvalue]
  by_contra hlt
  have hbelow := (fits_of_round? Nat.one_pos hx).le_sub_of_lt (show 2 ^ 52 < y.mantissa by norm_num)
    (lt_of_not_ge hlt)
  have hnear := abs_sub_le_of_round? Nat.one_pos hx hfits
  have hpower : (2 : ℚ) ^ y.exponent = 256 := by norm_num [hy]
  rw [hyvalue, hpower] at hbelow
  rw [hyvalue, Nat.cast_one, div_one, abs_of_nonpos (by linarith)] at hnear
  obtain habs | habs := abs_cases (1844674407370955264 - (n : ℚ))
  · linarith
  · linarith

/-- What is too large for 64 bits is not rounded into their range. -/
theorem le_of_ofDecimal? (hn : 1844674407370955161 ≤ n) (hk : 1 ≤ k)
    (hz : ofDecimal? n k = some z) : 2 ^ 64 ≤ z.value := by
  unfold ofDecimal? at hz
  split at hz
  · cases hz
  · next x hx =>
    have hlarge := le_of_ofNat?_large hn hx
    have hne : x ≠ zero := by
      rintro rfl
      norm_num at hlarge
    rw [if_pos (Int.natCast_nonneg k), Int.toNat_natCast, scaleUp?] at hz
    split at hz
    · next hpower =>
      obtain ⟨p, hp, hz⟩ := Option.bind_eq_some_iff.mp hz
      rw [powerOfTen?, if_pos hpower] at hp
      have hten : (10 : ℚ) ≤ p.value := by
        have hten : (⟨10, 0⟩ : Binary64).value = 10 := by norm_num [value]
        rw [← hten]
        refine le_of_ofNat? hp ⟨by norm_num, by decide⟩ ?_
        rw [hten]
        exact_mod_cast Nat.le_self_pow (Nat.one_le_iff_ne_zero.mp hk) 10
      have hbound : (⟨1, 64⟩ : Binary64).value = 2 ^ 64 := by norm_num [value]
      rw [← hbound]
      refine le_of_mul? hz ⟨by norm_num, by decide⟩ ?_
      rw [hbound]
      calc (2 : ℚ) ^ 64 ≤ 1844674407370955264 * 10 := by norm_num
        _ ≤ x.value * p.value := mul_le_mul hlarge hten (by norm_num) x.value_nonneg
    · cases hz

/-- Up to 308 digits there is a double. -/
theorem exists_ofDecimal? {digits : Nat} (hn : 1 ≤ n) (hdigits : n < 10 ^ digits)
    (h : digits + k ≤ greatestPower) : ∃ z, ofDecimal? n k = some z := by
  have hone : (1 : ℚ) ≤ 10 := by norm_num
  have hn' : (n : ℚ) ≤ 10 ^ digits := by exact_mod_cast hdigits.le
  obtain ⟨x, hx, hxle⟩ := exists_ofNat? hn (hn'.trans (pow_le_pow_right₀ hone (by omega)))
  obtain ⟨p, hp, hple⟩ := exists_ofNat? (n := 10 ^ k) (Nat.pow_pos (by decide)) (by
    push_cast
    exact pow_le_pow_right₀ hone (by omega))
  obtain ⟨z, hz⟩ := exists_mul? (x := x) (y := p) (by
    have hpow : (0 : ℚ) < 1 + 2 ^ (-52 : ℤ) := by norm_num
    calc x.value * p.value
        ≤ n * (1 + 2 ^ (-52 : ℤ)) * ((10 ^ k : ℕ) * (1 + 2 ^ (-52 : ℤ))) :=
          mul_le_mul hxle hple p.value_nonneg (by positivity)
      _ = n * 10 ^ k * (1 + 2 ^ (-52 : ℤ)) ^ 2 := by
          push_cast
          ring
      _ ≤ 10 ^ digits * 10 ^ k * (1 + 2 ^ (-52 : ℤ)) ^ 2 := by gcongr
      _ ≤ 10 ^ greatestPower * (1 + 2 ^ (-52 : ℤ)) ^ 2 := by
          rw [← pow_add]
          gcongr
      _ ≤ greatest.value := le_greatest)
  refine ⟨z, ?_⟩
  rw [ofDecimal?, hx]
  dsimp only
  rw [if_pos (Int.natCast_nonneg k), Int.toNat_natCast, scaleUp?, if_pos (by omega), powerOfTen?,
    if_pos (by omega)]
  exact Option.bind_eq_some_iff.mpr ⟨p, hp, hz⟩

end Telemetry.Binary64
