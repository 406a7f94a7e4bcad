import Mathlib
import Telemetry.Binary64.Basic

/-!
# Rounding to double precision

`Binary64.round?` gives a number nearest to a fraction: none that a double can hold is nearer
(`abs_sub_le_of_round?`). So rounding does not pass by such a number (`le_of_round?`,
`value_le_of_round?`), and there is a result unless the fraction is above all of them
(`exists_round?`).

Everything follows from which exponent is chosen: the least one, or one for which the fraction is
above all numbers with smaller exponents (`exists_onGrid?`).
-/

namespace Telemetry

variable {num den : Nat}

/-- A rounded quotient is off by a half at most. -/
theorem abs_nearestQuotient_sub_le (num : Nat) (hden : 0 < den) :
    |(nearestQuotient num den : ℚ) - num / den| ≤ 1 / 2 := by
  have hboth : 2 * (den * nearestQuotient num den) ≤ 2 * num + den ∧
      2 * num ≤ 2 * (den * nearestQuotient num den) + den := by
    have hmod := Nat.mod_lt num hden
    have hsum := Nat.div_add_mod num den
    simp only [nearestQuotient]
    generalize num / den = q at hsum ⊢
    generalize num % den = r at hsum hmod ⊢
    have hsucc : den * (q + 1) = den * q + den := Nat.mul_succ den q
    split
    · omega
    · split
      · omega
      · obtain h | h := Nat.mod_two_eq_zero_or_one q
        · rw [h, Nat.add_zero]
          omega
        · rw [h]
          omega
  obtain ⟨hle, hge⟩ := hboth
  have hle' : 2 * (den * (nearestQuotient num den : ℚ)) ≤ 2 * num + den := by exact_mod_cast hle
  have hge' : 2 * (num : ℚ) ≤ 2 * (den * (nearestQuotient num den : ℚ)) + den := by
    exact_mod_cast hge
  have hpos : (0 : ℚ) < den := by exact_mod_cast hden
  have hcancel : (num : ℚ) / den * den = num := div_mul_cancel₀ _ hpos.ne'
  rw [abs_le]
  constructor
  · refine le_of_mul_le_mul_right ?_ hpos
    linarith
  · refine le_of_mul_le_mul_right ?_ hpos
    linarith

namespace Binary64

variable {x y : Binary64} {e : Int}

/-! ### Values -/

/-- The value of a number. -/
def value (x : Binary64) : ℚ := x.mantissa * 2 ^ x.exponent

/-- The numbers that a double can hold, if their exponents are not too large. -/
structure Fits (x : Binary64) : Prop where
  mantissa : x.mantissa < 2 ^ 53
  exponent : leastExponent ≤ x.exponent

theorem den_pos (x : Binary64) : 0 < x.den := Nat.two_pow_pos _

theorem two_zpow_pos (e : Int) : (0 : ℚ) < 2 ^ e := zpow_pos (by norm_num) e

@[simp] theorem value_zero : zero.value = 0 := by simp [zero, value]

theorem value_nonneg (x : Binary64) : 0 ≤ x.value :=
  mul_nonneg (Nat.cast_nonneg _) (two_zpow_pos _).le

/-- Either of two powers that make up a power of two is one. -/
theorem two_pow_toNat_div (e : Int) : (2 : ℚ) ^ e.toNat / 2 ^ (-e).toNat = 2 ^ e := by
  rw [← zpow_natCast, ← zpow_natCast, ← zpow_sub₀ (by norm_num)]
  congr 1
  omega

theorem num_div_den (x : Binary64) : (x.num : ℚ) / x.den = x.value := by
  rw [num, den, value, ← two_pow_toNat_div x.exponent, mul_div_assoc']
  push_cast [Nat.pow_eq]
  rfl

theorem atLeast_iff {n : Nat} : x.atLeast n = true ↔ (n : ℚ) ≤ x.value := by
  have hpos : (0 : ℚ) < x.den := by exact_mod_cast x.den_pos
  rw [atLeast, decide_eq_true_eq, ← num_div_den, le_div_iff₀ hpos]
  exact_mod_cast Iff.rfl

/-- A number is a whole multiple of smaller powers. -/
theorem exists_value_eq (h : e ≤ x.exponent) : ∃ k : Nat, x.value = k * 2 ^ e := by
  refine ⟨x.mantissa * 2 ^ (x.exponent - e).toNat, ?_⟩
  have hsum : x.exponent = ((x.exponent - e).toNat : Int) + e := by omega
  rw [value, hsum, zpow_add₀ (by norm_num), zpow_natCast]
  push_cast
  rw [← hsum]
  ring

/-- Numbers stay below the values of mantissas that are too large. -/
theorem Fits.value_le (h : x.Fits) (he : x.exponent ≤ e) : x.value ≤ (2 ^ 53 - 1) * 2 ^ e := by
  have hm : (x.mantissa : ℚ) ≤ 2 ^ 53 - 1 := by
    have hle : x.mantissa + 1 ≤ 2 ^ 53 := h.mantissa
    have hcast : (x.mantissa : ℚ) + 1 ≤ 2 ^ 53 := by exact_mod_cast hle
    linarith
  have hpow : (2 : ℚ) ^ x.exponent ≤ 2 ^ e := zpow_le_zpow_right₀ (by norm_num) he
  exact mul_le_mul hm hpow (two_zpow_pos _).le (by norm_num)

/-- There is no number between one with a large mantissa and the one below it. -/
theorem Fits.le_sub_of_lt (hx : x.Fits) (hy : 2 ^ 52 < y.mantissa) (h : x.value < y.value) :
    x.value ≤ y.value - 2 ^ y.exponent := by
  have hpos := two_zpow_pos y.exponent
  obtain he | he := le_or_gt y.exponent x.exponent
  · obtain ⟨k, hk⟩ := exists_value_eq he
    rw [hk, value] at h ⊢
    have hlt : (k : ℚ) < y.mantissa := lt_of_mul_lt_mul_right h hpos.le
    have hle : (k : ℚ) + 1 ≤ y.mantissa := by exact_mod_cast hlt
    nlinarith
  · have hle := hx.value_le (show x.exponent ≤ y.exponent - 1 by omega)
    have hm : (2 : ℚ) ^ 52 + 1 ≤ y.mantissa := by exact_mod_cast hy
    have hvalue : y.value = y.mantissa * 2 ^ y.exponent := rfl
    rw [zpow_sub_one₀ (by norm_num)] at hle
    rw [hvalue]
    nlinarith

/-! ### The chosen exponent -/

/-- The nearest multiple of a power of two, if it fits. -/
theorem onGrid?_spec (num : Nat) (hden : 0 < den) (e : Int) :
    (∃ x, onGrid? num den e = some x ∧ x.exponent = e ∧ x.mantissa < 2 ^ 53 ∧
      |x.value - num / den| ≤ 2 ^ e / 2) ∨
    onGrid? num den e = none ∧ (2 ^ 53 - 1 / 2) * 2 ^ e ≤ (num : ℚ) / den := by
  set m := nearestQuotient (num * Nat.pow 2 (-e).toNat) (den * Nat.pow 2 e.toNat) with hm
  have hpos := two_zpow_pos e
  have hnear : |(m : ℚ) * 2 ^ e - num / den| ≤ 2 ^ e / 2 := by
    have hscaled : (num * Nat.pow 2 (-e).toNat : ℕ) / (den * Nat.pow 2 e.toNat : ℕ) * (2 : ℚ) ^ e =
        num / den := by
      have hd : (den : ℚ) ≠ 0 := by exact_mod_cast hden.ne'
      rw [← two_pow_toNat_div e]
      push_cast [Nat.pow_eq]
      field_simp
    have hden' : 0 < den * Nat.pow 2 e.toNat := Nat.mul_pos hden (Nat.two_pow_pos _)
    have hle := abs_nearestQuotient_sub_le (num * Nat.pow 2 (-e).toNat) hden'
    rw [← hm] at hle
    have hmul := mul_le_mul_of_nonneg_right hle hpos.le
    rw [← abs_of_pos hpos, ← abs_mul, abs_of_pos hpos, sub_mul, hscaled] at hmul
    linarith
  have hbound : mantissaBound = 2 ^ 53 := by decide
  by_cases hfits : m < 2 ^ 53
  · refine .inl ⟨⟨m, e⟩, ?_, rfl, hfits, hnear⟩
    rw [onGrid?, hbound, if_pos hfits]
  · refine .inr ⟨by rw [onGrid?, hbound, if_neg hfits], ?_⟩
    have hge : (2 : ℚ) ^ 53 ≤ m := by exact_mod_cast Nat.le_of_not_lt hfits
    have hupper := (abs_le.mp hnear).2
    nlinarith

/-- What is rounded lies within two powers of two. -/
theorem startExponent_spec (hnum : num ≠ 0) (hden : 0 < den) :
    (num : ℚ) / den < 2 ^ (startExponent num den + 54) ∧
      (startExponent num den = leastExponent ∨
        2 ^ (startExponent num den + 52) ≤ (num : ℚ) / den) := by
  have hpos : (0 : ℚ) < den := by exact_mod_cast hden
  have hnum' : (2 : ℚ) ^ (num.log2 : Int) ≤ num ∧ (num : ℚ) < 2 ^ ((num.log2 : Int) + 1) := by
    constructor
    · exact_mod_cast Nat.log2_self_le hnum
    · exact_mod_cast Nat.lt_log2_self
  have hden' : (2 : ℚ) ^ (den.log2 : Int) ≤ den ∧ (den : ℚ) < 2 ^ ((den.log2 : Int) + 1) := by
    constructor
    · exact_mod_cast Nat.log2_self_le hden.ne'
    · exact_mod_cast Nat.lt_log2_self
  constructor
  · rw [div_lt_iff₀ hpos]
    calc (num : ℚ) < 2 ^ ((num.log2 : Int) + 1) := hnum'.2
      _ ≤ 2 ^ (startExponent num den + 54 + den.log2) :=
          zpow_le_zpow_right₀ (by norm_num) (by unfold startExponent; omega)
      _ = 2 ^ (startExponent num den + 54) * 2 ^ (den.log2 : Int) := zpow_add₀ (by norm_num) _ _
      _ ≤ 2 ^ (startExponent num den + 54) * den :=
          mul_le_mul_of_nonneg_left hden'.1 (two_zpow_pos _).le
  · obtain h | h := le_total ((num.log2 : Int) - den.log2 - 53) leastExponent
    · exact .inl (max_eq_left h)
    · refine .inr ?_
      have hstart : startExponent num den = (num.log2 : Int) - den.log2 - 53 := max_eq_right h
      rw [le_div_iff₀ hpos]
      calc (2 : ℚ) ^ (startExponent num den + 52) * den
          ≤ 2 ^ (startExponent num den + 52) * 2 ^ ((den.log2 : Int) + 1) :=
            mul_le_mul_of_nonneg_left hden'.2.le (two_zpow_pos _).le
        _ = 2 ^ (startExponent num den + 52 + (den.log2 + 1)) :=
            (zpow_add₀ (by norm_num) _ _).symm
        _ = 2 ^ (num.log2 : Int) := by congr 1; omega
        _ ≤ num := hnum'.1

/-- A fraction is rounded to a multiple of a power of two. The exponent is the least one, or numbers
with smaller exponents are all too small. -/
theorem exists_onGrid? (hnum : num ≠ 0) (hden : 0 < den) :
    ∃ x : Binary64, x.Fits ∧ |x.value - num / den| ≤ 2 ^ x.exponent / 2 ∧
      (x.exponent = leastExponent ∨
        (2 ^ 53 - 1 / 2) * 2 ^ (x.exponent - 1) ≤ (num : ℚ) / den) ∧
      round? num den = if x.exponent ≤ greatestExponent then some x else none := by
  obtain ⟨hlt, hstart⟩ := startExponent_spec hnum hden
  have hleast : leastExponent ≤ startExponent num den := le_max_left _ _
  generalize he : startExponent num den = e at hlt hstart hleast
  have hround {x : Binary64} (h : (onGrid? num den e <|> onGrid? num den (e + 1) <|>
      onGrid? num den (e + 2)) = some x) :
      round? num den = if x.exponent ≤ greatestExponent then some x else none := by
    simp only [round?, if_neg hnum, he, h]
  obtain ⟨x, hx, rfl, hm, hnear⟩ | ⟨hnone, hlarge⟩ := onGrid?_spec num hden e
  · refine ⟨x, ⟨hm, hleast⟩, hnear, hstart.imp_right fun h => ?_, hround (by rw [hx]; rfl)⟩
    rw [zpow_add₀ (by norm_num)] at h
    rw [zpow_sub_one₀ (by norm_num)]
    have hpos := two_zpow_pos x.exponent
    norm_num at h ⊢
    linarith
  obtain ⟨x, hx, hexponent, hm, hnear⟩ | ⟨hnone', hlarge'⟩ :=
    onGrid?_spec num hden (e + 1)
  · refine ⟨x, ⟨hm, by omega⟩, hexponent ▸ hnear, .inr ?_, hround (by rw [hnone, hx]; rfl)⟩
    rwa [hexponent, add_sub_cancel_right]
  obtain ⟨x, hx, hexponent, hm, hnear⟩ | ⟨hnone'', hlarge''⟩ :=
    onGrid?_spec num hden (e + 2)
  · refine ⟨x, ⟨hm, by omega⟩, hexponent ▸ hnear, .inr ?_,
      hround (by rw [hnone, hnone', hx]; rfl)⟩
    rwa [hexponent, show e + 2 - 1 = e + 1 by omega]
  · -- at the last exponent everything fits
    have hpos := two_zpow_pos e
    rw [zpow_add₀ (by norm_num)] at hlt hlarge''
    norm_num at hlt hlarge''
    linarith

/-! ### The nearest number -/

/-- Rounding gives a number that a double can hold. -/
theorem fits_of_round? (hden : 0 < den) (hx : round? num den = some x) : x.Fits := by
  by_cases hnum : num = 0
  · rw [round?, if_pos hnum] at hx
    cases hx
    exact ⟨by decide, le_refl _⟩
  · obtain ⟨z, hz, -, -, hround⟩ := exists_onGrid? hnum hden
    rw [hround] at hx
    split at hx <;> cases hx
    exact hz

/-- Different multiples of a power of two are that far apart. -/
theorem two_zpow_le_abs_sub_of_ne {k : Nat} (h : k ≠ x.mantissa) :
    (2 : ℚ) ^ x.exponent ≤ |k * 2 ^ x.exponent - x.value| := by
  have hpos := two_zpow_pos x.exponent
  have hint : (1 : ℤ) ≤ |(k : ℤ) - x.mantissa| := Int.one_le_abs (by omega)
  have hone : (1 : ℚ) ≤ |(k : ℚ) - x.mantissa| := by exact_mod_cast hint
  rw [value, ← sub_mul, abs_mul, abs_of_pos hpos]
  exact le_mul_of_one_le_left hpos.le hone

/-- What is nearest to a fraction a little below a power of two is that power. -/
theorem mantissa_eq_of_near {q : ℚ} (hnear : |x.value - q| ≤ 2 ^ x.exponent / 2)
    (hlow : (2 ^ 52 - 1 / 4) * 2 ^ x.exponent ≤ q) (hhigh : q < 2 ^ 52 * 2 ^ x.exponent) :
    x.mantissa = 2 ^ 52 := by
  have hpos := two_zpow_pos x.exponent
  obtain ⟨hge, hle⟩ := abs_le.mp hnear
  rw [value] at hge hle
  have hlt : (x.mantissa : ℚ) < 2 ^ 52 + 1 := by
    refine lt_of_mul_lt_mul_right ?_ hpos.le
    linarith
  have hgt : (2 : ℚ) ^ 52 < x.mantissa + 1 := by
    refine lt_of_mul_lt_mul_right ?_ hpos.le
    linarith
  have hlt' : x.mantissa < 2 ^ 52 + 1 := by exact_mod_cast hlt
  have hgt' : 2 ^ 52 < x.mantissa + 1 := by exact_mod_cast hgt
  omega

/-- No number that a double can hold is nearer to a fraction than what it is rounded to. -/
theorem abs_sub_le_of_round? (hden : 0 < den) (hx : round? num den = some x) (hy : y.Fits) :
    |x.value - num / den| ≤ |y.value - num / den| := by
  by_cases hnum : num = 0
  · rw [round?, if_pos hnum] at hx
    cases hx
    simp [hnum]
  · obtain ⟨z, hz, hnear, hleast, hround⟩ := exists_onGrid? hnum hden
    rw [hround] at hx
    split at hx <;> cases hx
    have hpos := two_zpow_pos x.exponent
    obtain he | he := le_or_gt x.exponent y.exponent
    · obtain ⟨k, hk⟩ := exists_value_eq he
      obtain hkx | hkx := eq_or_ne k x.mantissa
      · rw [hk, hkx, value]
      · -- another multiple is at least a half away
        have hapart := two_zpow_le_abs_sub_of_ne hkx
        rw [← hk] at hapart
        have htriangle := abs_sub_le y.value ((num : ℚ) / den) x.value
        rw [abs_sub_comm ((num : ℚ) / den)] at htriangle
        linarith
    · have hfine := hleast.resolve_left (by have := hy.exponent; omega)
      have hsmall := hy.value_le (show y.exponent ≤ x.exponent - 1 by omega)
      rw [zpow_sub_one₀ (by norm_num)] at hfine hsmall
      have hfar : |y.value - num / den| = num / den - y.value := by
        rw [abs_sub_comm]
        exact abs_of_nonneg (by nlinarith)
      rw [hfar]
      obtain hge | hlt := le_or_gt (2 ^ 52 * 2 ^ x.exponent) ((num : ℚ) / den)
      · linarith
      · -- below the power of two, that is the nearest multiple
        have hm := mantissa_eq_of_near hnear (by linarith) hlt
        rw [value, hm, Nat.cast_pow, Nat.cast_ofNat, abs_of_nonneg (by linarith)]
        linarith

/-- Rounding does not pass by a number below. -/
theorem le_of_round? (hden : 0 < den) (hx : round? num den = some x) (hy : y.Fits)
    (h : y.value ≤ num / den) : y.value ≤ x.value := by
  by_contra hlt
  have hnear := abs_sub_le_of_round? hden hx hy
  rw [abs_of_nonpos (by linarith), abs_of_nonpos (by linarith)] at hnear
  linarith

/-- There is a result if there is a number above, and rounding does not pass by that. -/
theorem exists_round? (hden : 0 < den) (hy : y.Fits) (hgreatest : y.exponent ≤ greatestExponent)
    (h : num / den ≤ y.value) : ∃ x, round? num den = some x ∧ x.value ≤ y.value := by
  by_cases hnum : num = 0
  · refine ⟨zero, by rw [round?, if_pos hnum], ?_⟩
    simpa using y.value_nonneg
  · obtain ⟨x, hx, hnear, hleast, hround⟩ := exists_onGrid? hnum hden
    have he : x.exponent ≤ y.exponent := by
      by_contra hlt
      have hfine := hleast.resolve_left (by have := hy.exponent; omega)
      have hsmall := hy.value_le (show y.exponent ≤ x.exponent - 1 by omega)
      have hpos := two_zpow_pos (x.exponent - 1)
      nlinarith
    rw [if_pos (he.trans hgreatest)] at hround
    refine ⟨x, hround, ?_⟩
    by_contra hlt
    have hnearest := abs_sub_le_of_round? hden hround hy
    rw [abs_of_nonneg (by linarith), abs_of_nonneg (by linarith)] at hnearest
    linarith

/-- Rounding a fraction that is not small changes it by a small part only. -/
theorem value_le_of_round? (hden : 0 < den) (hx : round? num den = some x)
    (h : 1 ≤ (num : ℚ) / den) : x.value ≤ num / den * (1 + 2 ^ (-52 : ℤ)) := by
  have hnum : num ≠ 0 := by
    rintro rfl
    norm_num at h
  obtain ⟨z, hz, hnear, hleast, hround⟩ := exists_onGrid? hnum hden
  rw [hround] at hx
  split at hx <;> cases hx
  have hupper := (abs_le.mp hnear).2
  generalize (num : ℚ) / den = q at h hupper hleast ⊢
  rw [mul_add, mul_one]
  have hmul := le_mul_of_one_le_left (two_zpow_pos (-52)).le h
  have hpos := two_zpow_pos x.exponent
  obtain hleast | hfine := hleast
  · have hsmall : (2 : ℚ) ^ x.exponent ≤ 2 ^ (-52 : ℤ) := by
      rw [hleast]
      exact zpow_le_zpow_right₀ (by norm_num) (by decide)
    linarith
  · rw [zpow_sub_one₀ (by norm_num)] at hfine
    norm_num at hfine ⊢
    linarith

end Binary64

end Telemetry
