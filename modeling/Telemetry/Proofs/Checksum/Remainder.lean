import Mathlib
import Telemetry.Checksum

/-!
# Checksums as remainders

Bits are the coefficients of a polynomial over `GF(2)`, the first one that of the highest power. The
register after some bytes is the remainder of a division by the generator, of the register before
and the bytes moved up by sixteen places (`absorbAll_eq_iff_remainder`).

Remainders are compared in the quotient by the generator, where a step of the shift register is
multiplication by the root (`residue_shift`). From there everything is arithmetic in a commutative
ring. A register has fewer bits than the generator, so it is the only one with its residue
(`residue_injective`).
-/

namespace Telemetry

open Polynomial

/-! ### Bits and polynomials -/

/-- The bits of a word, most significant first. -/
def bitsOf {w : Nat} (x : BitVec w) : List Bool := List.ofFn fun i : Fin w => x.getMsbD i

/-- The bits of some bytes in their order, of each byte the most significant first. -/
def messageBits (bytes : Bytes) : List Bool := bytes.flatMap fun b => bitsOf b.toBitVec

/-- The polynomial with bits for its coefficients, the first one that of the highest power. -/
noncomputable def polynomialOf : List Bool → (ZMod 2)[X]
  | [] => 0
  | b :: bs => (if b then X ^ bs.length else 0) + polynomialOf bs

variable {w : Nat} {as bs : List Bool}

@[simp] theorem length_bitsOf (x : BitVec w) : (bitsOf x).length = w := by simp [bitsOf]

@[simp] theorem length_messageBits (bytes : Bytes) :
    (messageBits bytes).length = 8 * bytes.length := by
  simp [messageBits, Nat.mul_comm]

theorem bitsOf_injective : Function.Injective (bitsOf (w := w)) := by
  intro x y h
  refine BitVec.eq_of_getMsbD_eq fun i hi => ?_
  exact congrFun (List.ofFn_injective h) ⟨i, hi⟩

theorem polynomialOf_append (as bs : List Bool) :
    polynomialOf (as ++ bs) = polynomialOf as * X ^ bs.length + polynomialOf bs := by
  induction as with
  | nil => simp [polynomialOf]
  | cons a as ih =>
    rw [List.cons_append, polynomialOf, polynomialOf, ih, List.length_append]
    split <;> ring

theorem polynomialOf_replicate_false (n : Nat) : polynomialOf (List.replicate n false) = 0 := by
  induction n with
  | zero => rfl
  | succ n ih => rw [List.replicate_succ, polynomialOf, ih]; simp

theorem degree_polynomialOf_lt (bs : List Bool) : (polynomialOf bs).degree < bs.length := by
  induction bs with
  | nil => simp [polynomialOf]
  | cons b bs ih =>
    rw [polynomialOf, List.length_cons]
    have hlt : (bs.length : WithBot ℕ) < ((bs.length + 1 : ℕ) : WithBot ℕ) := by
      exact_mod_cast Nat.lt_succ_self bs.length
    refine lt_of_le_of_lt (degree_add_le _ _) (max_lt ?_ (ih.trans hlt))
    split
    · rw [degree_X_pow]
      exact hlt
    · rw [degree_zero]
      exact WithBot.bot_lt_coe _

/-- Of so many bits each is a coefficient. -/
theorem polynomialOf_inj (h : as.length = bs.length) (hp : polynomialOf as = polynomialOf bs) :
    as = bs := by
  induction as generalizing bs with
  | nil => exact (List.length_eq_zero_iff.mp h.symm).symm
  | cons a as ih =>
    obtain ⟨b, bs, rfl⟩ := List.exists_cons_of_length_pos (l := bs) (by simp [← h])
    have hlength : as.length = bs.length := by simpa using h
    have hhead (c : Bool) (cs : List Bool) :
        (polynomialOf (c :: cs)).coeff cs.length = if c then 1 else 0 := by
      rw [polynomialOf, coeff_add, coeff_eq_zero_of_degree_lt (degree_polynomialOf_lt cs), add_zero]
      split <;> simp
    have hab : a = b := by
      have hcoeff := hhead a as
      rw [hp, hlength, hhead b bs] at hcoeff
      cases a <;> cases b <;> simp_all
    subst hab
    rw [polynomialOf, polynomialOf, hlength] at hp
    rw [ih hlength (add_left_cancel hp)]

/-- Addition over `GF(2)` is exclusive or. -/
theorem polynomialOf_zipWith_xor (h : as.length = bs.length) :
    polynomialOf (List.zipWith (· ^^ ·) as bs) = polynomialOf as + polynomialOf bs := by
  induction as generalizing bs with
  | nil =>
    obtain rfl := List.length_eq_zero_iff.mp h.symm
    simp [polynomialOf]
  | cons a as ih =>
    obtain ⟨b, bs, rfl⟩ := List.exists_cons_of_length_pos (l := bs) (by simp [← h])
    have hlength : as.length = bs.length := by simpa using h
    have hterm : (if a ^^ b then (X : (ZMod 2)[X]) ^ bs.length else 0) =
        (if a then X ^ bs.length else 0) + if b then X ^ bs.length else 0 := by
      cases a <;> cases b <;> simp [CharTwo.add_self_eq_zero]
    rw [List.zipWith_cons_cons, polynomialOf, polynomialOf, polynomialOf, ih hlength,
      List.length_zipWith, hlength, Nat.min_self, hterm]
    ring

theorem bitsOf_xor (x y : BitVec w) :
    bitsOf (x ^^^ y) = List.zipWith (· ^^ ·) (bitsOf x) (bitsOf y) := by
  refine List.ext_getElem (by simp) fun i hi _ => ?_
  simp [bitsOf]

/-! ### The quotient by the generator -/

/-- The polynomial that checksums are remainders of division by. -/
noncomputable def generator : (ZMod 2)[X] := X ^ 16 + X ^ 12 + X ^ 5 + 1

theorem degree_tail_lt : (X ^ 12 + X ^ 5 + 1 : (ZMod 2)[X]).degree < 16 := by
  compute_degree!

theorem generator_eq : generator = X ^ 16 + (X ^ 12 + X ^ 5 + 1) := by
  rw [generator]
  ring

theorem monic_generator : generator.Monic := by
  rw [generator_eq]
  exact monic_X_pow_add degree_tail_lt

theorem degree_generator : generator.degree = 16 := by
  rw [generator_eq, degree_add_eq_left_of_degree_lt] <;> rw [degree_X_pow]
  · rfl
  · exact degree_tail_lt

namespace Checksum

variable {crc d : Checksum}

/-- The polynomial that a register holds. -/
noncomputable def toPolynomial (crc : Checksum) : (ZMod 2)[X] := polynomialOf (bitsOf crc)

/-- What a register stands for in the quotient by the generator. -/
noncomputable def residue (crc : Checksum) : AdjoinRoot generator :=
  AdjoinRoot.mk generator crc.toPolynomial

theorem toPolynomial_xor (c d : Checksum) :
    (c ^^^ d).toPolynomial = c.toPolynomial + d.toPolynomial := by
  rw [toPolynomial, bitsOf_xor, polynomialOf_zipWith_xor (by simp)]
  rfl

/-- A register is too short for anything to be left out of it. -/
theorem toPolynomial_modByMonic (crc : Checksum) :
    crc.toPolynomial %ₘ generator = crc.toPolynomial := by
  rw [modByMonic_eq_self_iff monic_generator, degree_generator]
  simpa [toPolynomial] using degree_polynomialOf_lt (bitsOf crc)

/-- A register holds the remainder of a polynomial exactly if it stands for the same. -/
theorem residue_eq_mk_iff {p : (ZMod 2)[X]} :
    crc.residue = AdjoinRoot.mk generator p ↔ crc.toPolynomial = p %ₘ generator := by
  rw [residue, AdjoinRoot.mk_eq_mk]
  constructor
  · intro h
    rw [← toPolynomial_modByMonic]
    exact modByMonic_eq_of_dvd_sub monic_generator h
  · intro h
    rw [h]
    exact dvd_modByMonic_sub p generator

theorem residue_injective : Function.Injective residue := by
  intro c d h
  have hp : c.toPolynomial = d.toPolynomial := by
    rw [← toPolynomial_modByMonic d]
    exact residue_eq_mk_iff.mp h
  exact bitsOf_injective (polynomialOf_inj (by simp) hp)

/-! ### The shift register -/

/-- Moving a register up by one place loses the coefficient of the highest power. -/
theorem X_mul_toPolynomial (crc : Checksum) :
    X * crc.toPolynomial = toPolynomial (crc <<< 1) + if crc.msb then X ^ 16 else 0 := by
  have hbits : bitsOf crc = crc.msb :: List.ofFn fun i : Fin 15 => crc.getMsbD (i + 1) := by
    rw [bitsOf, List.ofFn_succ]
    rfl
  have hshift : bitsOf (crc <<< 1) =
      (List.ofFn fun i : Fin 15 => crc.getMsbD (i + 1)) ++ [false] := by
    rw [bitsOf, List.ofFn_succ_last]
    simp
  rw [toPolynomial, toPolynomial, hbits, hshift, polynomialOf_append, polynomialOf]
  cases crc.msb <;> simp [polynomialOf] <;> ring

theorem toPolynomial_polynomial : polynomial.toPolynomial = X ^ 12 + X ^ 5 + 1 := by
  have hbits : bitsOf polynomial = [false, false, false, true, false, false, false, false, false,
      false, true, false, false, false, false, true] := by
    decide +kernel
  rw [toPolynomial, hbits]
  simp [polynomialOf]
  ring

/-- A step of the shift register is multiplication by the root of the generator. -/
theorem residue_shift (crc : Checksum) :
    crc.shift.residue = AdjoinRoot.root generator * crc.residue := by
  have hsum : (X : (ZMod 2)[X]) ^ 16 + X ^ 16 = 0 := CharTwo.add_self_eq_zero _
  have hpolynomial : crc.shift.toPolynomial =
      X * crc.toPolynomial + if crc.msb then generator else 0 := by
    rw [X_mul_toPolynomial, shift]
    split
    · rw [toPolynomial_xor, toPolynomial_polynomial, generator_eq]
      linear_combination -hsum
    · simp
  rw [residue, hpolynomial, map_add, map_mul, AdjoinRoot.mk_X, residue]
  split
  · rw [AdjoinRoot.mk_self, add_zero]
  · rw [map_zero, add_zero]

theorem residue_repeat_shift (n : Nat) (crc : Checksum) :
    residue (Nat.repeat shift n crc) = AdjoinRoot.root generator ^ n * crc.residue := by
  induction n with
  | zero => simp [Nat.repeat]
  | succ n ih => rw [Nat.repeat, residue_shift, ih, pow_succ', mul_assoc]

/-- A byte is taken in at the upper end of the register. -/
theorem toPolynomial_moved (byte : UInt8) :
    toPolynomial (byte.toBitVec.setWidth 16 <<< 8) =
      polynomialOf (bitsOf byte.toBitVec) * X ^ 8 := by
  have hbits : bitsOf (byte.toBitVec.setWidth 16 <<< 8) =
      bitsOf byte.toBitVec ++ List.replicate 8 false := by
    have hall : ∀ b : BitVec 8,
        bitsOf (b.setWidth 16 <<< 8) = bitsOf b ++ List.replicate 8 false := by
      decide +kernel
    exact hall byte.toBitVec
  rw [toPolynomial, hbits, polynomialOf_append, polynomialOf_replicate_false, List.length_replicate,
    add_zero]

theorem residue_absorb (crc : Checksum) (byte : UInt8) :
    (crc.absorb byte).residue = AdjoinRoot.root generator ^ 8 * crc.residue +
      AdjoinRoot.root generator ^ 16 *
        AdjoinRoot.mk generator (polynomialOf (bitsOf byte.toBitVec)) := by
  rw [absorb, residue_repeat_shift, residue, toPolynomial_xor, map_add, toPolynomial_moved, map_mul,
    map_pow, AdjoinRoot.mk_X, residue]
  ring

/-- Bytes are multiplied by the sixteenth power and what was in the register before by as many as
there are bits in them. -/
theorem residue_absorbAll (crc : Checksum) (bytes : Bytes) :
    (crc.absorbAll bytes).residue = AdjoinRoot.mk generator
      (crc.toPolynomial * X ^ (8 * bytes.length) + polynomialOf (messageBits bytes) * X ^ 16) := by
  simp only [map_add, map_mul, map_pow, AdjoinRoot.mk_X]
  induction bytes generalizing crc with
  | nil => simp [messageBits, polynomialOf, residue]
  | cons b bytes ih =>
    have hbits : messageBits (b :: bytes) = bitsOf b.toBitVec ++ messageBits bytes := rfl
    rw [absorbAll_cons, ih, hbits, polynomialOf_append, length_messageBits, List.length_cons]
    simp only [← residue.eq_def, residue_absorb, map_add, map_mul, map_pow, AdjoinRoot.mk_X]
    ring

/-- The checksum is a remainder. What a register holds after some bytes is the remainder that
division by the generator leaves of the register before, moved up by as many places as the bytes
have bits, and the bytes, moved up by sixteen. For the checksum of some bytes the register was full
of ones. -/
theorem absorbAll_eq_iff_remainder (crc : Checksum) (bytes : Bytes) :
    (∀ d : Checksum, crc.absorbAll bytes = d ↔ d.toPolynomial =
      (crc.toPolynomial * X ^ (8 * bytes.length) + polynomialOf (messageBits bytes) * X ^ 16) %ₘ
        (X ^ 16 + X ^ 12 + X ^ 5 + 1)) ∧
      ∀ d : Checksum, ofBytes bytes = d ↔ d.toPolynomial =
        ((∑ i ∈ Finset.range 16, X ^ i) * X ^ (8 * bytes.length) +
          polynomialOf (messageBits bytes) * X ^ 16) %ₘ (X ^ 16 + X ^ 12 + X ^ 5 + 1) := by
  have hiff (crc d : Checksum) : crc.absorbAll bytes = d ↔ d.toPolynomial =
      (crc.toPolynomial * X ^ (8 * bytes.length) + polynomialOf (messageBits bytes) * X ^ 16) %ₘ
        generator := by
    rw [← residue_eq_mk_iff, ← residue_absorbAll, residue_injective.eq_iff, eq_comm]
  have hinitial : initial.toPolynomial = ∑ i ∈ Finset.range 16, X ^ i := by
    have hbits : bitsOf initial = List.replicate 16 true := by decide +kernel
    rw [toPolynomial, hbits]
    simp [polynomialOf, Finset.sum_range_succ]
    ring
  exact ⟨hiff crc, hinitial ▸ hiff initial⟩

/-- The checksum of the digits from one to nine, by which variants of the check are told apart. -/
example : ofBytes [0x31, 0x32, 0x33, 0x34, 0x35, 0x36, 0x37, 0x38, 0x39] = 0x29b1 := by
  decide +kernel

end Checksum

end Telemetry
