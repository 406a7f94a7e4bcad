import Telemetry.Proofs.Checksum.Remainder
import Telemetry.Schema.Basic

/-!
# Differences that the checksum notices

Two messages of one length have the same checksum exactly if the generator divides the polynomial of
the places where they differ (`absorbAll_eq_iff`); what was in the register before and what the
messages have in common does not matter. It does not divide polynomials of a lower degree, nor ones
with an odd number of terms, as it has the root one; and the first power of the root that is one
again is the 32767th (`orderOf_root`).

Powers of the root are computed in the register, by squaring (`powerOfRoot`).
-/

namespace Telemetry

open Polynomial

variable {as bs : List Bool}

/-! ### Places -/

/-- The places where bits differ. -/
def differences (as bs : List Bool) : Finset ℕ :=
  (Finset.range as.length).filter fun i => as[i]? ≠ bs[i]?

/-- Polynomials of bits differ by the powers that belong to the places where the bits differ. -/
theorem polynomialOf_add (h : as.length = bs.length) :
    polynomialOf as + polynomialOf bs = ∑ i ∈ differences as bs, X ^ (as.length - 1 - i) := by
  rw [differences, Finset.sum_filter]
  induction as generalizing bs with
  | nil =>
    obtain rfl := List.length_eq_zero_iff.mp h.symm
    simp [polynomialOf]
  | cons a as ih =>
    obtain ⟨b, bs, rfl⟩ := List.exists_cons_of_length_pos (l := bs) (by simp [← h])
    have hlength : as.length = bs.length := by simpa using h
    have hterm : (if (a :: as)[0]? ≠ (b :: bs)[0]? then (X : (ZMod 2)[X]) ^ as.length else 0) =
        (if a then X ^ as.length else 0) + if b then X ^ as.length else 0 := by
      cases a <;> cases b <;> simp [CharTwo.add_self_eq_zero]
    have hexponent (i : ℕ) : as.length + 1 - 1 - (i + 1) = as.length - 1 - i := by omega
    rw [List.length_cons, Finset.sum_range_succ']
    simp only [List.getElem?_cons_succ, hexponent]
    rw [← ih hlength, Nat.add_sub_cancel, Nat.sub_zero, hterm, polynomialOf, polynomialOf, hlength]
    ring

theorem differences_nonempty (h : as.length = bs.length) (hne : as ≠ bs) :
    (differences as bs).Nonempty := by
  rw [Finset.nonempty_iff_ne_empty]
  contrapose! hne
  refine List.ext_getElem? fun i => ?_
  by_cases hi : i < as.length
  · by_contra hdiffer
    have hmem : i ∈ differences as bs := Finset.mem_filter.mpr ⟨Finset.mem_range.mpr hi, hdiffer⟩
    rw [hne] at hmem
    exact Finset.notMem_empty i hmem
  · rw [List.getElem?_eq_none (by omega), List.getElem?_eq_none (by omega)]

theorem messageBits_inj {xs ys : Bytes} (h : xs.length = ys.length)
    (hbits : messageBits xs = messageBits ys) : xs = ys := by
  induction xs generalizing ys with
  | nil => exact (List.length_eq_zero_iff.mp h.symm).symm
  | cons x xs ih =>
    obtain ⟨y, ys, rfl⟩ := List.exists_cons_of_length_pos (l := ys) (by simp [← h])
    have hsplit : bitsOf x.toBitVec ++ messageBits xs = bitsOf y.toBitVec ++ messageBits ys := hbits
    obtain ⟨hx, hxs⟩ := List.append_inj hsplit (by simp)
    rw [UInt8.toBitVec_inj.mp (bitsOf_injective hx), ih (by simpa using h) hxs]

namespace Checksum

/-! ### The root -/

/-- The root of the generator. -/
noncomputable abbrev root : AdjoinRoot generator := AdjoinRoot.root generator

theorem isUnit_root : IsUnit root := by
  have hzero : root ^ 16 + root ^ 12 + root ^ 5 + 1 = 0 := by
    have hmk : AdjoinRoot.mk generator (X ^ 16 + X ^ 12 + X ^ 5 + 1) = 0 := AdjoinRoot.mk_self
    simpa only [map_add, map_pow, map_one, AdjoinRoot.mk_X] using hmk
  refine IsUnit.of_mul_eq_one (-(root ^ 15 + root ^ 11 + root ^ 4)) ?_
  linear_combination -hzero

/-- The product of two registers, by Horner's rule. -/
def times (c d : Checksum) : Checksum :=
  (bitsOf c).foldl (fun acc b => if b then acc.shift ^^^ d else acc.shift) 0

/-- The power of the root with an exponent in binary. -/
def powerOfRoot (exponent : List Bool) : Checksum :=
  exponent.foldl (fun c b => if b then (times c c).shift else times c c) 1

theorem residue_xor (c d : Checksum) : (c ^^^ d).residue = c.residue + d.residue := by
  rw [residue, toPolynomial_xor, map_add]
  rfl

theorem residue_zero : residue 0 = 0 := by
  have hbits : bitsOf (0 : Checksum) = List.replicate 16 false := by decide +kernel
  rw [residue, toPolynomial, hbits, polynomialOf_replicate_false, map_zero]

theorem residue_one : residue 1 = 1 := by
  have hbits : bitsOf (1 : Checksum) = List.replicate 15 false ++ [true] := by decide +kernel
  rw [residue, toPolynomial, hbits, polynomialOf_append, polynomialOf_replicate_false]
  simp [polynomialOf]

theorem residue_times (c d : Checksum) : (times c d).residue = c.residue * d.residue := by
  have hfold (bits : List Bool) (acc : Checksum) :
      residue (bits.foldl (fun acc b => if b then acc.shift ^^^ d else acc.shift) acc) =
        root ^ bits.length * acc.residue +
          AdjoinRoot.mk generator (polynomialOf bits) * d.residue := by
    induction bits generalizing acc with
    | nil => simp [polynomialOf]
    | cons b bits ih =>
      rw [List.foldl_cons, ih, polynomialOf, List.length_cons]
      cases b
      · simp [residue_shift]
        ring
      · simp [residue_shift, residue_xor]
        ring
  rw [times, hfold, residue_zero, mul_zero, zero_add]
  rfl

/-- The number that is written in binary. -/
def binary (bits : List Bool) : ℕ := bits.foldl (fun n b => 2 * n + b.toNat) 0

theorem residue_powerOfRoot (exponent : List Bool) :
    (powerOfRoot exponent).residue = root ^ binary exponent := by
  have hfold (bits : List Bool) (c : Checksum) (n : ℕ) (h : c.residue = root ^ n) :
      residue (bits.foldl (fun c b => if b then (times c c).shift else times c c) c) =
        root ^ bits.foldl (fun n b => 2 * n + b.toNat) n := by
    induction bits generalizing c n with
    | nil => exact h
    | cons b bits ih =>
      rw [List.foldl_cons, List.foldl_cons]
      refine ih _ _ ?_
      cases b
      · simp [residue_times, h, two_mul, pow_add]
      · simp [residue_shift, residue_times, h, two_mul, pow_add]
        ring
  exact hfold exponent 1 0 (by rw [residue_one, pow_zero])

theorem root_pow_eq_one_iff (exponent : List Bool) :
    root ^ binary exponent = 1 ↔ powerOfRoot exponent = 1 := by
  rw [← residue_powerOfRoot, ← residue_one, residue_injective.eq_iff]

/-- The powers of the root come back to one after 32767 steps, and not before. -/
theorem orderOf_root : orderOf root = 32767 := by
  have hone : root ^ 32767 = 1 :=
    (root_pow_eq_one_iff (List.replicate 15 true)).mpr (by decide +kernel)
  refine orderOf_eq_of_pow_and_pow_div_prime (by decide) hone fun p hp hdvd => ?_
  have hfactors : p ∣ 7 * 31 * 151 := hdvd
  rw [hp.dvd_mul, hp.dvd_mul, Nat.prime_dvd_prime_iff_eq hp (by norm_num),
    Nat.prime_dvd_prime_iff_eq hp (by norm_num), Nat.prime_dvd_prime_iff_eq hp (by norm_num)]
    at hfactors
  obtain (rfl | rfl) | rfl := hfactors
  · exact (root_pow_eq_one_iff [true, false, false, true, false, false, true, false, false, true,
      false, false, true]).not.mpr (by decide +kernel)
  · exact (root_pow_eq_one_iff [true, false, false, false, false, true, false, false, false, false,
      true]).not.mpr (by decide +kernel)
  · exact (root_pow_eq_one_iff [true, true, false, true, true, false, false, true]).not.mpr
      (by decide +kernel)

/-! ### Differences that are noticed -/

/-- Differences that are small: they lie within sixteen places, or there is an odd number of them,
or there are two, not too far apart. -/
inductive SmallDifference (places : Finset ℕ) : Prop where
  | burst {k : ℕ} : (∀ i ∈ places, k ≤ i ∧ i < k + 16) → SmallDifference places
  | odd : Odd places.card → SmallDifference places
  | two {i j : ℕ} : i < j → j - i ≤ 32766 → places = {i, j} → SmallDifference places

/-- Whether a difference goes unnoticed depends on its places alone. -/
theorem absorbAll_eq_iff {crc : Checksum} {xs ys : Bytes} (h : xs.length = ys.length) :
    crc.absorbAll xs = crc.absorbAll ys ↔ AdjoinRoot.mk generator
      (∑ i ∈ differences (messageBits xs) (messageBits ys), X ^ (8 * xs.length - 1 - i)) = 0 := by
  have hlength : (messageBits xs).length = (messageBits ys).length := by simp [h]
  have hsum := polynomialOf_add hlength
  rw [length_messageBits] at hsum
  rw [← residue_injective.eq_iff, residue_absorbAll, residue_absorbAll, h, ← sub_eq_zero, ← map_sub,
    add_sub_add_left_eq_sub, ← sub_mul, CharTwo.sub_eq_add, hsum, map_mul, map_pow, AdjoinRoot.mk_X,
    h]
  exact (isUnit_root.pow 16).mul_left_eq_zero

/-- Powers that all terms have in common do not matter. -/
theorem mk_sum_eq_zero_iff {places : Finset ℕ} {last n : ℕ} (hlast : ∀ i ∈ places, i ≤ last)
    (hn : last < n) :
    AdjoinRoot.mk generator (∑ i ∈ places, X ^ (n - 1 - i)) = 0 ↔
      AdjoinRoot.mk generator (∑ i ∈ places, X ^ (last - i)) = 0 := by
  have hsum : (∑ i ∈ places, (X : (ZMod 2)[X]) ^ (n - 1 - i)) =
      X ^ (n - 1 - last) * ∑ i ∈ places, X ^ (last - i) := by
    rw [Finset.mul_sum]
    refine Finset.sum_congr rfl fun i hi => ?_
    rw [← pow_add]
    congr 1
    have := hlast i hi
    omega
  rw [hsum, map_mul, map_pow, AdjoinRoot.mk_X]
  exact (isUnit_root.pow _).mul_right_eq_zero

/-- The terms of a small difference do not add up to a multiple of the generator. -/
theorem SmallDifference.mk_sum_ne_zero {places : Finset ℕ} {last : ℕ}
    (h : SmallDifference places) (hmem : last ∈ places) (hlast : ∀ i ∈ places, i ≤ last) :
    AdjoinRoot.mk generator (∑ i ∈ places, X ^ (last - i)) ≠ 0 := by
  intro hzero
  have hdvd := AdjoinRoot.mk_eq_zero.mp hzero
  cases h with
  | @burst k h =>
    have hdegree : (∑ i ∈ places, (X : (ZMod 2)[X]) ^ (last - i)).degree < generator.degree := by
      rw [degree_generator]
      refine lt_of_le_of_lt (degree_sum_le _ _) ((Finset.sup_lt_iff (by decide)).mpr fun i hi => ?_)
      rw [degree_X_pow]
      have hi := h i hi
      have hl := h last hmem
      exact_mod_cast (by omega : last - i < 16)
    have hsum := not_not.mp fun hne => monic_generator.not_dvd_of_degree_lt hne hdegree hdvd
    -- the last place is the only one with a constant term
    have hconstant := congrArg (eval 0) hsum
    rw [eval_finsetSum, Finset.sum_eq_single_of_mem last hmem] at hconstant
    · simp at hconstant
    · intro i hi hne
      have hle := hlast i hi
      rw [eval_pow, eval_X, zero_pow (by omega)]
  | odd h =>
    obtain ⟨q, hq⟩ := hdvd
    have hvalue := congrArg (eval 1) hq
    have hroot : generator.eval 1 = 0 := by
      simp only [generator, eval_add, eval_pow, eval_X, eval_one]
      decide
    rw [eval_mul, hroot, zero_mul, eval_finsetSum] at hvalue
    simp only [eval_pow, eval_X, one_pow, Finset.sum_const, nsmul_eq_mul, mul_one] at hvalue
    rw [ZMod.natCast_eq_zero_iff_even] at hvalue
    exact Nat.not_even_iff_odd.mpr h hvalue
  | @two i j hij hfar hplaces =>
    subst hplaces
    have hj : last = j := by
      have hle := hlast j (by simp)
      obtain rfl | rfl : last = i ∨ last = j := by simpa using hmem
      · omega
      · rfl
    have hpow : root ^ (j - i) = 1 := by
      rw [hj, Finset.sum_pair (by omega), Nat.sub_self, pow_zero, ← CharTwo.sub_eq_add, map_sub,
        map_pow, AdjoinRoot.mk_X, map_one] at hzero
      exact sub_eq_zero.mp hzero
    have hle := Nat.le_of_dvd (by omega) (orderOf_root ▸ orderOf_dvd_of_pow_eq_one hpow)
    omega

/-- Bytes with a small difference leave different registers. -/
theorem SmallDifference.absorbAll_ne {xs ys : Bytes} (hlength : xs.length = ys.length)
    (hne : xs ≠ ys) (h : SmallDifference (differences (messageBits xs) (messageBits ys)))
    (crc : Checksum) : crc.absorbAll xs ≠ crc.absorbAll ys := by
  have hplaces : (differences (messageBits xs) (messageBits ys)).Nonempty :=
    differences_nonempty (by simp [hlength]) (hne ∘ messageBits_inj hlength)
  have hmem := Finset.max'_mem _ hplaces
  have hlast : Finset.max' _ hplaces < 8 * xs.length := by
    have hrange := Finset.mem_range.mp (Finset.mem_filter.mp hmem).1
    rwa [length_messageBits] at hrange
  rw [ne_eq, absorbAll_eq_iff hlength, mk_sum_eq_zero_iff (Finset.le_max' _) hlast]
  exact h.mk_sum_ne_zero hmem (Finset.le_max' _)

/-- One byte that is another is a small difference. -/
theorem smallDifference_of_byte {before after : Bytes} {x y : UInt8} :
    SmallDifference (differences (messageBits (before ++ x :: after))
      (messageBits (before ++ y :: after))) := by
  have hbits (z : UInt8) : messageBits (before ++ z :: after) =
      messageBits before ++ (bitsOf z.toBitVec ++ messageBits after) := by
    simp [messageBits]
  refine .burst (k := 8 * before.length) fun i hi => ?_
  obtain ⟨-, hdiffer⟩ := Finset.mem_filter.mp hi
  rw [hbits, hbits] at hdiffer
  -- in front of the byte and behind it there is the same bit
  constructor
  · by_contra hlt
    rw [List.getElem?_append_left (by simp; omega), List.getElem?_append_left (by simp; omega)]
      at hdiffer
    exact hdiffer rfl
  · by_contra hge
    rw [List.getElem?_append_right (by simp; omega), List.getElem?_append_right (by simp; omega),
      List.getElem?_append_right (by simp; omega), List.getElem?_append_right (by simp; omega),
      length_bitsOf, length_bitsOf] at hdiffer
    exact hdiffer rfl

end Checksum

/-! ### Schemas -/

/-- Lists that differ at one place. -/
theorem exists_split_of_existsUnique {α : Type} {l r : List α} (h : l.length = r.length)
    (hone : ∃! i : ℕ, l[i]? ≠ r[i]?) :
    ∃ before x y after, l = before ++ x :: after ∧ r = before ++ y :: after ∧ x ≠ y := by
  obtain ⟨i, hi, hunique⟩ := hone
  have hsame (j : ℕ) (hj : j ≠ i) : l[j]? = r[j]? := by
    by_contra hne
    exact hj (hunique j hne)
  have hlt : i < l.length := by
    by_contra hge
    exact hi (by rw [List.getElem?_eq_none (by omega), List.getElem?_eq_none (by omega)])
  refine ⟨l.take i, l[i], r[i], l.drop (i + 1), by simp, ?_, by simpa [hlt, h ▸ hlt] using hi⟩
  have htake : r.take i = l.take i := by
    refine List.ext_getElem? fun j => ?_
    rw [List.getElem?_take, List.getElem?_take]
    split
    · exact (hsame j (by omega)).symm
    · rfl
  have hdrop : r.drop (i + 1) = l.drop (i + 1) := by
    refine List.ext_getElem? fun j => ?_
    rw [List.getElem?_drop, List.getElem?_drop]
    exact (hsame _ (by omega)).symm
  rw [← htake, ← hdrop]
  simp

/-- Lists of lists of the same shape that differ at one place of one list. -/
theorem exists_split_flatten {α : Type} {l r : List (List α)}
    (h : l.map List.length = r.map List.length)
    (hone : ∃! p : ℕ × ℕ, l[p.1]?.bind (·[p.2]?) ≠ r[p.1]?.bind (·[p.2]?)) :
    ∃ before x y after, l.flatten = before ++ x :: after ∧ r.flatten = before ++ y :: after ∧
      x ≠ y := by
  have hlength : l.length = r.length := by simpa using congrArg List.length h
  obtain ⟨⟨i, k⟩, hik, hunique⟩ := hone
  have houter : ∃! i : ℕ, l[i]? ≠ r[i]? := by
    refine ⟨i, fun heq => hik (by rw [heq]), fun j hj => ?_⟩
    have hlt : j < l.length := by
      by_contra hge
      exact hj (by rw [List.getElem?_eq_none (by omega), List.getElem?_eq_none (by omega)])
    have hlt' : j < r.length := hlength ▸ hlt
    obtain ⟨m, hm⟩ : ∃ m : ℕ, l[j][m]? ≠ r[j][m]? := by
      by_contra! hall
      exact hj (by simpa [hlt, hlt'] using List.ext_getElem? hall)
    have heq := hunique (j, m) (by simpa [hlt, hlt'] using hm)
    exact congrArg Prod.fst heq
  obtain ⟨before, x, y, after, rfl, rfl, hxy⟩ := exists_split_of_existsUnique hlength houter
  have hrow (z : List α) (m : ℕ) : (before ++ z :: after)[before.length]?.bind (·[m]?) = z[m]? := by
    simp
  have hinner : ∃! m : ℕ, x[m]? ≠ y[m]? := by
    obtain ⟨m, hm⟩ : ∃ m : ℕ, x[m]? ≠ y[m]? := by
      by_contra! hall
      exact hxy (List.ext_getElem? hall)
    have hplace (m : ℕ) (hm : x[m]? ≠ y[m]?) : m = k :=
      congrArg Prod.snd (hunique (before.length, m) (by simpa only [hrow] using hm))
    exact ⟨m, hm, fun m' hm' => (hplace m' hm').trans (hplace m hm).symm⟩
  have hxlength : x.length = y.length := by simpa using h
  obtain ⟨front, a, b, back, rfl, rfl, hab⟩ := exists_split_of_existsUnique hxlength hinner
  exact ⟨before.flatten ++ front, a, b, back ++ after.flatten, by simp, by simp, hab⟩

/-- Where a number stands in a schema: the id of a message type, or the code of a field of it. -/
inductive Place where
  | id (message : ℕ)
  | code (message field : ℕ)

/-- The row and the column of a place in a table with a row for each message type, where the id
stands in front of the codes. -/
def Place.cell : Place → ℕ × ℕ
  | id i => (i, 0)
  | code i j => (i, j + 1)

theorem Place.cell_bijective : Function.Bijective Place.cell := by
  constructor
  · rintro (i | ⟨i, j⟩) (k | ⟨k, l⟩) h <;> simp_all [cell]
  · rintro ⟨i, _ | j⟩
    · exact ⟨id i, rfl⟩
    · exact ⟨code i j, rfl⟩

namespace Schema

/-- The number that stands at a place, if the schema has it. -/
def numberAt? (s : Schema) : Place → Option UInt8
  | .id i => s.messages[i]?.map Message.id
  | .code i j => (s.messages[i]?.bind (·.fields[j]?)).map (·.type.code)

/-- Of each message type the id and the codes. -/
def rows (s : Schema) : List Bytes := s.messages.map fun m => m.id :: m.format

theorem flatten_rows (s : Schema) : s.rows.flatten = s.signature := List.flatMap_def.symm

theorem numberAt?_eq (s : Schema) (p : Place) :
    s.numberAt? p = s.rows[p.cell.1]?.bind (·[p.cell.2]?) := by
  cases p with
  | id i => cases h : s.messages[i]? <;> simp [numberAt?, rows, Place.cell, h]
  | code i j => cases h : s.messages[i]? <;> simp [numberAt?, rows, Place.cell, Message.format, h]

/-- Schemas of one shape that differ in one number have different checksums. -/
theorem checksum_ne {s t : Schema}
    (hshape : s.messages.map (·.fields.length) = t.messages.map (·.fields.length))
    (hone : ∃! p, s.numberAt? p ≠ t.numberAt? p) : s.checksum ≠ t.checksum := by
  have hrows : s.rows.map List.length = t.rows.map List.length := by
    have hsucc := congrArg (List.map (· + 1)) hshape
    simpa [rows, Message.format, Function.comp_def] using hsucc
  have hcell : ∃! p : ℕ × ℕ, s.rows[p.1]?.bind (·[p.2]?) ≠ t.rows[p.1]?.bind (·[p.2]?) := by
    rw [Place.cell_bijective.existsUnique_iff]
    simpa only [numberAt?_eq] using hone
  obtain ⟨before, x, y, after, hs, ht, hxy⟩ := exists_split_flatten hrows hcell
  rw [flatten_rows] at hs ht
  rw [checksum, checksum, hs, ht]
  exact Checksum.smallDifference_of_byte.absorbAll_ne (by simp) (by simpa using hxy)
    Checksum.initial

end Schema

namespace Checksum

/-- Small differences are noticed. Two messages of one length that differ, within sixteen places, at
an odd number of places, or at two that are at most 32766 places apart, leave different registers,
whatever was in the register before. So two schemas with the same number of message types, and of
fields in each, that differ in the id or the code at exactly one place, have different checksums. -/
theorem ne_of_smallDifference :
    (∀ (crc : Checksum) (xs ys : Bytes), xs.length = ys.length → xs ≠ ys →
      SmallDifference (differences (messageBits xs) (messageBits ys)) →
        crc.absorbAll xs ≠ crc.absorbAll ys) ∧
      ∀ s t : Schema, s.messages.map (·.fields.length) = t.messages.map (·.fields.length) →
        (∃! p, s.numberAt? p ≠ t.numberAt? p) → s.checksum ≠ t.checksum :=
  ⟨fun crc _ _ hlength hne h => h.absorbAll_ne hlength hne crc, fun _ _ => Schema.checksum_ne⟩

/-- Two bits in different bytes, and the code of a field of the second message type. -/
theorem ne_of_smallDifference_two :
    let xs : Bytes := [0x81, 0x00, 0x00]
    let ys : Bytes := [0x80, 0x00, 0x20]
    let schema (t : WireType) : Schema :=
      ⟨[⟨"a", "A", 1, false, []⟩, ⟨"b", "B", 2, true, [⟨"x", .uint8⟩, ⟨"y", t⟩]⟩]⟩
    differences (messageBits xs) (messageBits ys) = {7, 18} ∧
      (∀ crc : Checksum, crc.absorbAll xs ≠ crc.absorbAll ys) ∧
        (∃! p, (schema .int8).numberAt? p ≠ (schema .int16).numberAt? p) ∧
          (schema .int8).checksum ≠ (schema .int16).checksum := by
  intro xs ys schema
  have hplaces : differences (messageBits xs) (messageBits ys) = {7, 18} := by decide +kernel
  have hone : ∃! p, (schema .int8).numberAt? p ≠ (schema .int16).numberAt? p := by
    refine ⟨.code 1 1, by decide, ?_⟩
    rintro ((_ | _ | i) | ⟨_ | _ | i, _ | _ | j⟩) hp <;> first | rfl | exact absurd rfl hp
  exact ⟨hplaces, fun crc => ne_of_smallDifference.1 crc xs ys rfl (by decide)
    (.two (by decide) (by decide) hplaces), hone, ne_of_smallDifference.2 _ _ rfl hone⟩

end Checksum

end Telemetry
