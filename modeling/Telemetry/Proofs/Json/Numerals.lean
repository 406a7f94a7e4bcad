import Telemetry.Json.Numerals
import Telemetry.Proofs.Basic
import Telemetry.Proofs.Json.Spelling

/-!
# Reading numbers

Integers of 64 bits are read back from their decimal numerals (`readNumber_of_spells`), and numbers
that nobody asks for are passed over, of whatever size (`skipNumeral_of_isNumber`). A number ends
where something stands that can follow a value (`Follows`).
-/

namespace Telemetry.Json

variable {s ds rest : Bytes} {n : Nat}

/-- What can stand behind a value: nothing, a blank, a comma or a closing bracket. -/
def Follows (rest : Bytes) : Prop :=
  ∀ b ∈ rest.head?, b ∈ [Byte.space, Byte.tab, Byte.lineFeed, Byte.carriageReturn, Byte.comma,
    Byte.closeList, Byte.closeObject]

/-- What follows a value does not continue a number. -/
theorem Follows.cases (h : Follows rest) : rest = [] ∨ ∃ b r, rest = b :: r ∧
    Byte.isDigit b = false ∧ b ≠ Byte.point ∧ isExponentMark b = false := by
  cases rest with
  | nil => exact .inl rfl
  | cons b r =>
    have hall : ∀ b ∈ [Byte.space, Byte.tab, Byte.lineFeed, Byte.carriageReturn, Byte.comma,
        Byte.closeList, Byte.closeObject],
        Byte.isDigit b = false ∧ b ≠ Byte.point ∧ isExponentMark b = false := by
      decide +kernel
    exact .inr ⟨b, r, rfl, hall b (h b rfl)⟩

theorem Follows.startsWithDigit (h : Follows rest) : startsWithDigit rest = false := by
  obtain rfl | ⟨b, r, rfl, hdigit, -, -⟩ := h.cases
  · rfl
  · exact hdigit

/-! ### Digits -/

/-- The number that digits continue. -/
def valueFrom (n : Nat) (ds : Bytes) : Nat := ds.foldl (fun n b => n * 10 + Byte.digit b) n

theorem le_valueFrom (n : Nat) (ds : Bytes) : n ≤ valueFrom n ds := by
  induction ds generalizing n with
  | nil => exact Nat.le_refl n
  | cons b ds ih => exact Nat.le_trans (by omega) (ih (n * 10 + Byte.digit b))

/-- Digits that stay within the limit are all taken. -/
theorem takeDigits_append {limit : Nat} (hds : ∀ b ∈ ds, Byte.isDigit b = true)
    (hlimit : valueFrom n ds ≤ limit) (hrest : startsWithDigit rest = false) :
    takeDigits limit n (ds ++ rest) = (valueFrom n ds, rest) := by
  induction ds generalizing n with
  | nil =>
    cases rest with
    | nil => rfl
    | cons b r =>
      rw [List.nil_append, takeDigits, if_neg]
      · rfl
      · simp_all [startsWithDigit]
  | cons b ds ih =>
    obtain ⟨hb, hds⟩ := List.forall_mem_cons.mp hds
    have hle := Nat.le_trans (le_valueFrom (n * 10 + Byte.digit b) ds) hlimit
    rw [List.cons_append, takeDigits, if_pos ⟨hb, hle⟩]
    exact ih hds hlimit

theorem skipDigits_of_startsWithDigit (h : startsWithDigit rest = false) :
    skipDigits rest = rest := by
  cases rest with
  | nil => rfl
  | cons b r => exact List.dropWhile_cons_of_neg (by simpa [startsWithDigit] using h)

theorem skipDigits_append (hds : ∀ b ∈ ds, Byte.isDigit b = true)
    (hrest : startsWithDigit rest = false) : skipDigits (ds ++ rest) = rest := by
  rw [skipDigits, List.dropWhile_append_of_pos hds]
  exact skipDigits_of_startsWithDigit hrest

/-- The digit of a character has the byte and the value that it should have. -/
theorem digit_ofAscii {c : Char} (h : c.isDigit = true) :
    Byte.isDigit (Byte.ofAscii c) = true ∧ Byte.digit (Byte.ofAscii c) = c.toNat - 48 ∧
      (Byte.ofAscii c = Byte.zero → c = '0') := by
  have hrange : 48 ≤ c.toNat ∧ c.toNat ≤ 57 := by
    simpa [Char.isDigit, Char.le_def, UInt32.le_iff_toNat_le] using h
  have hbyte : (Byte.ofAscii c).toNat = c.toNat := by
    simp only [Byte.ofAscii, Nat.toUInt8, UInt8.toNat_ofNat']
    omega
  refine ⟨?_, ?_, fun hzero => ?_⟩
  · simp only [Byte.isDigit, Bool.and_eq_true, decide_eq_true_eq, UInt8.le_iff_toNat_le, hbyte]
    exact hrange
  · rw [Byte.digit, hbyte]
  · rw [hzero] at hbyte
    exact Char.toNat_inj.mp hbyte.symm

/-- Characters and bytes make up the same number. -/
theorem valueFrom_map_ofAscii (cs : List Char) (h : ∀ c ∈ cs, c.isDigit = true) (n : Nat) :
    valueFrom n (cs.map Byte.ofAscii) = Nat.ofDigitChars 10 cs n := by
  induction cs generalizing n with
  | nil => rfl
  | cons c cs ih =>
    obtain ⟨hc, hcs⟩ := List.forall_mem_cons.mp h
    rw [Nat.ofDigitChars_cons, ← ih hcs, List.map_cons, valueFrom, List.foldl_cons,
      (digit_ofAscii hc).2.1, Nat.mul_comm]
    rfl

/-- A decimal numeral is digits that make up the number, with no zero in front. -/
theorem exists_decimal (n : Nat) : ∃ b ds, ascii (toString n) = b :: ds ∧
    (∀ d ∈ b :: ds, Byte.isDigit d = true) ∧ valueFrom 0 (b :: ds) = n ∧
      (b = Byte.zero → n = 0 ∧ ds = []) := by
  have hlist : (toString n).toList = Nat.toDigits 10 n := Nat.toList_repr
  have hdigit : ∀ c ∈ Nat.toDigits 10 n, c.isDigit = true := fun c hc =>
    Nat.isDigit_of_mem_toDigits (by decide) (by decide) hc
  have hvalue : valueFrom 0 ((Nat.toDigits 10 n).map Byte.ofAscii) = n := by
    rw [valueFrom_map_ofAscii _ hdigit]
    exact Nat.ofDigitChars_toDigits (by decide) (by decide)
  obtain ⟨c, cs, hcs⟩ := List.exists_cons_of_ne_nil (Nat.toDigits_ne_nil (b := 10) (n := n))
  rw [hcs] at hdigit hvalue
  refine ⟨Byte.ofAscii c, cs.map Byte.ofAscii, by rw [ascii, hlist, hcs]; rfl, ?_, hvalue,
    fun hzero => ?_⟩
  · exact List.forall_mem_map.mpr fun c hc => (digit_ofAscii (hdigit c hc)).1
  · have hc := (digit_ofAscii (hdigit c List.mem_cons_self)).2.2 hzero
    -- only zero itself begins with a zero
    obtain rfl | hpos := Nat.eq_zero_or_pos n
    · cases hcs
      exact ⟨rfl, rfl⟩
    · refine absurd ?_ (head?_toDigits_ne hpos)
      rw [hcs, hc]
      rfl

/-- A digit is no minus. -/
theorem ne_minus_of_isDigit {b : UInt8} (h : Byte.isDigit b = true) : b ≠ Byte.minus := by
  rintro rfl
  exact absurd h (by decide)

/-- A negative integer is a minus and a numeral. -/
theorem ascii_toString_negSucc (m : Nat) :
    ascii (toString (Int.negSucc m)) = Byte.minus :: ascii (toString (m + 1)) := by
  change ascii ("-" ++ toString (m + 1)) = _
  rw [ascii, String.toList_append, List.map_append]
  rfl

/-! ### Integers that are read -/

theorem readInteger_decimal (negative : Bool) {n : Nat} (hn : n ≤ greatestSignificand)
    (hrest : startsWithDigit rest = false) :
    readInteger negative (ascii (toString n) ++ rest) = .ok (⟨negative, n, 0, true⟩, rest) := by
  obtain ⟨b, ds, heq, hdigits, hvalue, hzero⟩ := exists_decimal n
  obtain ⟨hb, hds⟩ := List.forall_mem_cons.mp hdigits
  rw [heq, List.cons_append, readInteger]
  by_cases hb0 : b = Byte.zero
  · obtain ⟨rfl, rfl⟩ := hzero hb0
    simp [hb0, hrest]
  · have hfrom : valueFrom (Byte.digit b) ds = n := by
      rw [← hvalue, valueFrom, valueFrom, List.foldl_cons, Nat.zero_mul, Nat.zero_add]
    rw [if_neg hb0, if_pos hb, takeDigits_append hds (hfrom ▸ hn) hrest]
    simp only [skipDigits_of_startsWithDigit hrest, hfrom, Nat.sub_self]
    rfl

theorem readFraction_of_follows (x : Numeral) (h : Follows rest) :
    readFraction x rest = .ok (x, rest) := by
  obtain rfl | ⟨b, r, rfl, -, hpoint, -⟩ := h.cases
  · rfl
  · simp [readFraction, hpoint]

theorem readExponent_of_follows (x : Numeral) (h : Follows rest) :
    readExponent x rest = .ok (x, rest) := by
  obtain rfl | ⟨b, r, rfl, -, -, hmark⟩ := h.cases
  · rfl
  · simp [readExponent, hmark]

/-- A whole number is read as a numeral, with its sign. -/
theorem readNumeral_decimal {n : Nat} (hn : n ≤ greatestSignificand) (hrest : Follows rest) :
    readNumeral (ascii (toString n) ++ rest) = .ok (⟨false, n, 0, true⟩, rest) ∧
      readNumeral (Byte.minus :: (ascii (toString n) ++ rest)) =
        .ok (⟨true, n, 0, true⟩, rest) := by
  have hread (negative : Bool) := readInteger_decimal negative hn hrest.startsWithDigit
  obtain ⟨b, ds, heq, hdigits, -, -⟩ := exists_decimal n
  have hminus := ne_minus_of_isDigit (hdigits b List.mem_cons_self)
  rw [heq, List.cons_append] at hread ⊢
  simp [readNumeral, hminus, hread, readFraction_of_follows _ hrest,
    readExponent_of_follows _ hrest, bind, Except.bind]

theorem SpellsInteger.exists_cons {n : Int} (h : SpellsInteger n s) :
    ∃ b r, s = b :: r ∧ (b = Byte.minus ∨ Byte.isDigit b = true) := by
  obtain ⟨-, -, rfl⟩ := h
  cases n with
  | ofNat m =>
    obtain ⟨b, ds, heq, hdigits, -, -⟩ := exists_decimal m
    exact ⟨b, ds, heq, .inr (hdigits b List.mem_cons_self)⟩
  | negSucc m => exact ⟨_, _, ascii_toString_negSucc m, .inl rfl⟩

/-- An integer of 64 bits is read back from its numeral. -/
theorem readNumber_of_spells {n : Int} (h : SpellsInteger n s) (hrest : Follows rest) :
    readNumber (s ++ rest) = .ok (.integer n, rest) := by
  obtain ⟨hlow, hhigh, rfl⟩ := h
  have hgreatest : greatestSignificand = 2 ^ 64 - 1 := by decide
  have hsmallest : 1 <<< 63 = 2 ^ 63 := by decide
  cases n with
  | ofNat m =>
    have hm : m ≤ greatestSignificand := by
      rw [hgreatest]
      simp only [Int.ofNat_eq_natCast] at hhigh
      omega
    have htext : toString (Int.ofNat m) = toString m := rfl
    rw [htext, readNumber, (readNumeral_decimal hm hrest).1]
    rfl
  | negSucc m =>
    have hm : m + 1 ≤ 2 ^ 63 := by omega
    have hnumber : (Numeral.mk true (m + 1) 0 true).number? = some (.integer (Int.negSucc m)) := by
      rw [Numeral.number?, if_pos rfl, if_neg (by simp), if_pos ⟨Nat.succ_pos m, hsmallest ▸ hm⟩]
      rfl
    rw [ascii_toString_negSucc, List.cons_append, readNumber,
      (readNumeral_decimal (by omega) hrest).2]
    simp only [bind, Except.bind, hnumber]

/-! ### Numbers that are passed over -/

theorem skipSomeDigits_append (hds : IsDigits ds) (hrest : startsWithDigit rest = false) :
    skipSomeDigits (ds ++ rest) = .ok rest := by
  obtain ⟨hne, hdigits⟩ := hds
  obtain ⟨b, ds, rfl⟩ := List.exists_cons_of_ne_nil hne
  obtain ⟨hb, hdigits⟩ := List.forall_mem_cons.mp hdigits
  rw [List.cons_append, skipSomeDigits, if_pos hb, skipDigits_append hdigits hrest]

theorem IsWhole.exists_cons (h : IsWhole s) : ∃ b r, s = b :: r ∧ Byte.isDigit b = true := by
  cases h with
  | zero => exact ⟨Byte.zero, [], rfl, by decide⟩
  | digits hds _ =>
    obtain ⟨b, r, rfl⟩ := List.exists_cons_of_ne_nil hds.1
    exact ⟨b, r, rfl, hds.2 b List.mem_cons_self⟩

theorem skipInteger_of_isWhole (h : IsWhole s) (hrest : startsWithDigit rest = false) :
    skipInteger (s ++ rest) = .ok rest := by
  cases h with
  | zero => simp [skipInteger, hrest]
  | digits hds hhead =>
    obtain ⟨b, ds, rfl⟩ := List.exists_cons_of_ne_nil hds.1
    have hb : b ≠ Byte.zero := fun heq => hhead (by rw [heq]; rfl)
    have hskip := skipSomeDigits_append hds hrest
    rw [List.cons_append] at hskip ⊢
    rw [skipInteger, if_neg hb, hskip]

/-- Neither an exponent nor what follows a value continues digits or begins a fraction. -/
theorem head?_of_isExponent (h : IsExponent s) (hrest : Follows rest) :
    ∀ b ∈ (s ++ rest).head?, Byte.isDigit b = false ∧ b ≠ Byte.point := by
  intro b hb
  cases h with
  | none =>
    rcases hrest.cases with rfl | ⟨b', r, rfl, hdigit, hpoint, -⟩
    · cases hb
    · cases hb
      exact ⟨hdigit, hpoint⟩
  | digits hmark _ _ =>
    have hall : ∀ b ∈ ascii "eE", Byte.isDigit b = false ∧ b ≠ Byte.point := by decide +kernel
    cases hb
    exact hall _ hmark

theorem startsWithDigit_of_head? (h : ∀ b ∈ rest.head?, Byte.isDigit b = false) :
    startsWithDigit rest = false := by
  cases rest with
  | nil => rfl
  | cons b r => exact h b rfl

theorem skipFraction_of_isFraction (h : IsFraction s)
    (hrest : ∀ b ∈ rest.head?, Byte.isDigit b = false ∧ b ≠ Byte.point) :
    skipFraction (s ++ rest) = .ok rest := by
  cases h with
  | none =>
    cases rest with
    | nil => rfl
    | cons b r => simp [skipFraction, (hrest b rfl).2]
  | digits hds =>
    obtain ⟨hne, hdigits⟩ := hds
    have hdigit := startsWithDigit_of_head? fun b hb => (hrest b hb).1
    have hskip := skipDigits_append hdigits hdigit
    obtain ⟨b, ds, rfl⟩ := List.exists_cons_of_ne_nil hne
    have hb := hdigits b List.mem_cons_self
    rw [List.cons_append] at hskip
    simp [skipFraction, startsWithDigit, hb, hskip]

theorem skipExponent_of_isExponent (h : IsExponent s) (hrest : Follows rest) :
    skipExponent (s ++ rest) = .ok rest := by
  cases h with
  | none =>
    rcases hrest.cases with rfl | ⟨b, r, rfl, -, -, hmark⟩
    · rfl
    · simp [skipExponent, hmark]
  | @digits mark sign ds hmark hsign hds =>
    have hall : ∀ b ∈ ascii "eE", isExponentMark b = true := by decide +kernel
    have hskip := skipSomeDigits_append hds hrest.startsWithDigit
    have hreadSign : (readExponentSign (sign ++ (ds ++ rest))).2 = ds ++ rest := by
      simp only [List.mem_cons, List.not_mem_nil, or_false] at hsign
      rcases hsign with rfl | rfl | rfl
      · obtain ⟨b, ds, rfl⟩ := List.exists_cons_of_ne_nil hds.1
        have hb := hds.2 b List.mem_cons_self
        have hplus : b ≠ Byte.plus := by
          rintro rfl
          exact absurd hb (by decide)
        have hminus := ne_minus_of_isDigit hb
        simp [readExponentSign, hplus, hminus]
      · rfl
      · rfl
    rw [List.cons_append, List.append_assoc, skipExponent, if_pos (hall mark hmark), hreadSign,
      hskip]

theorem IsNumber.exists_cons (h : IsNumber s) :
    ∃ b r, s = b :: r ∧ (b = Byte.minus ∨ Byte.isDigit b = true) := by
  cases h with
  | parts hsign hwhole _ _ =>
    obtain ⟨b, r, rfl, hb⟩ := hwhole.exists_cons
    simp only [List.mem_cons, List.not_mem_nil, or_false] at hsign
    rcases hsign with rfl | rfl
    · exact ⟨b, _, rfl, .inr hb⟩
    · exact ⟨_, _, rfl, .inl rfl⟩

/-- A number is passed over, whatever its size. -/
theorem skipNumeral_of_isNumber (h : IsNumber s) (hrest : Follows rest) :
    skipNumeral (s ++ rest) = .ok rest := by
  cases h with
  | @parts sign whole fraction exponent hsign hwhole hfraction hexponent =>
    have hhead := head?_of_isExponent hexponent hrest
    have hfractionSkip := skipFraction_of_isFraction hfraction hhead
    have hdigit : startsWithDigit (fraction ++ (exponent ++ rest)) = false := by
      cases hfraction with
      | none => exact startsWithDigit_of_head? fun b hb => (hhead b hb).1
      | digits _ => rfl
    have hskip := skipInteger_of_isWhole hwhole hdigit
    obtain ⟨b, r, rfl, hb⟩ := hwhole.exists_cons
    have hminus := ne_minus_of_isDigit hb
    have hexponentSkip := skipExponent_of_isExponent hexponent hrest
    simp only [List.append_assoc]
    simp only [List.mem_cons, List.not_mem_nil, or_false] at hsign
    rw [List.cons_append] at hskip
    rcases hsign with rfl | rfl <;>
      simp [skipNumeral, hminus, hskip, hfractionSkip, hexponentSkip, bind, Except.bind]

end Telemetry.Json
