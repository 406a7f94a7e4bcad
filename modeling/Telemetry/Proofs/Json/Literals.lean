import Telemetry.Proofs.Binary64.Decimal
import Telemetry.Proofs.Json.Integers

/-!
# Numbers of any size

A number comes to the same wherever it stands in a text: it has a value, or it is out of range
(`IsNumber.exists_outcome`). The value is an integer only if the number is a numeral of 64 bits
(`readNumber_cases`). Longer numerals are doubles that are too large for 64 bits, and have a value
at least up to 308 digits (`readNumber_of_isWhole`).
-/

namespace Telemetry.Json

variable {s ds w r rest : Bytes} {x y : Numeral} {n : Number}

/-! ### Signs -/

theorem negative_of_readInteger {negative : Bool} (h : readInteger negative s = .ok (x, r)) :
    x.negative = negative := by
  unfold readInteger at h
  split at h
  · cases h
  · split at h
    · split at h <;> cases h
      rfl
    · split at h <;> cases h
      rfl

theorem negative_of_readFraction (h : readFraction x s = .ok (y, r)) :
    y.negative = x.negative := by
  unfold readFraction at h
  split at h
  · cases h
    rfl
  · split at h
    · cases h
      rfl
    · split at h
      · cases h
        rfl
      · split at h <;> cases h

theorem negative_of_readExponent (h : readExponent x s = .ok (y, r)) :
    y.negative = x.negative := by
  unfold readExponent at h
  split at h
  · cases h
    rfl
  · split at h
    · cases h
      rfl
    · dsimp only at h
      split at h
      · cases h
      · split at h
        · cases h
        · split at h
          · split at h <;> cases h
            rfl
          · cases h
            rfl

/-- A numeral is negative exactly if it begins with a minus. -/
theorem negative_of_readNumeral (h : readNumeral s = .ok (x, r)) :
    x.negative = true ↔ s.head? = some Byte.minus := by
  have hparts {negative : Bool} {s : Bytes}
      (h : (do
        let whole ← readInteger negative s
        let fraction ← readFraction whole.1 whole.2
        readExponent fraction.1 fraction.2) = .ok (x, r)) : x.negative = negative := by
    obtain ⟨_, hinteger, h⟩ := bind_eq_ok_iff.mp h
    obtain ⟨_, hfraction, hexponent⟩ := bind_eq_ok_iff.mp h
    rw [negative_of_readExponent hexponent, negative_of_readFraction hfraction,
      negative_of_readInteger hinteger]
  unfold readNumeral at h
  split at h
  · cases h
  · next b s =>
    split at h
    · next hb => simp [hparts h, hb]
    · next hb => simp [hparts h, hb]

/-- A number that is read is an integer that is written as its numeral, or a double with its sign.
-/
theorem readNumber_cases (h : readNumber w = .ok (n, [])) :
    (∃ i, n = .integer i ∧ SpellsInteger i w) ∨
      ∃ z, n = .double (w.head? = some Byte.minus) z := by
  cases n with
  | integer i =>
    obtain ⟨t, ht, hw⟩ := between_of_readNumber h
    rw [List.append_nil] at hw
    exact .inl ⟨i, rfl, hw ▸ ht⟩
  | double negative z =>
    obtain ⟨⟨x, u⟩, hnumeral, h⟩ := bind_eq_ok_iff.mp h
    dsimp only at h
    split at h
    · next m hm =>
      cases h
      have hnegative : negative = x.negative := by
        unfold Numeral.number? at hm
        split at hm
        · split at hm
          · cases hm
          · next hx =>
            split at hm
            · cases hm
            · obtain ⟨_, -, hm⟩ := Option.map_eq_some_iff.mp hm
              cases hm
              simpa using hx
        · obtain ⟨_, -, hm⟩ := Option.map_eq_some_iff.mp hm
          cases hm
          rfl
      have hminus : x.negative = decide (w.head? = some Byte.minus) := by
        rw [Bool.eq_iff_iff, negative_of_readNumeral hnumeral, decide_eq_true_eq]
      exact .inr ⟨z, by rw [hnegative, hminus]⟩
    · cases h

/-! ### Numbers in a text -/

/-- What may follow a number in front of its exponent. -/
def EndsDigits (rest : Bytes) : Prop :=
  ∀ b ∈ rest.head?, Byte.isDigit b = false ∧ b ≠ Byte.point

theorem EndsDigits.startsWithDigit (h : EndsDigits rest) : startsWithDigit rest = false :=
  startsWithDigit_of_head? fun b hb => (h b hb).1

theorem exists_readFraction (hs : IsFraction s) (x : Numeral) :
    ∃ y, ∀ rest, EndsDigits rest → readFraction x (s ++ rest) = .ok (y, rest) := by
  cases hs with
  | none =>
    refine ⟨x, fun rest hrest => ?_⟩
    cases rest with
    | nil => rfl
    | cons b r => simp [readFraction, (hrest b rfl).2]
  | @digits ds hds =>
    obtain ⟨hne, hdigits⟩ := hds
    obtain ⟨taken, left, hsplit, -, -, htake⟩ :=
      takeDigits_cases greatestSignificand hdigits x.significand
    refine ⟨⟨x.negative, valueFrom x.significand taken, x.exponent - (taken.length : Int), false⟩,
      fun rest hrest => ?_⟩
    have hskip : skipDigits (left ++ rest) = rest := by
      rw [hsplit] at hdigits
      exact skipDigits_append (List.forall_mem_append.mp hdigits).2 hrest.startsWithDigit
    have hfirst : startsWithDigit (ds ++ rest) = true := by
      obtain ⟨b, ds, rfl⟩ := List.exists_cons_of_ne_nil hne
      exact hdigits b List.mem_cons_self
    have hlength : (ds ++ rest).length - (left ++ rest).length = taken.length := by
      simp only [hsplit, List.length_append]
      omega
    rw [List.cons_append, readFraction.eq_def]
    simp only [ne_eq, not_true_eq_false, if_false, hfirst, if_true,
      htake rest hrest.startsWithDigit, hlength, hskip]

/-- The sign of an exponent is read off in front of the digits. -/
theorem exists_readExponentSign {sign : Bytes} (hsign : sign ∈ [[], [Byte.plus], [Byte.minus]])
    (hds : IsDigits ds) :
    ∃ down, ∀ rest, readExponentSign (sign ++ (ds ++ rest)) = (down, ds ++ rest) := by
  obtain ⟨b, ds, rfl⟩ := List.exists_cons_of_ne_nil hds.1
  have hb := hds.2 b List.mem_cons_self
  have hplus : b ≠ Byte.plus := by
    rintro rfl
    exact absurd hb (by decide)
  have hminus := ne_minus_of_isDigit hb
  simp only [List.mem_cons, List.not_mem_nil, or_false] at hsign
  obtain rfl | rfl | rfl := hsign
  · exact ⟨false, fun rest => by simp [readExponentSign, hplus, hminus]⟩
  · exact ⟨false, fun rest => rfl⟩
  · exact ⟨true, fun rest => rfl⟩

theorem exists_readExponent (hs : IsExponent s) (x : Numeral) :
    ∃ outcome : Except Cause Numeral,
      (outcome = .error .numberOutOfRange ∨ ∃ y, outcome = .ok y) ∧
        ∀ rest, Follows rest → Yields outcome (readExponent x (s ++ rest)) rest := by
  cases hs with
  | none => exact ⟨.ok x, .inr ⟨x, rfl⟩, fun rest hrest => readExponent_of_follows x hrest⟩
  | @digits mark sign ds hmark hsign hds =>
    have hall : ∀ b ∈ ascii "eE", isExponentMark b = true := by decide +kernel
    have hmark' := hall mark hmark
    obtain ⟨down, hdown⟩ := exists_readExponentSign hsign hds
    obtain ⟨hne, hdigits⟩ := hds
    obtain ⟨taken, left, hsplit, -, -, htake⟩ := takeDigits_cases greatestExponent hdigits 0
    -- what is read if all digits have been taken
    let y : Numeral := ⟨x.negative, x.significand,
      x.exponent + if down then -(valueFrom 0 taken : Int) else valueFrom 0 taken, false⟩
    have hread (rest : Bytes) (hrest : Follows rest) :
        readExponent x (mark :: (sign ++ ds) ++ rest) =
          if startsWithDigit (left ++ rest) then
            if x.significand ≠ 0 ∧ !down then
              .error (.here .numberOutOfRange ((left ++ rest).drop 1))
            else .ok (⟨x.negative, 0, 0, false⟩, skipDigits (left ++ rest))
          else .ok (y, left ++ rest) := by
      have htake := htake rest hrest.startsWithDigit
      have hdown := hdown rest
      obtain ⟨b, ds, rfl⟩ := List.exists_cons_of_ne_nil hne
      have hb := hdigits b List.mem_cons_self
      rw [List.cons_append] at htake hdown
      rw [List.cons_append, List.append_assoc, List.cons_append, readExponent, hmark', hdown]
      simp only [hb, htake, Bool.not_true, Bool.false_eq_true, if_false]
      rfl
    rw [hsplit] at hdigits
    obtain ⟨-, hleft⟩ := List.forall_mem_append.mp hdigits
    by_cases hnil : left = []
    · refine ⟨.ok y, .inr ⟨y, rfl⟩, fun rest hrest => ?_⟩
      rw [hread rest hrest, hnil, List.nil_append, hrest.startsWithDigit]
      rfl
    · have hmore (rest : Bytes) : startsWithDigit (left ++ rest) = true := by
        obtain ⟨b, left, rfl⟩ := List.exists_cons_of_ne_nil hnil
        exact hleft b List.mem_cons_self
      by_cases hrange : x.significand ≠ 0 ∧ (!down) = true
      · refine ⟨.error .numberOutOfRange, .inl rfl, fun rest hrest => ?_⟩
        rw [hread rest hrest, hmore, if_pos rfl, if_pos hrange]
        exact ⟨_, rfl, rfl⟩
      · refine ⟨.ok ⟨x.negative, 0, 0, false⟩, .inr ⟨_, rfl⟩, fun rest hrest => ?_⟩
        rw [hread rest hrest, hmore, if_pos rfl, if_neg hrange,
          skipDigits_append hleft hrest.startsWithDigit]
        rfl

/-- A numeral comes to the same wherever it stands. -/
theorem IsNumber.exists_numeral (h : IsNumber w) :
    ∃ outcome : Except Cause Numeral,
      (outcome = .error .numberOutOfRange ∨ ∃ x, outcome = .ok x) ∧
        ∀ rest, Follows rest → Yields outcome (readNumeral (w ++ rest)) rest := by
  cases h with
  | @parts sign whole fraction exponent hsign hwhole hfraction hexponent =>
    obtain ⟨taken, left, -, -, -, -, hinteger⟩ :=
      readInteger_of_isWhole (sign = [Byte.minus]) hwhole
    obtain ⟨y, hy⟩ := exists_readFraction hfraction
      ⟨sign = [Byte.minus], valueFrom 0 taken, left.length, left.length = 0⟩
    obtain ⟨outcome, hcause, hyields⟩ := exists_readExponent hexponent y
    refine ⟨outcome, hcause, fun rest hrest => ?_⟩
    have hends : EndsDigits (exponent ++ rest) := head?_of_isExponent hexponent hrest
    have hdigit : startsWithDigit (fraction ++ (exponent ++ rest)) = false := by
      cases hfraction with
      | none => exact hends.startsWithDigit
      | digits _ => rfl
    have hread : readNumeral (sign ++ (whole ++ (fraction ++ exponent)) ++ rest) =
        readExponent y (exponent ++ rest) := by
      have hinteger := hinteger _ hdigit
      have hfraction := hy _ hends
      obtain ⟨b, r, rfl, hb⟩ := hwhole.exists_cons
      have hminus := ne_minus_of_isDigit hb
      simp only [List.append_assoc]
      rw [List.cons_append] at hinteger
      simp only [List.mem_cons, List.not_mem_nil, or_false] at hsign
      obtain rfl | rfl := hsign <;>
        simp_all [readNumeral, bind, Except.bind]
    rw [hread]
    exact hyields rest hrest

/-- A number comes to the same wherever it stands: to a value, or it is out of range. -/
theorem IsNumber.exists_outcome (h : IsNumber w) :
    ∃ outcome : Except Cause Number,
      (outcome = .error .numberOutOfRange ∨ ∃ n, outcome = .ok n) ∧
        ∀ rest, Follows rest → Yields outcome (readNumber (w ++ rest)) rest := by
  obtain ⟨outcome, hcause, hyields⟩ := h.exists_numeral
  obtain rfl | ⟨x, rfl⟩ := hcause
  · refine ⟨.error .numberOutOfRange, .inl rfl, fun rest hrest => ?_⟩
    obtain ⟨fault, hfault, hcause⟩ := hyields rest hrest
    exact ⟨fault, by rw [readNumber, hfault]; rfl, hcause⟩
  · have hnumeral (rest : Bytes) (hrest : Follows rest) :
        readNumeral (w ++ rest) = .ok (x, rest) := hyields rest hrest
    cases hx : x.number? with
    | none =>
      refine ⟨.error .numberOutOfRange, .inl rfl, fun rest hrest => ?_⟩
      rw [readNumber, hnumeral rest hrest]
      simp only [bind, Except.bind, hx]
      exact ⟨_, rfl, rfl⟩
    | some n =>
      refine ⟨.ok n, .inr ⟨n, rfl⟩, fun rest hrest => ?_⟩
      rw [readNumber, hnumeral rest hrest]
      simp only [bind, Except.bind, hx]
      rfl

/-! ### Whole numbers -/

theorem valueFrom_lt (hds : ∀ d ∈ ds, Byte.isDigit d = true) : valueFrom 0 ds < 10 ^ ds.length := by
  induction ds using List.reverseRecOn with
  | nil => decide
  | append_singleton ds d ih =>
    obtain ⟨hds, hd⟩ := List.forall_mem_append.mp hds
    have hlt := digit_lt (hd d (by simp))
    have hvalue := ih hds
    rw [valueFrom_concat, List.length_append, List.length_singleton, Nat.pow_succ]
    omega

/-- Digits in a row are a whole number if they are a number at all. -/
theorem IsNumber.isWhole (h : IsNumber w) (hw : ∀ b ∈ w, Byte.isDigit b = true) : IsWhole w := by
  cases h with
  | @parts sign whole fraction exponent hsign hwhole hfraction hexponent =>
    simp only [List.forall_mem_append] at hw
    obtain ⟨hsign', -, hfraction', hexponent'⟩ := hw
    have hsign : sign = [] := by
      simp only [List.mem_cons, List.not_mem_nil, or_false] at hsign
      refine hsign.resolve_right ?_
      rintro rfl
      exact absurd (hsign' Byte.minus List.mem_cons_self) (by decide)
    have hfraction : fraction = [] := by
      cases hfraction with
      | none => rfl
      | digits _ => exact absurd (hfraction' Byte.point List.mem_cons_self) (by decide)
    have hexponent : exponent = [] := by
      cases hexponent with
      | none => rfl
      | @digits mark _ _ hmark _ _ =>
        have hdigit := hexponent' mark List.mem_cons_self
        have hnone : ∀ b ∈ ascii "eE", Byte.isDigit b = false := by decide +kernel
        rw [hnone mark hmark] at hdigit
        cases hdigit
    simpa [hsign, hfraction, hexponent] using hwhole

/-- Of digits that make up too much for 64 bits, as many are taken as fit. They are a significand,
and the others count as zeros. -/
theorem readNumeral_of_large (hw : IsWhole w) (hv : 2 ^ 64 ≤ valueFrom 0 w) :
    ∃ m digits k : Nat, readNumeral w = .ok (⟨false, m, k, false⟩, []) ∧
      1844674407370955161 ≤ m ∧ m < 10 ^ digits ∧ 1 ≤ k ∧ digits + k = w.length := by
  have hgreatest : greatestSignificand = 2 ^ 64 - 1 := by decide
  obtain ⟨taken, left, rfl, -, hle, hleft, hread⟩ := readInteger_of_isWhole false hw
  obtain ⟨htaken, hleftDigits⟩ := List.forall_mem_append.mp hw.isDigit
  have hne : left ≠ [] := by
    rintro rfl
    rw [List.append_nil] at hv
    omega
  obtain ⟨d, left, rfl⟩ := List.exists_cons_of_ne_nil hne
  refine ⟨valueFrom 0 taken, taken.length, left.length + 1, ?_, ?_, valueFrom_lt htaken,
    Nat.succ_pos _, by simp⟩
  · have hread := hread [] rfl
    obtain ⟨b, r, heq, hb⟩ := hw.exists_cons
    have hminus := ne_minus_of_isDigit hb
    rw [List.append_nil, heq] at hread
    rw [heq, readNumeral]
    simp [hminus, hread, bind, Except.bind, readFraction, readExponent]
  · have hd := digit_lt (hleftDigits d List.mem_cons_self)
    have hnext := hleft d rfl
    omega

/-- A whole number is read as an integer if that has 64 bits. Otherwise it is read as a double that
is too large for 64 bits, if there is one, and there is one for up to 308 digits. -/
theorem readNumber_of_isWhole (hw : IsWhole w) :
    (valueFrom 0 w < 2 ^ 64 → readNumber w = .ok (.integer (valueFrom 0 w), [])) ∧
      (2 ^ 64 ≤ valueFrom 0 w →
        (∀ n, readNumber w = .ok (n, []) → ∃ z, n = .double false z ∧ 2 ^ 64 ≤ z.value) ∧
          (w.length ≤ 308 → ∃ n, readNumber w = .ok (n, []))) := by
  constructor
  · intro hlt
    have hspells : SpellsInteger (valueFrom 0 w) w := ⟨by omega, by omega, hw.eq_ascii⟩
    have hfollows : Follows [] := by simp [Follows]
    simpa using readNumber_of_spells hspells hfollows
  · intro hge
    obtain ⟨m, digits, k, hnumeral, hm, hdigits, hk, hsum⟩ := readNumeral_of_large hw hge
    have hnumber (n : Number) : readNumber w = .ok (n, []) ↔
        ∃ z, Binary64.ofDecimal? m k = some z ∧ n = .double false z := by
      rw [readNumber, hnumeral]
      simp only [bind, Except.bind, Numeral.number?, Bool.false_eq_true, if_false]
      cases Binary64.ofDecimal? m k <;> simp [eq_comm]
    constructor
    · intro n hn
      obtain ⟨z, hz, rfl⟩ := (hnumber n).mp hn
      exact ⟨z, rfl, Binary64.le_of_ofDecimal? hm hk hz⟩
    · intro hlength
      have hpower : digits + k ≤ Binary64.greatestPower := hsum ▸ hlength
      obtain ⟨z, hz⟩ := Binary64.exists_ofDecimal? (by omega) hdigits hpower
      exact ⟨.double false z, (hnumber _).mpr ⟨z, hz, rfl⟩⟩

end Telemetry.Json
