import Telemetry.Proofs.Json.Grammar

/-!
# How integers are written

The converse of reading integers back from their numerals: a number that is read as an integer is
written as its decimal numeral (`read?_eq_integer_iff`). No other text has that value, however it is
written.

Digits are taken for as long as they fit into the significand (`takeDigits_cases`). What is left of
them tells a whole number that is too large from one that is read exactly.
-/

namespace Telemetry.Json

variable {s t ds es w r rest : Bytes} {x y : Numeral} {n limit : Nat}

/-! ### Decimal numerals -/

theorem valueFrom_append (n : Nat) (ds es : Bytes) :
    valueFrom n (ds ++ es) = valueFrom (valueFrom n ds) es := List.foldl_append

theorem valueFrom_concat (n : Nat) (ds : Bytes) (d : UInt8) :
    valueFrom n (ds ++ [d]) = valueFrom n ds * 10 + Byte.digit d := valueFrom_append n ds [d]

theorem digit_lt {d : UInt8} (h : Byte.isDigit d = true) : Byte.digit d < 10 := by
  have hall : ∀ d : UInt8, Byte.isDigit d = true → Byte.digit d < 10 := by decide +kernel
  exact hall d h

theorem digit_inj {d e : UInt8} (hd : Byte.isDigit d = true) (he : Byte.isDigit e = true)
    (h : Byte.digit d = Byte.digit e) : d = e := by
  simp only [Byte.isDigit, Bool.and_eq_true, decide_eq_true_eq, UInt8.le_iff_toNat_le] at hd he
  have hzero : Byte.zero.toNat = 48 := rfl
  rw [hzero] at hd he
  rw [Byte.digit, Byte.digit] at h
  exact UInt8.toNat_inj.mp (by omega)

/-- Digits with another than zero in front make up a positive number. -/
theorem valueFrom_pos (hds : IsDigits ds) (hhead : ds.head? ≠ some Byte.zero) :
    0 < valueFrom 0 ds := by
  obtain ⟨hne, hdigits⟩ := hds
  obtain ⟨b, ds, rfl⟩ := List.exists_cons_of_ne_nil hne
  have hb : Byte.digit b ≠ 0 := fun hzero => hhead (by
    rw [digit_inj (hdigits b List.mem_cons_self) (by decide : Byte.isDigit Byte.zero = true) hzero]
    rfl)
  have hle := le_valueFrom (0 * 10 + Byte.digit b) ds
  exact Nat.lt_of_lt_of_le (by omega) hle

/-- Digits with no zero in front are determined by the number that they make up. -/
theorem digits_inj (hds : ∀ d ∈ ds, Byte.isDigit d = true) (hes : ∀ e ∈ es, Byte.isDigit e = true)
    (hd : ds.head? ≠ some Byte.zero) (he : es.head? ≠ some Byte.zero)
    (h : valueFrom 0 ds = valueFrom 0 es) : ds = es := by
  have hpos {l : Bytes} {c : UInt8} (hl : ∀ d ∈ l ++ [c], Byte.isDigit d = true)
      (hhead : (l ++ [c]).head? ≠ some Byte.zero) : 0 < valueFrom 0 (l ++ [c]) :=
    valueFrom_pos ⟨by simp, hl⟩ hhead
  have hfront {l : Bytes} {c : UInt8} (hhead : (l ++ [c]).head? ≠ some Byte.zero) :
      l.head? ≠ some Byte.zero := by
    cases l with
    | nil => simp
    | cons b l => exact hhead
  induction ds using List.reverseRecOn generalizing es with
  | nil =>
    obtain rfl | ⟨es, e, rfl⟩ := List.eq_nil_or_concat' es
    · rfl
    · exact absurd h (Nat.ne_of_lt (hpos hes he))
  | append_singleton ds d ih =>
    obtain rfl | ⟨es, e, rfl⟩ := List.eq_nil_or_concat' es
    · exact absurd h.symm (Nat.ne_of_lt (hpos hds hd))
    · obtain ⟨hds, hd'⟩ := List.forall_mem_append.mp hds
      obtain ⟨hes, he'⟩ := List.forall_mem_append.mp hes
      have hdlt := digit_lt (hd' d (by simp))
      have helt := digit_lt (he' e (by simp))
      rw [valueFrom_concat, valueFrom_concat] at h
      rw [ih hds hes (hfront hd) (hfront he) (by omega),
        digit_inj (hd' d (by simp)) (he' e (by simp)) (by omega)]

/-- A whole number is written as its decimal numeral. -/
theorem IsWhole.eq_ascii (h : IsWhole w) : w = ascii (toString (valueFrom 0 w)) := by
  cases h with
  | zero => decide +kernel
  | digits hds hhead =>
    obtain ⟨b, es, heq, hes, hvalue, hzero⟩ := exists_decimal (valueFrom 0 w)
    rw [heq]
    refine digits_inj hds.2 hes hhead (fun hb => ?_) hvalue.symm
    have hpos := valueFrom_pos hds hhead
    have := (hzero (Option.some.inj hb)).1
    omega

theorem IsWhole.isDigit (h : IsWhole w) : ∀ b ∈ w, Byte.isDigit b = true := by
  cases h with
  | zero => simp; decide
  | digits hds _ => exact hds.2

/-! ### Digits that are taken -/

/-- Digits are taken as long as they fit, whatever follows them. -/
theorem takeDigits_cases (limit : Nat) (hds : ∀ d ∈ ds, Byte.isDigit d = true) (n : Nat) :
    ∃ taken left, ds = taken ++ left ∧ (n ≤ limit → valueFrom n taken ≤ limit) ∧
      (∀ d ∈ left.head?, limit < valueFrom n taken * 10 + Byte.digit d) ∧
        ∀ rest, startsWithDigit rest = false →
          takeDigits limit n (ds ++ rest) = (valueFrom n taken, left ++ rest) := by
  induction ds generalizing n with
  | nil =>
    refine ⟨[], [], rfl, id, by simp, fun rest hrest => ?_⟩
    cases rest with
    | nil => rfl
    | cons b r =>
      rw [List.nil_append, takeDigits, if_neg fun h => Bool.false_ne_true (hrest.symm.trans h.1)]
      rfl
  | cons d ds ih =>
    obtain ⟨hd, hds⟩ := List.forall_mem_cons.mp hds
    by_cases hfits : n * 10 + Byte.digit d ≤ limit
    · obtain ⟨taken, left, rfl, hle, hleft, htake⟩ := ih hds (n * 10 + Byte.digit d)
      refine ⟨d :: taken, left, rfl, fun _ => hle hfits, hleft, fun rest hrest => ?_⟩
      rw [List.cons_append, takeDigits, if_pos ⟨hd, hfits⟩, htake rest hrest]
      rfl
    · refine ⟨[], d :: ds, rfl, id, fun e he => ?_, fun rest _ => ?_⟩
      · cases he
        exact Nat.lt_of_not_le hfits
      · rw [List.cons_append, takeDigits, if_neg fun h => hfits h.2]
        rfl

/-- A whole number is read as the digits that fit, and as many zeros as there are others. -/
theorem readInteger_of_isWhole (negative : Bool) (hw : IsWhole w) :
    ∃ taken left, w = taken ++ left ∧ taken ≠ [] ∧ valueFrom 0 taken ≤ greatestSignificand ∧
      (∀ d ∈ left.head?, greatestSignificand < valueFrom 0 taken * 10 + Byte.digit d) ∧
        ∀ rest, startsWithDigit rest = false → readInteger negative (w ++ rest) =
          .ok (⟨negative, valueFrom 0 taken, left.length, left.length = 0⟩, rest) := by
  cases hw with
  | zero =>
    refine ⟨[Byte.zero], [], rfl, by simp, by decide, by simp, fun rest hrest => ?_⟩
    rw [List.singleton_append, readInteger, if_pos rfl, hrest]
    rfl
  | digits hds hhead =>
    obtain ⟨hne, hdigits⟩ := hds
    obtain ⟨b, ds, rfl⟩ := List.exists_cons_of_ne_nil hne
    obtain ⟨hb, hdigits⟩ := List.forall_mem_cons.mp hdigits
    have hb0 : b ≠ Byte.zero := fun hb0 => hhead (by rw [hb0]; rfl)
    have hfirst : Byte.digit b ≤ greatestSignificand :=
      Nat.le_trans (Nat.le_of_lt (digit_lt hb)) (by decide)
    obtain ⟨taken, left, rfl, hle, hleft, htake⟩ :=
      takeDigits_cases greatestSignificand hdigits (Byte.digit b)
    have hvalue : valueFrom 0 (b :: taken) = valueFrom (Byte.digit b) taken := by
      rw [valueFrom, List.foldl_cons, Nat.zero_mul, Nat.zero_add]
      rfl
    refine ⟨b :: taken, left, rfl, by simp, hvalue ▸ hle hfirst, by rwa [hvalue],
      fun rest hrest => ?_⟩
    have hskip : skipDigits (left ++ rest) = rest :=
      skipDigits_append (List.forall_mem_append.mp hdigits).2 hrest
    rw [List.cons_append, readInteger, if_neg hb0, if_pos hb, htake rest hrest]
    simp [hskip, hvalue]

/-! ### Integers that are read -/

/-- Passing over the digits in front of the point ends where there is none. -/
theorem startsWithDigit_of_skipInteger (h : skipInteger s = .ok r) : startsWithDigit r = false := by
  have hskip (s : Bytes) : startsWithDigit (skipDigits s) = false := by
    cases hs : skipDigits s with
    | nil => rfl
    | cons b t =>
      have hne : skipDigits s ≠ [] := by rw [hs]; simp
      have hhead := List.head_dropWhile_not Byte.isDigit (l := s) hne
      have hb : (s.dropWhile Byte.isDigit).head hne = b := by
        have hs' : s.dropWhile Byte.isDigit = b :: t := hs
        simp [hs']
      rw [hb] at hhead
      exact hhead
  unfold skipInteger at h
  split at h
  · cases h
  · split at h
    · split at h
      · cases h
      · next hdigit =>
        cases h
        simpa using hdigit
    · unfold skipSomeDigits at h
      split at h
      · cases h
      · split at h
        · cases h
          exact hskip _
        · cases h

/-- A fraction makes a numeral that is not whole. -/
theorem eq_of_readFraction (h : readFraction x s = .ok (y, r)) (hy : y.whole = true) :
    y = x ∧ r = s := by
  unfold readFraction at h
  split at h
  · cases h
    exact ⟨rfl, rfl⟩
  · split at h
    · cases h
      exact ⟨rfl, rfl⟩
    · split at h
      · cases h
        cases hy
      · split at h <;> cases h

/-- So does an exponent. -/
theorem eq_of_readExponent (h : readExponent x s = .ok (y, r)) (hy : y.whole = true) :
    y = x ∧ r = s := by
  unfold readExponent at h
  split at h
  · cases h
    exact ⟨rfl, rfl⟩
  · split at h
    · cases h
      exact ⟨rfl, rfl⟩
    · dsimp only at h
      split at h
      · cases h
      · split at h
        · cases h
        · split at h
          · split at h
            · cases h
            · cases h
              cases hy
          · cases h
            cases hy

/-- A numeral that is whole is a sign and digits that make up its significand. -/
theorem exists_of_readNumeral (h : readNumeral s = .ok (x, r)) (hx : x.whole = true) :
    ∃ w, IsWhole w ∧ valueFrom 0 w ≤ greatestSignificand ∧
      s = (if x.negative then [Byte.minus] else []) ++ (w ++ r) ∧
        x.significand = valueFrom 0 w := by
  have hparts {negative : Bool} {s : Bytes}
      (h : (do
        let whole ← readInteger negative s
        let fraction ← readFraction whole.1 whole.2
        readExponent fraction.1 fraction.2) = .ok (x, r)) :
      ∃ w, IsWhole w ∧ valueFrom 0 w ≤ greatestSignificand ∧ s = w ++ r ∧ x.negative = negative ∧
        x.significand = valueFrom 0 w := by
    obtain ⟨⟨y, t⟩, hinteger, h⟩ := bind_eq_ok_iff.mp h
    obtain ⟨⟨z, u⟩, hfraction, hexponent⟩ := bind_eq_ok_iff.mp h
    obtain ⟨rfl, rfl⟩ := eq_of_readExponent hexponent hx
    obtain ⟨rfl, rfl⟩ := eq_of_readFraction hfraction hx
    have hskip := skipInteger_of_readInteger hinteger
    obtain ⟨w, hw, rfl⟩ := between_of_skipInteger hskip
    obtain ⟨taken, left, hsplit, -, hle, -, hread⟩ := readInteger_of_isWhole negative hw
    have hread := hread _ (startsWithDigit_of_skipInteger hskip)
    rw [hinteger] at hread
    cases hread
    have hleft : left = [] := by simpa using hx
    rw [hleft, List.append_nil] at hsplit
    exact ⟨w, hw, hsplit ▸ hle, rfl, rfl, by rw [hsplit]⟩
  unfold readNumeral at h
  split at h
  · cases h
  · next b s =>
    split at h
    · next hb =>
      obtain ⟨w, hw, hle, rfl, hnegative, hvalue⟩ := hparts h
      exact ⟨w, hw, hle, by simp [hnegative, hb], hvalue⟩
    · obtain ⟨w, hw, hle, heq, hnegative, hvalue⟩ := hparts h
      exact ⟨w, hw, hle, by simp [hnegative, heq], hvalue⟩

/-- A number that is read as an integer is the numeral of that. -/
theorem between_of_readNumber {n : Int} (h : readNumber s = .ok (.integer n, r)) :
    Between (SpellsInteger n) s r := by
  obtain ⟨⟨x, u⟩, hnumeral, h⟩ := bind_eq_ok_iff.mp h
  dsimp only at h
  split at h
  · next m hm =>
    cases h
    have hgreatest : greatestSignificand = 2 ^ 64 - 1 := by decide
    unfold Numeral.number? at hm
    split at hm
    · next hx =>
      obtain ⟨w, hw, hle, hs, hvalue⟩ := exists_of_readNumeral hnumeral hx
      have htext := hw.eq_ascii
      cases hnegative : x.negative with
      | false =>
        rw [hnegative] at hm hs
        cases hm
        refine ⟨w, ⟨by omega, by omega, ?_⟩, hs⟩
        rw [hvalue]
        exact htext
      | true =>
        rw [hnegative, if_neg (by simp)] at hm
        rw [hnegative] at hs
        split at hm
        · next hrange =>
          cases hm
          obtain ⟨m, hm⟩ := Nat.exists_eq_succ_of_ne_zero (Nat.ne_of_gt hrange.1)
          have hsmallest : 1 <<< 63 = 2 ^ 63 := by decide
          have hnegSucc : -((x.significand : Nat) : Int) = Int.negSucc m := by omega
          refine ⟨Byte.minus :: w, ⟨by omega, by omega, ?_⟩, hs⟩
          rw [hnegSucc, ascii_toString_negSucc, htext, ← hvalue, hm]
        · cases hofNat : Binary64.ofNat? x.significand <;> rw [hofNat] at hm <;> cases hm
    · cases hdecimal : Binary64.ofDecimal? x.significand x.exponent <;> rw [hdecimal] at hm <;>
        cases hm
  · cases h

/-! ### Documents that are integers -/

/-- A value that is a number is found as one. -/
theorem readFound_of_readValue {depth : Nat} {n : Number}
    (h : readValue depth s = .ok (.number n, r)) :
    readFound (skipBlanks s) = .ok (.number n, r) := by
  obtain ⟨found, hvalue, hfound, -⟩ | ⟨_, _, _, -, hx, -⟩ | ⟨_, _, _, -, hx, -⟩ :=
    readValue_cases h
  · cases found <;> cases hvalue
    exact hfound
  · cases hx
  · cases hx

/-- What is found as a number is read as one. -/
theorem readNumber_of_readFound {n : Number} (h : readFound s = .ok (.number n, r)) :
    readNumber s = .ok (n, r) := by
  unfold readFound at h
  split at h
  · cases h
  · split at h
    case h_5 =>
      obtain ⟨⟨m, u⟩, hread, hm⟩ := bind_eq_ok_iff.mp h
      cases hm
      exact hread
    case h_1 | h_7 | h_8 => cases h
    all_goals
      obtain ⟨_, -, h⟩ := bind_eq_ok_iff.mp h
      cases h

/-- A document is an integer exactly if it is its decimal numeral, with blanks around it. -/
theorem Value.read?_eq_integer_iff {n : Int} :
    Value.read? s = .ok (.number (.integer n)) ↔ Padded (SpellsInteger n) s := by
  rw [Value.read?, readWhole_eq_ok_iff]
  constructor
  · rintro ⟨r, h, hr⟩
    have hread := readNumber_of_readFound (readFound_of_readValue h)
    obtain ⟨t, ht, rfl⟩ := (between_of_readNumber hread).of_skipBlanks
    exact ht.append_blank hr
  · intro h
    cases h with
    | @blanks a t b ha ht hb =>
      have hfollows : Follows b := List.append_nil b ▸ Follows.append hb (by simp [Follows])
      have hspells : Spells 0 (.number (.integer n)) t := ht
      exact ⟨b, readValue_of_spells (Nat.zero_le depthLimit) hspells ha hfollows, hb⟩

end Telemetry.Json
