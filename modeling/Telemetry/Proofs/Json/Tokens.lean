import Telemetry.Json.Reader
import Telemetry.Proofs.Json.Numerals
import Telemetry.Proofs.Json.Strings

/-!
# Tokens that are taken

The converse of reading every spelling: whatever is passed over as a string, a number or a word is
one (`between_of_skipString`, `between_of_skipNumeral`, `eq_append_of_readWord`).

Strings and numbers that are read, and not only passed over, need no proof of their own. What reads
one ends where passing over it ends (`skipString_of_readString`, `skipNumeral_of_readNumber`).
-/

namespace Telemetry.Json

/-- Something of a kind stands between two places in the bytes. -/
def Between (P : Bytes → Prop) (s r : Bytes) : Prop := ∃ t, P t ∧ s = t ++ r

variable {s r : Bytes} {n d : Nat} {b : UInt8}

/-! ### Words -/

theorem eq_append_of_readWord {word : Bytes} (h : readWord word s = .ok r) : s = word ++ r := by
  induction word generalizing s with
  | nil =>
    cases h
    rfl
  | cons w word ih =>
    cases s with
    | nil => cases h
    | cons b s =>
      rw [readWord] at h
      split at h
      · next hb => rw [hb, ih h, List.cons_append]
      · cases h

/-! ### Escapes -/

theorem spellsDigit_of_hexDigit? (h : Byte.hexDigit? b = some d) : SpellsDigit d b := by
  have hall : ∀ b : UInt8, ∀ d ∈ Byte.hexDigit? b, d < 16 ∧
      (b = Byte.ofAscii (Nat.digitChar d) ∨ b = Byte.ofAscii (Nat.digitChar d).toUpper) := by
    decide +kernel
  obtain ⟨hd, rfl | rfl⟩ := hall b d h
  · exact .lower hd
  · exact .upper hd

theorem between_of_readHex (h : readHex s = .ok (n, r)) : Between (SpellsHex n) s r := by
  unfold readHex at h
  split at h
  · next a b c d s =>
    cases hvalue : hexValue? a b c d with
    | none =>
      rw [hvalue] at h
      cases h
    | some m =>
      rw [hvalue] at h
      cases h
      unfold hexValue? at hvalue
      split at hvalue
      · next ha hb hc hd =>
        cases hvalue
        exact ⟨[a, b, c, d], .digits (spellsDigit_of_hexDigit? ha) (spellsDigit_of_hexDigit? hb)
          (spellsDigit_of_hexDigit? hc) (spellsDigit_of_hexDigit? hd), rfl⟩
      · cases hvalue
  · cases h

/-- The letters that are taken for escapes are those of escapes. -/
theorem exists_of_letterEscape? (h : (letterEscape? b).isSome = true) :
    ∃ e ∈ letterEscapes, b = Byte.ofAscii e.1 := by
  have hall : ∀ b : UInt8, (letterEscape? b).isSome = true →
      ∃ e ∈ letterEscapes, b = Byte.ofAscii e.1 := by
    decide +kernel
  exact hall b h

theorem between_of_skipEscape (h : skipEscape s = .ok r) :
    Between (fun p => IsStringPart (Byte.backslash :: p)) s r := by
  unfold skipEscape at h
  split at h
  · cases h
  · next b s =>
    split at h
    · next hb =>
      cases hhex : readHex s with
      | error e =>
        rw [hhex] at h
        cases h
      | ok p =>
        obtain ⟨n, t⟩ := p
        rw [hhex] at h
        cases h
        obtain ⟨ds, hds, rfl⟩ := between_of_readHex hhex
        exact ⟨Byte.ofAscii 'u' :: ds, .number hds, by rw [hb, List.cons_append]⟩
    · split at h
      · next hletter =>
        cases h
        obtain ⟨e, he, rfl⟩ := exists_of_letterEscape? hletter
        exact ⟨[Byte.ofAscii e.1], .letter he, rfl⟩
      · cases h

/-- Reading the rest of a pair of surrogates is passing over an escape. -/
theorem skipString_of_readPairMark {t u : Bytes} {m : Nat} (ht : readPairMark t = .ok u)
    (hu : readHex u = .ok (m, r)) : skipString t = skipString r := by
  unfold readPairMark at ht
  split at ht
  · cases ht
  · split at ht
    · cases ht
    · next hb =>
      split at ht
      · cases ht
      · split at ht
        · next hu' =>
          cases ht
          rw [not_not.mp hb, hu']
          exact skipString_escape (by rw [skipEscape, if_pos rfl, hu]; rfl)
        · cases ht

/-- Reading an escape by number, or a pair of them, leads where passing over it does. -/
theorem skipString_of_readNumberEscape {c : Char} (h : readNumberEscape s = .ok (c, r)) :
    skipString (Byte.backslash :: Byte.ofAscii 'u' :: s) = skipString r := by
  unfold readNumberEscape at h
  obtain ⟨⟨n, t⟩, hhex, h⟩ := bind_eq_ok_iff.mp h
  have hescape : skipEscape (Byte.ofAscii 'u' :: s) = .ok t := by
    rw [skipEscape, if_pos rfl, hhex]
    rfl
  rw [skipString_escape hescape]
  dsimp only at h
  split at h
  · cases h
  · split at h
    · obtain ⟨u, ht, h⟩ := bind_eq_ok_iff.mp h
      obtain ⟨⟨m, r'⟩, hu, h⟩ := bind_eq_ok_iff.mp h
      dsimp only at h
      split at h
      · obtain ⟨-, rfl⟩ := Prod.mk.inj (Except.ok.inj h)
        exact skipString_of_readPairMark ht hu
      · cases h
    · obtain ⟨-, rfl⟩ := Prod.mk.inj (Except.ok.inj h)
      rfl

/-- Reading an escape leads where passing over it does. -/
theorem skipString_of_readEscape {bs : Bytes} (h : readEscape s = .ok (bs, r)) :
    skipString (Byte.backslash :: s) = skipString r := by
  unfold readEscape at h
  split at h
  · cases h
  · split at h
    · next hb =>
      split at h
      · cases h
      · next hnumber =>
        obtain ⟨-, rfl⟩ := Prod.mk.inj (Except.ok.inj h)
        rw [hb, skipString_of_readNumberEscape hnumber]
    · next hb =>
      split at h
      · next hletter =>
        cases h
        exact skipString_escape (by rw [skipEscape, if_neg hb, hletter]; rfl)
      · cases h

/-! ### Strings -/

/-- What is passed over as a string is one, but for its opening quote. -/
theorem between_of_skipString (h : skipString s = .ok r) :
    Between (fun t => IsString (Byte.quote :: t)) s r := by
  have hpart {p s : Bytes} (hp : IsStringPart p)
      (hs : Between (fun t => IsString (Byte.quote :: t)) s r) :
      Between (fun t => IsString (Byte.quote :: t)) (p ++ s) r := by
    obtain ⟨_, ⟨hparts⟩, rfl⟩ := hs
    refine ⟨_, .parts (List.forall_mem_cons.mpr ⟨hp, hparts⟩), ?_⟩
    simp
  fun_induction skipString s with
  | case1 => cases h
  | case2 s =>
    cases h
    exact ⟨[Byte.quote], @IsString.parts [] (by simp), rfl⟩
  | case3 => cases h
  | case4 s r' hescape _ _ ih =>
    obtain ⟨p, hp, rfl⟩ := between_of_skipEscape hescape
    exact hpart hp (ih h)
  | case5 => cases h
  | case6 b s hquote hbackslash hcontrol ih =>
    exact hpart (.plain (by simpa [Byte.isControl] using hcontrol) hquote hbackslash) (ih h)

/-- A string that is read ends where passing over it ends. -/
theorem skipString_of_readStringBytes {bs : Bytes} (h : readStringBytes s = .ok (bs, r)) :
    skipString s = .ok r := by
  have hmap {f : Bytes → Bytes} {x : Except Fault (Bytes × Bytes)} {bs : Bytes}
      (h : x.map (fun p => (f p.1, p.2)) = .ok (bs, r)) : ∃ bs, x = .ok (bs, r) := by
    cases x with
    | error e => cases h
    | ok p =>
      cases h
      exact ⟨p.1, rfl⟩
  fun_induction readStringBytes s generalizing bs with
  | case1 => cases h
  | case2 s =>
    cases h
    rw [skipString, if_pos rfl]
  | case3 => cases h
  | case4 s _ r' hescape _ _ ih =>
    obtain ⟨bs, hbs⟩ := hmap h
    rw [skipString_of_readEscape hescape]
    exact ih hbs
  | case5 => cases h
  | case6 b s hquote hbackslash hcontrol ih =>
    obtain ⟨bs, hbs⟩ := hmap h
    rw [skipString, if_neg hquote, if_neg hbackslash, if_neg hcontrol]
    exact ih hbs

theorem skipString_of_readString {text : String} (h : readString s = .ok (text, r)) :
    skipString s = .ok r := by
  unfold readString at h
  split at h
  · cases h
  · next hread =>
    split at h
    · cases h
      exact skipString_of_readStringBytes hread
    · cases h

/-! ### Numbers -/

theorem isDigits_skipDigits (h : startsWithDigit s = true) : Between IsDigits s (skipDigits s) := by
  cases s with
  | nil => cases h
  | cons b s =>
    refine ⟨(b :: s).takeWhile Byte.isDigit, ⟨?_, fun c hc => ?_⟩,
      List.takeWhile_append_dropWhile.symm⟩
    · rw [List.takeWhile_cons_of_pos (show Byte.isDigit b = true from h)]
      exact List.cons_ne_nil b _
    · exact List.mem_takeWhile_imp hc

theorem between_of_skipSomeDigits (h : skipSomeDigits s = .ok r) : Between IsDigits s r := by
  unfold skipSomeDigits at h
  split at h
  · cases h
  · next b s =>
    split at h
    · next hb =>
      cases h
      have hskip : skipDigits (b :: s) = skipDigits s := List.dropWhile_cons_of_pos hb
      exact hskip ▸ isDigits_skipDigits hb
    · cases h

theorem between_of_skipInteger (h : skipInteger s = .ok r) : Between IsWhole s r := by
  unfold skipInteger at h
  split at h
  · cases h
  · next b s =>
    split at h
    · next hb =>
      split at h
      · cases h
      · cases h
        exact ⟨[Byte.zero], .zero, by rw [hb, List.singleton_append]⟩
    · next hb =>
      obtain ⟨ds, hds, heq⟩ := between_of_skipSomeDigits h
      obtain ⟨c, ds, rfl⟩ := List.exists_cons_of_ne_nil hds.1
      refine ⟨c :: ds, .digits hds fun hc => hb ?_, heq⟩
      cases heq
      simpa using hc

theorem between_of_skipFraction (h : skipFraction s = .ok r) : Between IsFraction s r := by
  unfold skipFraction at h
  split at h
  · cases h
    exact ⟨[], .none, rfl⟩
  · next b s =>
    split at h
    · cases h
      exact ⟨[], .none, rfl⟩
    · next hb =>
      split at h
      · next hdigit =>
        cases h
        obtain ⟨ds, hds, heq⟩ := isDigits_skipDigits hdigit
        exact ⟨Byte.point :: ds, .digits hds, by rw [List.cons_append, ← heq, not_not.mp hb]⟩
      · cases h

theorem between_of_skipExponent (h : skipExponent s = .ok r) : Between IsExponent s r := by
  unfold skipExponent at h
  split at h
  · cases h
    exact ⟨[], .none, rfl⟩
  · next b s =>
    split at h
    · next hb =>
      obtain ⟨ds, hds, heq⟩ := between_of_skipSomeDigits h
      have hsign : ∃ sign ∈ [[], [Byte.plus], [Byte.minus]],
          s = sign ++ (readExponentSign s).2 := by
        unfold readExponentSign
        split
        · exact ⟨[], by decide, rfl⟩
        · split
          · next hplus => exact ⟨[Byte.plus], by decide, by rw [hplus, List.singleton_append]⟩
          · split
            · next hminus => exact ⟨[Byte.minus], by decide, by rw [hminus, List.singleton_append]⟩
            · exact ⟨[], by decide, rfl⟩
      have hmark : b ∈ ascii "eE" := by
        have hall : ∀ b : UInt8, isExponentMark b = true → b ∈ ascii "eE" := by decide +kernel
        exact hall b hb
      obtain ⟨sign, hsign, hs⟩ := hsign
      refine ⟨b :: (sign ++ ds), .digits hmark hsign hds, ?_⟩
      rw [List.cons_append, List.append_assoc, ← heq, ← hs]
    · cases h
      exact ⟨[], .none, rfl⟩

/-- What is passed over as a number is one. -/
theorem between_of_skipNumeral (h : skipNumeral s = .ok r) : Between IsNumber s r := by
  have hparts (sign : Bytes) {s : Bytes} (hsign : sign ∈ [[], [Byte.minus]])
      (h : (do let s ← skipInteger s; let s ← skipFraction s; skipExponent s) = .ok r) :
      Between IsNumber (sign ++ s) r := by
    obtain ⟨t, hinteger, h⟩ := bind_eq_ok_iff.mp h
    obtain ⟨u, hpoint, hmark⟩ := bind_eq_ok_iff.mp h
    obtain ⟨whole, hwhole, rfl⟩ := between_of_skipInteger hinteger
    obtain ⟨fraction, hfraction, rfl⟩ := between_of_skipFraction hpoint
    obtain ⟨exponent, hexponent, rfl⟩ := between_of_skipExponent hmark
    exact ⟨_, .parts hsign hwhole hfraction hexponent, by simp⟩
  unfold skipNumeral at h
  split at h
  · cases h
  · next b s =>
    split at h
    · next hb =>
      rw [hb, ← List.singleton_append]
      exact hparts _ (by decide) h
    · exact hparts [] (by decide) h

/-- Digits that are left over are passed over. -/
theorem skipDigits_takeDigits (limit n : Nat) (s : Bytes) :
    skipDigits (takeDigits limit n s).2 = skipDigits s := by
  induction s generalizing n with
  | nil => rfl
  | cons b s ih =>
    rw [takeDigits]
    split
    · next hb => rw [ih, skipDigits, skipDigits, List.dropWhile_cons_of_pos hb.1]
    · rfl

theorem skipInteger_of_readInteger {negative : Bool} {x : Numeral}
    (h : readInteger negative s = .ok (x, r)) : skipInteger s = .ok r := by
  unfold readInteger at h
  split at h
  · cases h
  · next b s =>
    split at h
    · next hb =>
      split at h
      · cases h
      · next hdigit =>
        cases h
        rw [skipInteger, if_pos hb, if_neg hdigit]
    · next hb =>
      split at h
      · next hdigit =>
        cases h
        rw [skipInteger, if_neg hb, skipSomeDigits, if_pos hdigit, skipDigits_takeDigits]
      · cases h

theorem skipFraction_of_readFraction {x y : Numeral} (h : readFraction x s = .ok (y, r)) :
    skipFraction s = .ok r := by
  unfold readFraction at h
  split at h
  · cases h
    rfl
  · next b s =>
    split at h
    · next hb =>
      cases h
      rw [skipFraction, if_pos hb]
    · next hb =>
      split at h
      · next hdigit =>
        cases h
        rw [skipFraction, if_neg hb, if_pos hdigit, skipDigits_takeDigits]
      · split at h <;> cases h

theorem skipExponent_of_readExponent {x y : Numeral} (h : readExponent x s = .ok (y, r)) :
    skipExponent s = .ok r := by
  unfold readExponent at h
  split at h
  · cases h
    rfl
  · next b s =>
    split at h
    · next hb =>
      cases h
      rw [skipExponent, if_neg (by simpa using hb)]
    · next hb =>
      rw [skipExponent, if_pos (by simpa using hb)]
      dsimp only at h
      split at h
      · cases h
      · next c t hsign =>
        rw [hsign, skipSomeDigits]
        split at h
        · cases h
        · next hdigit =>
          have hc : Byte.isDigit c = true := by simpa using hdigit
          have htake := skipDigits_takeDigits greatestExponent 0 (c :: t)
          have hskip : skipDigits (c :: t) = skipDigits t := List.dropWhile_cons_of_pos hc
          rw [if_pos hc, ← hskip, ← htake]
          split at h
          · split at h
            · cases h
            · cases h
              rfl
          · next hrest =>
            cases h
            rw [skipDigits_of_startsWithDigit (by simpa using hrest)]

/-- A number that is read ends where passing over it ends. -/
theorem skipNumeral_of_readNumeral {x : Numeral} (h : readNumeral s = .ok (x, r)) :
    skipNumeral s = .ok r := by
  have hparts {negative : Bool} {s : Bytes}
      (h : (do
        let whole ← readInteger negative s
        let fraction ← readFraction whole.1 whole.2
        readExponent fraction.1 fraction.2) = .ok (x, r)) :
      (do let s ← skipInteger s; let s ← skipFraction s; skipExponent s) = .ok r := by
    obtain ⟨⟨y, t⟩, hinteger, h⟩ := bind_eq_ok_iff.mp h
    obtain ⟨⟨z, u⟩, hfraction, hexponent⟩ := bind_eq_ok_iff.mp h
    exact bind_eq_ok_iff.mpr ⟨t, skipInteger_of_readInteger hinteger,
      bind_eq_ok_iff.mpr ⟨u, skipFraction_of_readFraction hfraction,
        skipExponent_of_readExponent hexponent⟩⟩
  unfold readNumeral at h
  split at h
  · cases h
  · next b s =>
    unfold skipNumeral
    split at h
    · next hb =>
      dsimp only
      rw [if_pos hb]
      exact hparts h
    · next hb =>
      dsimp only
      rw [if_neg hb]
      exact hparts h

theorem skipNumeral_of_readNumber {n : Number} (h : readNumber s = .ok (n, r)) :
    skipNumeral s = .ok r := by
  obtain ⟨⟨x, r'⟩, hnumeral, h⟩ := bind_eq_ok_iff.mp h
  dsimp only at h
  split at h
  · cases h
    exact skipNumeral_of_readNumeral hnumeral
  · cases h

end Telemetry.Json
