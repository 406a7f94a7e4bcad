import Telemetry.Bytes

/-!
# UTF-8

Characters and their bytes. A character takes one to four bytes: the first says how many, each
further one carries six bits. `Utf8.decode` reads as many whole characters as stand at the front of
the bytes and gives back what is left; only the shortest form of a character counts, and surrogates
and numbers above the last code point are no characters.
-/

namespace Telemetry.Text.Utf8

/-- A byte that carries the low six bits of a number, after the first byte of a character. -/
def continuation (n : Nat) : UInt8 := (0x80 + n % 64).toUInt8

/-- The bytes of a character. -/
def encodeChar (c : Char) : Bytes :=
  let n := c.toNat
  if n < 0x80 then [n.toUInt8]
  else if n < 0x800 then [(0xc0 + n / 64).toUInt8, continuation n]
  else if n < 0x10000 then [(0xe0 + n / 4096).toUInt8, continuation (n / 64), continuation n]
  else [(0xf0 + n / 262144).toUInt8, continuation (n / 4096), continuation (n / 64), continuation n]

/-- The bytes of a sequence of characters. -/
def encode (cs : List Char) : Bytes := cs.flatMap encodeChar

/-- The bytes of a string. -/
def ofString (s : String) : Bytes := encode s.toList

/-- Extends a number by six bits from each of `count` further bytes. -/
def sixBits? : Nat → Nat → Bytes → Option (Nat × Bytes)
  | 0, n, s => some (n, s)
  | _ + 1, _, [] => none
  | count + 1, n, b :: s =>
    if 0x80 ≤ b.toNat ∧ b.toNat < 0xc0 then sixBits? count (n * 64 + (b.toNat - 0x80)) s else none

/-- The character that began with `high` bits and takes `count` further bytes. Its number must be
too large for a shorter form, and that of a character. -/
def longChar? (count high least : Nat) (s : Bytes) : Option (Char × Bytes) :=
  match sixBits? count high s with
  | none => none
  | some (n, r) => if least ≤ n ∧ n.isValidChar then some (Char.ofNat n, r) else none

/-- The character at the front of the bytes, and what follows it. -/
def decodeChar? : Bytes → Option (Char × Bytes)
  | [] => none
  | b :: s =>
    let n := b.toNat
    if n < 0x80 then some (Char.ofNat n, s)
    else if n < 0xc0 then none
    else if n < 0xe0 then longChar? 1 (n - 0xc0) 0x80 s
    else if n < 0xf0 then longChar? 2 (n - 0xe0) 0x800 s
    else if n < 0xf8 then longChar? 3 (n - 0xf0) 0x10000 s
    else none

theorem length_le_of_sixBits? {count n m : Nat} {s r : Bytes}
    (h : sixBits? count n s = some (m, r)) : r.length ≤ s.length := by
  fun_induction sixBits? count n s with
  | case1 n s => simp_all
  | case2 => simp at h
  | case3 count n b s hb ih => have := ih h; simp; omega
  | case4 => simp at h

theorem length_le_of_longChar? {count high least : Nat} {s r : Bytes} {c : Char}
    (h : longChar? count high least s = some (c, r)) : r.length ≤ s.length := by
  unfold longChar? at h
  split at h
  · simp at h
  · next n t ht =>
    have := length_le_of_sixBits? ht
    split at h <;> simp_all

/-- A character takes at least one byte. -/
theorem length_lt_of_decodeChar? {s r : Bytes} {c : Char} (h : decodeChar? s = some (c, r)) :
    r.length < s.length := by
  cases s with
  | nil => simp [decodeChar?] at h
  | cons b s =>
    simp only [decodeChar?] at h
    split at h
    · simp only [Option.some.injEq, Prod.mk.injEq] at h
      simp [← h.2]
    · split at h
      · simp at h
      · simp only [List.length_cons, Nat.lt_succ_iff]
        split at h
        · exact length_le_of_longChar? h
        · split at h
          · exact length_le_of_longChar? h
          · split at h
            · exact length_le_of_longChar? h
            · simp at h

/-- The whole characters at the front of the bytes, and the bytes from the first place on where
no character stands. -/
def decode (s : Bytes) : List Char × Bytes :=
  match h : decodeChar? s with
  | none => ([], s)
  | some (c, r) =>
    have := length_lt_of_decodeChar? h
    let (cs, rest) := decode r
    (c :: cs, rest)
termination_by s.length

/-- The string that the bytes are the encoding of. -/
def decode? (s : Bytes) : Option String :=
  match decode s with
  | (cs, []) => some (String.ofList cs)
  | _ => none

/-! ### Round trip -/

theorem toNat_continuation (n : Nat) : (continuation n).toNat = 0x80 + n % 64 := by
  simp only [continuation, Nat.toUInt8, UInt8.toNat_ofNat']
  omega

/-- A further byte is read as the six bits that it carries. -/
theorem sixBits?_continuation (count n m : Nat) (s : Bytes) :
    sixBits? (count + 1) n (continuation m :: s) = sixBits? count (n * 64 + m % 64) s := by
  have h := toNat_continuation m
  rw [sixBits?, if_pos (by omega), h, Nat.add_sub_cancel_left]

/-- A character is read back from its bytes, whatever follows. -/
theorem decodeChar?_encodeChar (c : Char) (s : Bytes) :
    decodeChar? (encodeChar c ++ s) = some (c, s) := by
  have hc : c.toNat.isValidChar := c.valid
  have hlt : c.toNat < 0x110000 := by
    rcases hc with h | h <;> omega
  have hback : Char.ofNat c.toNat = c := Char.ofNat_toNat c
  unfold encodeChar
  simp only
  split
  · next h =>
    have hb : c.toNat.toUInt8.toNat = c.toNat := by
      simp only [Nat.toUInt8, UInt8.toNat_ofNat']; omega
    simp [decodeChar?, hb, h, hback]
  · split
    · next h₁ h₂ =>
      have hb : (0xc0 + c.toNat / 64).toUInt8.toNat = 0xc0 + c.toNat / 64 := by
        simp only [Nat.toUInt8, UInt8.toNat_ofNat']; omega
      have hn : (0xc0 + c.toNat / 64 - 0xc0) * 64 + c.toNat % 64 = c.toNat := by omega
      simp only [List.cons_append, List.nil_append, decodeChar?, hb]
      rw [if_neg (by omega), if_neg (by omega), if_pos (by omega), longChar?,
        sixBits?_continuation, hn]
      simp only [sixBits?]
      rw [if_pos ⟨by omega, by simpa using hc⟩, hback]
    · split
      · next h₁ h₂ h₃ =>
        have hb : (0xe0 + c.toNat / 4096).toUInt8.toNat = 0xe0 + c.toNat / 4096 := by
          simp only [Nat.toUInt8, UInt8.toNat_ofNat']; omega
        have hn : ((0xe0 + c.toNat / 4096 - 0xe0) * 64 + c.toNat / 64 % 64) * 64 +
            c.toNat % 64 = c.toNat := by
          omega
        simp only [List.cons_append, List.nil_append, decodeChar?, hb]
        rw [if_neg (by omega), if_neg (by omega), if_neg (by omega), if_pos (by omega), longChar?,
          sixBits?_continuation, sixBits?_continuation, hn]
        simp only [sixBits?]
        rw [if_pos ⟨by omega, by simpa using hc⟩, hback]
      · next h₁ h₂ h₃ =>
        have hb : (0xf0 + c.toNat / 262144).toUInt8.toNat = 0xf0 + c.toNat / 262144 := by
          simp only [Nat.toUInt8, UInt8.toNat_ofNat']; omega
        have hn : (((0xf0 + c.toNat / 262144 - 0xf0) * 64 + c.toNat / 4096 % 64) * 64 +
            c.toNat / 64 % 64) * 64 + c.toNat % 64 = c.toNat := by
          omega
        simp only [List.cons_append, List.nil_append, decodeChar?, hb]
        rw [if_neg (by omega), if_neg (by omega), if_neg (by omega), if_neg (by omega),
          if_pos (by omega), longChar?, sixBits?_continuation, sixBits?_continuation,
          sixBits?_continuation, hn]
        simp only [sixBits?]
        rw [if_pos ⟨by omega, by simpa using hc⟩, hback]

/-- Characters are read back from their bytes, and nothing is left. -/
theorem decode_encode (cs : List Char) : decode (encode cs) = (cs, []) := by
  induction cs with
  | nil => rw [decode]; rfl
  | cons c cs ih =>
    rw [decode]
    have h : decodeChar? (encode (c :: cs)) = some (c, encode cs) :=
      decodeChar?_encodeChar c (encode cs)
    split
    · simp_all
    · next h' =>
      rw [h] at h'
      cases h'
      simp [ih]

/-- A string is read back from its bytes. -/
@[simp] theorem decode?_ofString (s : String) : decode? (ofString s) = some s := by
  simp [decode?, ofString, decode_encode]

end Telemetry.Text.Utf8
