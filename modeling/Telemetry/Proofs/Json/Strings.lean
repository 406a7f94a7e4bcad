import Telemetry.Json.Strings
import Telemetry.Proofs.Json.Spelling

/-!
# Reading strings

A string is read back from each of its spellings (`readString_of_spells`), and a string that nobody
asks for is passed over (`skipString_of_isString`). Both go character by character; an escape has to
be told from the two bytes that may not stand for themselves.
-/

namespace Telemetry.Json

variable {s ds rest : Bytes} {n d : Nat} {b : UInt8} {c : Char}

/-! ### Escapes -/

theorem hexDigit?_of_spells (h : SpellsDigit d b) : Byte.hexDigit? b = some d := by
  have hlower : ∀ d < 16, Byte.hexDigit? (Byte.ofAscii (Nat.digitChar d)) = some d := by decide
  have hupper : ∀ d < 16, Byte.hexDigit? (Byte.ofAscii (Nat.digitChar d).toUpper) = some d := by
    decide
  cases h with
  | lower hd => exact hlower d hd
  | upper hd => exact hupper d hd

theorem readHex_of_spells (h : SpellsHex n ds) (rest : Bytes) :
    readHex (ds ++ rest) = .ok (n, rest) := by
  cases h with
  | digits ha hb hc hd =>
    simp only [List.cons_append, List.nil_append, readHex, hexValue?, hexDigit?_of_spells ha,
      hexDigit?_of_spells hb, hexDigit?_of_spells hc, hexDigit?_of_spells hd]

/-- What is known of the letters of escapes. -/
theorem letterEscape?_of_mem : ∀ e ∈ letterEscapes, Byte.ofAscii e.1 ≠ Byte.ofAscii 'u' ∧
    letterEscape? (Byte.ofAscii e.1) = some (Byte.ofAscii e.2) ∧
      Text.Utf8.encodeChar e.2 = [Byte.ofAscii e.2] := by
  decide

/-- Two surrogates make the character that they were made from. -/
theorem ofSurrogates_eq (h : 0x10000 ≤ c.toNat) :
    ofSurrogates (0xd800 + (c.toNat - 0x10000) / 0x400) (0xdc00 + (c.toNat - 0x10000) % 0x400) =
      c := by
  have hnumber : 0x10000 + (0xd800 + (c.toNat - 0x10000) / 0x400 - 0xd800) * 0x400 +
      (0xdc00 + (c.toNat - 0x10000) % 0x400 - 0xdc00) = c.toNat := by
    omega
  rw [ofSurrogates, hnumber, Char.ofNat_toNat]

/-- An escape by number is read as its character. -/
theorem readNumberEscape_of_spells (h : SpellsHex c.toNat ds) (rest : Bytes) :
    readNumberEscape (ds ++ rest) = .ok (c, rest) := by
  have hvalid : c.toNat.isValidChar := c.valid
  have hhigh : isHighSurrogate c.toNat = false := by
    simp only [isHighSurrogate, Bool.and_eq_false_iff, decide_eq_false_iff_not]
    rcases hvalid with h | h <;> omega
  have hlow : isLowSurrogate c.toNat = false := by
    simp only [isLowSurrogate, Bool.and_eq_false_iff, decide_eq_false_iff_not]
    rcases hvalid with h | h <;> omega
  simp [readNumberEscape, readHex_of_spells h, bind, Except.bind, hlow, hhigh]

/-- Two escapes that are a pair of surrogates are read as one character. -/
theorem readNumberEscape_of_spells_pair {es : Bytes} (h : 0x10000 ≤ c.toNat)
    (hhigh : SpellsHex (0xd800 + (c.toNat - 0x10000) / 0x400) ds)
    (hlow : SpellsHex (0xdc00 + (c.toNat - 0x10000) % 0x400) es) (rest : Bytes) :
    readNumberEscape (ds ++ Byte.backslash :: Byte.ofAscii 'u' :: (es ++ rest)) =
      .ok (c, rest) := by
  have hvalid : c.toNat.isValidChar := c.valid
  have hnotLow : isLowSurrogate (0xd800 + (c.toNat - 0x10000) / 0x400) = false := by
    simp only [isLowSurrogate, Bool.and_eq_false_iff, decide_eq_false_iff_not]
    rcases hvalid with h | h <;> omega
  have hisHigh : isHighSurrogate (0xd800 + (c.toNat - 0x10000) / 0x400) = true := by
    simp only [isHighSurrogate, Bool.and_eq_true, decide_eq_true_eq]
    rcases hvalid with h | h <;> omega
  have hisLow : isLowSurrogate (0xdc00 + (c.toNat - 0x10000) % 0x400) = true := by
    simp only [isLowSurrogate, Bool.and_eq_true, decide_eq_true_eq]
    omega
  simp [readNumberEscape, readHex_of_spells hhigh, readHex_of_spells hlow, readPairMark, bind,
    Except.bind, hnotLow, hisHigh, hisLow, ofSurrogates_eq h]

/-! ### Strings that are read -/

/-- Bytes that stand for themselves are read as they are. -/
theorem readStringBytes_plain
    (h : ∀ b ∈ s, b ≠ Byte.quote ∧ b ≠ Byte.backslash ∧ Byte.isControl b = false)
    (rest : Bytes) :
    readStringBytes (s ++ rest) = (readStringBytes rest).map fun x => (s ++ x.1, x.2) := by
  induction s with
  | nil =>
    rw [List.nil_append]
    cases readStringBytes rest <;> rfl
  | cons b s ih =>
    obtain ⟨⟨hquote, hbackslash, hcontrol⟩, hs⟩ := List.forall_mem_cons.mp h
    rw [List.cons_append, readStringBytes, if_neg hquote, if_neg hbackslash,
      if_neg (by simp [hcontrol]),
      ih hs]
    cases readStringBytes rest <;> rfl

/-- An escape is read as what it stands for. -/
theorem readStringBytes_escape {bs : Bytes} (h : readEscape s = .ok (bs, rest)) :
    readStringBytes (Byte.backslash :: s) =
      (readStringBytes rest).map fun x => (bs ++ x.1, x.2) := by
  rw [readStringBytes, if_neg (by decide), if_pos rfl]
  split
  · next h' =>
    rw [h] at h'
    cases h'
  · next h' =>
    rw [h] at h'
    cases h'
    rfl

/-- The bytes of a character that is not ASCII are not ASCII. -/
theorem le_of_mem_encodeChar (h : 0x80 ≤ c.toNat) :
    ∀ b ∈ Text.Utf8.encodeChar c, 0x80 ≤ b.toNat := by
  have hlt : c.toNat < 0x110000 := by
    have hvalid : c.toNat.isValidChar := c.valid
    rcases hvalid with h | h <;> omega
  have hcontinuation (n : Nat) : 0x80 ≤ (Text.Utf8.continuation n).toNat := by
    rw [Text.Utf8.toNat_continuation]
    omega
  have hfirst {n : Nat} (hle : 0x80 ≤ n) (hlt : n < 0x100) : 0x80 ≤ n.toUInt8.toNat := by
    simp only [Nat.toUInt8, UInt8.toNat_ofNat']
    omega
  unfold Text.Utf8.encodeChar
  simp only [if_neg (Nat.not_lt.mpr h)]
  split
  · simp only [List.forall_mem_cons, hcontinuation]
    exact ⟨hfirst (by omega) (by omega), trivial, by simp⟩
  · split <;> simp only [List.forall_mem_cons, hcontinuation]
    · exact ⟨hfirst (by omega) (by omega), trivial, trivial, by simp⟩
    · exact ⟨hfirst (by omega) (by omega), trivial, trivial, trivial, by simp⟩

/-- The bytes of a character that stands for itself do so. -/
theorem plain_encodeChar (hspace : 0x20 ≤ c.toNat) (hquote : c ≠ '"') (hbackslash : c ≠ '\\') :
    ∀ b ∈ Text.Utf8.encodeChar c,
      b ≠ Byte.quote ∧ b ≠ Byte.backslash ∧ Byte.isControl b = false := by
  have hplain {b : UInt8} (hle : 0x20 ≤ b.toNat) (hq : b.toNat ≠ 0x22) (hb : b.toNat ≠ 0x5c) :
      b ≠ Byte.quote ∧ b ≠ Byte.backslash ∧ Byte.isControl b = false := by
    refine ⟨?_, ?_, ?_⟩
    · rintro rfl
      exact hq rfl
    · rintro rfl
      exact hb rfl
    · have hnot : ¬b < Byte.space := fun hlt => by
        rw [UInt8.lt_iff_toNat_lt] at hlt
        exact absurd hlt (Nat.not_lt.mpr hle)
      simpa [Byte.isControl] using hnot
  intro b hmem
  by_cases h : c.toNat < 0x80
  · have hb : b = c.toNat.toUInt8 := by simpa [Text.Utf8.encodeChar, h] using hmem
    have htoNat : b.toNat = c.toNat := by
      rw [hb]
      simp only [Nat.toUInt8, UInt8.toNat_ofNat']
      omega
    refine hplain (by omega) ?_ ?_ <;> rw [htoNat] <;> intro heq
    · exact hquote (Char.toNat_inj.mp heq)
    · exact hbackslash (Char.toNat_inj.mp heq)
  · have hle := le_of_mem_encodeChar (Nat.not_lt.mp h) b hmem
    exact hplain (by omega) (by omega) (by omega)

/-- Every way to write a character is read as its bytes. -/
theorem readStringBytes_of_spellsChar (h : SpellsChar c s) (rest : Bytes) :
    readStringBytes (s ++ rest) =
      (readStringBytes rest).map fun x => (Text.Utf8.encodeChar c ++ x.1, x.2) := by
  cases h with
  | plain hspace hquote hbackslash =>
    exact readStringBytes_plain (plain_encodeChar hspace hquote hbackslash) rest
  | letter hmem =>
    obtain ⟨hu, hletter, hencode⟩ := letterEscape?_of_mem _ hmem
    rw [hencode]
    refine readStringBytes_escape ?_
    simp [readEscape, hu, hletter]
  | number hhex =>
    refine readStringBytes_escape ?_
    simp [readEscape, readNumberEscape_of_spells hhex]
  | pair hle hhigh hlow =>
    refine readStringBytes_escape ?_
    simp [readEscape, readNumberEscape_of_spells_pair hle hhigh hlow]

/-- Characters are read one after the other, up to the closing quote. -/
theorem readStringBytes_of_spellsChars {cs : List Char} (h : SpellsChars cs s) (rest : Bytes) :
    readStringBytes (s ++ Byte.quote :: rest) = .ok (Text.Utf8.encode cs, rest) := by
  induction h with
  | nil =>
    rw [List.nil_append, readStringBytes, if_pos rfl]
    rfl
  | cons hc _ ih =>
    rw [List.append_assoc, readStringBytes_of_spellsChar hc, ih]
    rfl

/-- A string is read back from its spellings. -/
theorem readString_of_spells {text : String} (h : SpellsString text s) (rest : Bytes) :
    ∃ t, s = Byte.quote :: t ∧ readString (t ++ rest) = .ok (text, rest) := by
  cases h with
  | quoted hchars =>
    refine ⟨_, rfl, ?_⟩
    rw [List.append_assoc, List.singleton_append, readString,
      readStringBytes_of_spellsChars hchars]
    simp only [Text.Utf8.decode_encode, String.ofList_toList]

/-- Text that needs no escapes is spelled as it is, between quotes. -/
theorem spellsString_encode {text : String}
    (h : ∀ c ∈ text.toList, 0x20 ≤ c.toNat ∧ c ≠ '"' ∧ c ≠ '\\') :
    SpellsString text (Byte.quote :: (Text.Utf8.encode text.toList ++ [Byte.quote])) := by
  have hchars (cs : List Char) (hcs : ∀ c ∈ cs, 0x20 ≤ c.toNat ∧ c ≠ '"' ∧ c ≠ '\\') :
      SpellsChars cs (Text.Utf8.encode cs) := by
    induction cs with
    | nil => exact .nil
    | cons c cs ih =>
      obtain ⟨⟨hspace, hquote, hbackslash⟩, hcs⟩ := List.forall_mem_cons.mp hcs
      exact .cons (.plain hspace hquote hbackslash) (ih hcs)
  exact .quoted (hchars text.toList h)

/-! ### Strings that are passed over -/

/-- An escape is passed over. -/
theorem skipString_escape (h : skipEscape s = .ok rest) :
    skipString (Byte.backslash :: s) = skipString rest := by
  rw [skipString, if_neg (by decide), if_pos rfl]
  split
  · next h' =>
    rw [h] at h'
    cases h'
  · next h' =>
    rw [h] at h'
    cases h'
    rfl

/-- A part of a string is passed over. -/
theorem skipString_of_isStringPart (h : IsStringPart s) (rest : Bytes) :
    skipString (s ++ rest) = skipString rest := by
  cases h with
  | plain hspace hquote hbackslash =>
    rw [List.singleton_append, skipString, if_neg hquote, if_neg hbackslash, if_neg]
    simpa [Byte.isControl] using hspace
  | letter hmem =>
    obtain ⟨hu, hletter, -⟩ := letterEscape?_of_mem _ hmem
    refine skipString_escape ?_
    simp [skipEscape, hu, hletter]
  | number hhex =>
    refine skipString_escape ?_
    simp [skipEscape, readHex_of_spells hhex, Except.map]

/-- A string is passed over, whatever its escapes stand for. -/
theorem skipString_of_isString (h : IsString s) (rest : Bytes) :
    ∃ t, s = Byte.quote :: t ∧ skipString (t ++ rest) = .ok rest := by
  cases h with
  | @parts parts hparts =>
    refine ⟨_, rfl, ?_⟩
    induction parts with
    | nil =>
      rw [List.flatten_nil, List.nil_append, List.singleton_append, skipString, if_pos rfl]
    | cons p parts ih =>
      obtain ⟨hp, hrest⟩ := List.forall_mem_cons.mp hparts
      rw [List.flatten_cons, List.append_assoc, List.append_assoc,
        skipString_of_isStringPart hp, ← List.append_assoc]
      exact ih hrest

end Telemetry.Json
