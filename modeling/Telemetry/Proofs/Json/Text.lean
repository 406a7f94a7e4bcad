import Telemetry.Proofs.Json.Integers

/-!
# Text is read back

The compact text of a value is one of its spellings (`spells_text`), so that it is read back as the
value (`Value.read?_text`), unless there are doubles in it. This needs what is known of a value that
was read itself: its integers have 64 bits, the keys of its objects are in order, and brackets are
not nested too deeply in it.

Writing has escapes of its own, so each character is compared with the spellings that reading knows.
Values go by induction on how deep brackets may be nested.
-/

namespace Telemetry.Json

variable {s t r : Bytes}

/-! ### What loops read -/

/-- A value that a scanner reads off the front of some bytes. -/
def Reads {α : Type} (f : Scan α) (x : α) : Prop := ∃ s r, f s = .ok (x, r)

section Loops

variable {σ α : Type} {P : σ → Prop} {first : Bool} {x y : σ}

/-- What every item keeps is kept by the loop over items. -/
theorem foldItems_invariant {item : σ → Bytes → Except Fault (σ × Bytes)}
    (hitem : ∀ x s y r, P x → item x s = .ok (y, r) → P y) (hx : P x)
    (h : foldItems item first x s = .ok (y, r)) : P y := by
  fun_induction foldItems item first x s with
  | case1 => cases h
  | case2 =>
    cases h
    exact hx
  | case3 => cases h
  | case4 first x s t _ z u hone _ ih => exact ih (hitem x t z u hx hone) h
  | case5 => cases h

theorem foldMembers_invariant {member : σ → String → Bytes → Except Fault (σ × Bytes)}
    (hmember : ∀ x key s y r, P x → member x key s = .ok (y, r) → P y) (hx : P x)
    (h : foldMembers member first x s = .ok (y, r)) : P y := by
  fun_induction foldMembers member first x s with
  | case1 => cases h
  | case2 =>
    cases h
    exact hx
  | case3 => cases h
  | case4 first x s key t _ z u hone _ ih => exact ih (hmember x key t z u hx hone) h
  | case5 => cases h

/-- The items of a list were read. -/
theorem reads_of_readList {item : Scan α} {xs : List α} (h : readList item s = .ok (xs, r)) :
    ∀ x ∈ xs, Reads item x := by
  obtain ⟨⟨ys, u⟩, hfold, h⟩ := bind_eq_ok_iff.mp h
  obtain ⟨v, -, h⟩ := bind_eq_ok_iff.mp h
  cases h
  have hall : ∀ x ∈ ys, Reads item x := by
    refine foldItems_invariant (P := fun xs => ∀ x ∈ xs, Reads item x)
      (fun xs s zs r hxs h => ?_) (List.forall_mem_nil _) hfold
    obtain ⟨⟨x, r⟩, hone, h⟩ := bind_eq_ok_iff.mp h
    cases h
    exact List.forall_mem_cons.mpr ⟨⟨s, r, hone⟩, hxs⟩
  exact fun x hx => hall x (List.mem_reverse.mp hx)

/-- The values of the members of an object were read. -/
theorem reads_of_readMembers {value : Scan α} {ms : List (String × α)}
    (h : readMembers value s = .ok (ms, r)) : ∀ m ∈ ms, Reads value m.2 := by
  obtain ⟨⟨ns, u⟩, hfold, h⟩ := bind_eq_ok_iff.mp h
  obtain ⟨v, -, h⟩ := bind_eq_ok_iff.mp h
  cases h
  have hall : ∀ m ∈ ns, Reads value m.2 := by
    refine foldMembers_invariant (P := fun ms => ∀ m ∈ ms, Reads value m.2)
      (fun ms key s ns r hms h => ?_) (List.forall_mem_nil _) hfold
    obtain ⟨t, -, h⟩ := bind_eq_ok_iff.mp h
    obtain ⟨⟨x, r⟩, hone, h⟩ := bind_eq_ok_iff.mp h
    cases h
    exact List.forall_mem_cons.mpr ⟨⟨t, r, hone⟩, hms⟩
  exact fun m hm => hall m (List.mem_reverse.mp hm)

end Loops

/-! ### Characters -/

/-- ASCII is written as it is. -/
theorem encode_eq_map {cs : List Char} (h : ∀ c ∈ cs, c.toNat < 0x80) :
    Text.Utf8.encode cs = cs.map Byte.ofAscii := by
  induction cs with
  | nil => rfl
  | cons c cs ih =>
    obtain ⟨hc, hcs⟩ := List.forall_mem_cons.mp h
    rw [Text.Utf8.encode, List.flatMap_cons, Text.Utf8.encodeChar, if_pos hc]
    exact congrArg _ (ih hcs)

theorem encode_append (cs ds : List Char) :
    Text.Utf8.encode (cs ++ ds) = Text.Utf8.encode cs ++ Text.Utf8.encode ds :=
  List.flatMap_append

/-- A byte in hexadecimal is four digits, of which the first two are zeros. -/
theorem spellsHex_hexChar {n : Nat} (h : n < 0x100) :
    SpellsHex n [Byte.zero, Byte.zero, Byte.ofAscii (hexChar (n / 16)),
      Byte.ofAscii (hexChar (n % 16))] := by
  have hzero : SpellsDigit 0 Byte.zero := .lower (by decide)
  have hhex := SpellsHex.digits hzero hzero (.lower (d := n / 16) (by omega))
    (.lower (d := n % 16) (by omega))
  rwa [show ((0 * 16 + 0) * 16 + n / 16) * 16 + n % 16 = n by omega] at hhex

/-- However a character is escaped, that is one of its spellings. -/
theorem spellsChar_escapedChar (c : Char) : SpellsChar c (Text.Utf8.encode (escapedChar c)) := by
  -- the letters that are written are some of those that are read
  have hletter : ∀ e ∈ letterEscapes, SpellsChar e.2 (Text.Utf8.encode ['\\', e.1]) := by
    have hencode : ∀ e ∈ letterEscapes, Text.Utf8.encode ['\\', e.1] =
        [Byte.backslash, Byte.ofAscii e.1] := by
      decide
    intro e he
    rw [hencode e he]
    exact .letter he
  unfold escapedChar
  split
  case h_1 => exact hletter ('"', '"') (by decide)
  case h_2 => exact hletter ('\\', '\\') (by decide)
  case h_3 => exact hletter ('b', '\x08') (by decide)
  case h_4 => exact hletter ('f', '\x0c') (by decide)
  case h_5 => exact hletter ('n', '\n') (by decide)
  case h_6 => exact hletter ('r', '\r') (by decide)
  case h_7 => exact hletter ('t', '\t') (by decide)
  case h_8 hquote hbackslash _ _ _ _ _ =>
    split
    case isTrue hc =>
      have hdigit : ∀ d < 16, (hexChar d).toNat < 0x80 := by decide
      rw [encode_eq_map]
      · exact .number (spellsHex_hexChar (by omega))
      · have hhigh := hdigit (c.toNat / 16) (by omega)
        have hlow := hdigit (c.toNat % 16) (by omega)
        simp [hhigh, hlow]
    case isFalse hc =>
      rw [Text.Utf8.encode, List.flatMap_singleton]
      exact .plain (Nat.not_lt.mp hc) hquote hbackslash

/-- The text of a string is one of its spellings. -/
theorem spellsString_stringChars (text : String) :
    SpellsString text (Text.Utf8.encode (stringChars text)) := by
  have hchars (cs : List Char) : SpellsChars cs (Text.Utf8.encode (cs.flatMap escapedChar)) := by
    induction cs with
    | nil => exact .nil
    | cons c cs ih =>
      rw [List.flatMap_cons, encode_append]
      exact .cons (spellsChar_escapedChar c) ih
  have hquoted := SpellsString.quoted (hchars text.toList)
  rwa [stringChars, List.cons_append, ← List.singleton_append, encode_append, encode_append]

/-- The text of an integer is its numeral. -/
theorem encode_toString (n : Int) : Text.Utf8.encode (toString n).toList = ascii (toString n) := by
  -- the sign and the digits are ASCII
  have hnat (m : Nat) : ∀ c ∈ (toString m).toList, c.toNat < 0x80 := by
    intro c hc
    rw [show (toString m).toList = Nat.toDigits 10 m from Nat.toList_repr] at hc
    have hdigit := Nat.isDigit_of_mem_toDigits (by decide) (by decide) hc
    simp only [Char.isDigit, Bool.and_eq_true, decide_eq_true_eq, ge_iff_le,
      UInt32.le_iff_toNat_le] at hdigit
    exact Nat.lt_of_le_of_lt hdigit.2 (by decide)
  refine encode_eq_map ?_
  cases n with
  | ofNat m => exact hnat m
  | negSucc m =>
    have hsign : toString (Int.negSucc m) = "-" ++ toString (m + 1) := rfl
    rw [hsign, String.toList_append]
    exact List.forall_mem_append.mpr ⟨by simp, hnat (m + 1)⟩

/-! ### Items and members -/

section Brackets

variable {α : Type} {opening closing : UInt8} {P : α → Bytes → Prop}

/-- Spellings with nothing but commas between them. -/
theorem separated_intercalate {x : α} {xs : List α} {ts : List Bytes} (hx : P x t)
    (h : List.Forall₂ P xs ts) : Separated P (x :: xs) ([Byte.comma].intercalate (t :: ts)) := by
  induction h generalizing x t with
  | nil =>
    rw [List.intercalate_singleton]
    exact .one (.self hx)
  | cons hy _ ih =>
    rw [List.intercalate_cons_cons, List.append_assoc]
    exact .more (.self hx) (ih hy)

theorem enclosed_intercalate {xs : List α} {ts : List Bytes} (h : List.Forall₂ P xs ts) :
    Enclosed opening closing P xs (opening :: ([Byte.comma].intercalate ts ++ [closing])) := by
  cases h with
  | nil => exact .nothing .nil
  | cons hx h => exact .items (separated_intercalate hx h)

end Brackets

theorem encode_intercalate (texts : List (List Char)) :
    Text.Utf8.encode ([','].intercalate texts) =
      [Byte.comma].intercalate (texts.map Text.Utf8.encode) := by
  induction texts with
  | nil => rfl
  | cons cs texts ih =>
    cases texts with
    | nil => simp only [List.map_cons, List.map_nil, List.intercalate_singleton]
    | cons ds texts =>
      rw [List.map_cons] at ih
      rw [List.intercalate_cons_cons, encode_append, encode_append, ih, List.map_cons,
        List.map_cons, List.intercalate_cons_cons]
      rfl

theorem itemChars_eq_map (items : List Value) : itemChars items = items.map Value.chars := by
  induction items with
  | nil => rfl
  | cons x items ih => rw [itemChars, ih, List.map_cons]

/-- The text of a member: its key, a colon and its value. -/
def memberText (m : String × Value) : List Char := stringChars m.1 ++ ':' :: m.2.chars

theorem memberChars_eq_map (members : List (String × Value)) :
    memberChars members = members.map memberText := by
  induction members with
  | nil => rfl
  | cons m members ih => rw [memberChars, ih, List.map_cons, memberText]

/-! ### Values -/

/-- A value with no doubles in it. -/
inductive Value.IsExact : Value → Prop where
  | null : IsExact .null
  | boolean (b : Bool) : IsExact (.boolean b)
  | integer (n : Int) : IsExact (.number (.integer n))
  | string (text : String) : IsExact (.string text)
  | array {items : List Value} : (∀ x ∈ items, x.IsExact) → IsExact (.array items)
  | object {members : List (String × Value)} :
    (∀ m ∈ members, m.2.IsExact) → IsExact (.object members)

/-- The bytes of the text of a value. -/
theorem Value.ofString_text (x : Value) :
    Text.Utf8.ofString x.text = Text.Utf8.encode x.chars := by
  rw [Text.Utf8.ofString, text, String.toList_ofList]

/-- An integer that was read has 64 bits, so its text is one of its spellings. -/
theorem spellsInteger_text {n : Int} (h : readNumber s = .ok (.integer n, r)) :
    SpellsInteger n (Text.Utf8.encode (toString n).toList) := by
  obtain ⟨_, ⟨hlow, hhigh, -⟩, -⟩ := between_of_readNumber h
  exact ⟨hlow, hhigh, encode_toString n⟩

theorem spellsFound_text {found : Found} {x : Value} (hvalue : found.value? = some x)
    (hfound : readFound s = .ok (found, r)) (hx : x.IsExact) :
    SpellsFound found (Text.Utf8.encode x.chars) := by
  cases found with
  | null =>
    cases hvalue
    exact .null
  | boolean b =>
    cases hvalue
    cases b <;> exact .boolean rfl
  | number n =>
    cases hvalue
    cases hx with
    | integer n => exact .number (spellsInteger_text (readNumber_of_readFound hfound))
  | string text =>
    cases hvalue
    exact .string (spellsString_stringChars text)
  | list => cases hvalue
  | object => cases hvalue

theorem spells_text_array {depth : Nat} {items : List Value}
    (h : ∀ x ∈ items, Spells depth x (Text.Utf8.encode x.chars)) :
    Spells (depth + 1) (.array items) (Text.Utf8.encode (Value.array items).chars) := by
  have hitems : List.Forall₂ (Spells depth) items
      ((items.map Value.chars).map Text.Utf8.encode) := by
    rw [List.map_map, List.forall₂_map_right_iff, List.forall₂_same]
    exact h
  have hlisted : Listed (Spells depth) items _ := enclosed_intercalate hitems
  rw [Spells, Value.chars, itemChars_eq_map, List.cons_append, ← List.singleton_append,
    encode_append, encode_append, encode_intercalate]
  exact hlisted

theorem spells_text_object {depth : Nat} {members : List (String × Value)}
    (hmembers : members.Pairwise (·.1 < ·.1))
    (h : ∀ m ∈ members, Spells depth m.2 (Text.Utf8.encode m.2.chars)) :
    Spells (depth + 1) (.object members) (Text.Utf8.encode (Value.object members).chars) := by
  have hmember : ∀ m ∈ members, Member (SpellsString m.1) (Spells depth m.2)
      (Text.Utf8.encode (memberText m)) := by
    intro m hm
    rw [memberText, encode_append]
    exact .colon (spellsString_stringChars m.1) .nil .nil (h m hm)
  have htexts : List.Forall₂ (fun m => Member (SpellsString m.1) (Spells depth m.2)) members
      ((members.map memberText).map Text.Utf8.encode) := by
    rw [List.map_map, List.forall₂_map_right_iff, List.forall₂_same]
    exact hmember
  rw [Spells, Value.chars, memberChars_eq_map, List.cons_append, ← List.singleton_append,
    encode_append, encode_append, encode_intercalate]
  exact ⟨hmembers, members, .refl members, enclosed_intercalate htexts⟩

/-- The text of a value that was read is one of its spellings. -/
theorem spells_text {depth : Nat} {x : Value} (h : Reads (readValue depth) x) (hx : x.IsExact) :
    Spells depth x (Text.Utf8.encode x.chars) := by
  induction depth generalizing x with
  | zero =>
    obtain ⟨s, r, h⟩ := h
    obtain ⟨found, hvalue, hfound, -⟩ | ⟨d, t, items, hd, -⟩ | ⟨d, t, ms, hd, -⟩ :=
      readValue_cases h
    · exact .of_value? hvalue (spellsFound_text hvalue hfound hx)
    · omega
    · omega
  | succ depth ih =>
    obtain ⟨s, r, h⟩ := h
    obtain ⟨found, hvalue, hfound, -⟩ | ⟨_, t, items, ⟨rfl⟩, rfl, -, hlist⟩ |
      ⟨_, t, ms, ⟨rfl⟩, rfl, -, hobject⟩ := readValue_cases h
    · exact .of_value? hvalue (spellsFound_text hvalue hfound hx)
    · cases hx with
      | array hitems =>
        exact spells_text_array fun x hx => ih (reads_of_readList hlist x hx) (hitems x hx)
    · cases hx with
      | object hmembers =>
        -- members that were replaced need not be exact
        exact spells_text_object (pairwise_sortMembers ms) fun m hm =>
          ih (reads_of_readMembers hobject m (mem_of_mem_sortMembers hm)) (hmembers m hm)

/-- A value that was read is read back from its text. -/
theorem Value.read?_text {depth : Nat} (hdepth : depth ≤ depthLimit) {x : Value}
    (h : Reads (readValue depth) x) (hx : x.IsExact) :
    Value.read? (Text.Utf8.ofString x.text) = .ok x := by
  have hnil : Follows [] := by simp [Follows]
  have hread := readValue_of_spells hdepth (spells_text h hx) .nil hnil
  rw [List.nil_append, List.append_nil, ← Value.ofString_text] at hread
  exact readWhole_eq_ok_iff.mpr ⟨[], hread, .nil⟩

/-- An integer that was read is read back from its text. -/
theorem Value.read?_text_integer {n : Int} (h : Reads readNumber (.integer n)) :
    Value.read? (Text.Utf8.ofString (Value.number (.integer n)).text) =
      .ok (.number (.integer n)) := by
  obtain ⟨s, r, hread⟩ := h
  rw [Value.ofString_text]
  exact Value.read?_eq_integer_iff.mpr (.self (spellsInteger_text hread))

end Telemetry.Json
