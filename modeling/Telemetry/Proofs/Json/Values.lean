import Mathlib.Data.String.Basic
import Telemetry.Json.Reader
import Telemetry.Proofs.Json.Brackets

/-!
# Reading values

Every spelling of a value is read back as the value, whatever its blanks, escapes and order of
members (`readValue_of_spells`), and values that nobody asks for are passed over
(`skipValue_of_isJson`). Both go by induction on how deep brackets are nested.
-/

namespace Telemetry.Json

variable {b s t rest : Bytes} {c : UInt8}

/-! ### First bytes -/

/-- Numbers begin with a minus or a digit. -/
theorem ofByte?_eq_number (h : c = Byte.minus ∨ Byte.isDigit c = true) :
    Start.ofByte? c = some .number := by
  have hword : ∀ b ∈ ascii "ntf", b ≠ Byte.minus ∧ Byte.isDigit b = false := by decide +kernel
  have hne : ∀ b ∈ ascii "ntf", c ≠ b := by
    rintro b hb rfl
    obtain ⟨hminus, hdigit⟩ := hword c hb
    rcases h with h | h
    · exact hminus h
    · rw [hdigit] at h
      cases h
  rw [Start.ofByte?, if_neg (hne _ (by decide)), if_neg (hne _ (by decide)),
    if_neg (hne _ (by decide)), if_pos h]

theorem beginsValue_number (h : ∃ c t, s = c :: t ∧ (c = Byte.minus ∨ Byte.isDigit c = true)) :
    BeginsValue s := by
  obtain ⟨c, t, rfl, hc⟩ := h
  exact ⟨c, t, rfl, by rw [ofByte?_eq_number hc]; rfl⟩

theorem Enclosed.begins {α : Type} {opening closing : UInt8} {P : α → Bytes → Prop} {xs : List α}
    (h : Enclosed opening closing P xs s) (hopening : (Start.ofByte? opening).isSome = true) :
    BeginsValue s := by
  cases h with
  | nothing _ => exact ⟨_, _, rfl, hopening⟩
  | items _ => exact ⟨_, _, rfl, hopening⟩

/-! ### Values without brackets -/

/-- Spellings of what is not a list and not an object. -/
inductive SpellsFound : Found → Bytes → Prop where
  | null : SpellsFound .null (ascii "null")
  | boolean {b : Bool} {s : Bytes} : SpellsBool b s → SpellsFound (.boolean b) s
  | number {n : Int} {s : Bytes} : SpellsInteger n s → SpellsFound (.number (.integer n)) s
  | string {text : String} {s : Bytes} : SpellsString text s → SpellsFound (.string text) s

theorem SpellsFound.begins {found : Found} (h : SpellsFound found s) : BeginsValue s := by
  cases h with
  | null => exact ⟨_, _, rfl, by decide⟩
  | @boolean b _ h =>
    cases h
    cases b <;> exact ⟨_, _, rfl, by decide⟩
  | number h => exact beginsValue_number h.exists_cons
  | string h =>
    obtain ⟨t, rfl, -⟩ := readString_of_spells h []
    exact ⟨_, t, rfl, by decide⟩

/-- What is not a list and not an object is found behind blanks. -/
theorem readFound_of_spells {found : Found} (h : SpellsFound found s) (hb : Blank b)
    (hrest : Follows rest) : readFound (skipBlanks (b ++ (s ++ rest))) = .ok (found, rest) := by
  rw [(h.begins.append rest).skipBlanks hb]
  cases h with
  | null => rfl
  | @boolean b _ h =>
    cases h
    cases b <;> rfl
  | number h =>
    obtain ⟨c, t, rfl, hc⟩ := h.exists_cons
    have hread := readNumber_of_spells h hrest
    rw [List.cons_append] at hread ⊢
    simp [readFound, ofByte?_eq_number hc, hread, bind, Except.bind]
  | string h =>
    obtain ⟨t, rfl, hread⟩ := readString_of_spells h rest
    simp [readFound, show Start.ofByte? Byte.quote = some .string by decide, hread, bind,
      Except.bind]

/-- An opening bracket is found behind blanks. -/
theorem readFound_object (hb : Blank b) (s : Bytes) :
    readFound (skipBlanks (b ++ Byte.openObject :: s)) = .ok (.object, Byte.openObject :: s) := by
  rw [skipBlanks_append_cons hb (by decide)]
  rfl

/-! ### Members in order -/

section Sorting

variable {α : Type} {key : String} {x : α} {ms written : List (String × α)}

theorem insertMember_perm (h : ∀ m ∈ ms, key ≠ m.1) :
    (insertMember key x ms).Perm ((key, x) :: ms) := by
  induction ms with
  | nil => exact .refl _
  | cons m ms ih =>
    obtain ⟨hm, hms⟩ := List.forall_mem_cons.mp h
    rw [insertMember, if_neg hm]
    split
    · exact .refl _
    · exact ((ih hms).cons m).trans (.swap (key, x) m ms)

theorem mem_insertMember {m : String × α} (h : m ∈ insertMember key x ms) :
    m = (key, x) ∨ m ∈ ms := by
  induction ms with
  | nil => exact .inl (List.mem_singleton.mp h)
  | cons m' ms ih =>
    rw [insertMember] at h
    split at h
    · exact List.mem_cons.mp h
    · split at h
      · exact (List.mem_cons.mp h).imp_right (List.mem_cons_of_mem m')
      · obtain rfl | h := List.mem_cons.mp h
        · exact .inr List.mem_cons_self
        · exact (ih h).imp_right (List.mem_cons_of_mem m')

/-- A member is put behind the members with smaller keys, in the place of one with the same key. -/
theorem pairwise_insertMember (hms : ms.Pairwise (·.1 < ·.1)) :
    (insertMember key x ms).Pairwise (·.1 < ·.1) := by
  induction ms with
  | nil => exact List.pairwise_singleton _ _
  | cons m ms ih =>
    obtain ⟨hfirst, hrest⟩ := List.pairwise_cons.mp hms
    rw [insertMember]
    split
    case isTrue hlt =>
      refine List.pairwise_cons.mpr ⟨List.forall_mem_cons.mpr ⟨hlt, fun m' hm' => ?_⟩, hms⟩
      exact lt_trans hlt (hfirst m' hm')
    case isFalse hlt =>
      split
      case isTrue heq =>
        exact List.pairwise_cons.mpr ⟨fun m' hm' => heq ▸ hfirst m' hm', hrest⟩
      case isFalse hne =>
        refine List.pairwise_cons.mpr ⟨fun m' hm' => ?_, ih hrest⟩
        obtain rfl | hm' := mem_insertMember hm'
        · exact lt_of_le_of_ne (not_lt.mp hlt) (Ne.symm hne)
        · exact hfirst m' hm'

/-- Members are sorted one after the other. -/
theorem sortMembers_concat (ms : List (String × α)) (m : String × α) :
    sortMembers (ms ++ [m]) = insertMember m.1 m.2 (sortMembers ms) := by
  rw [sortMembers, List.foldl_concat]
  rfl

theorem mem_of_mem_sortMembers {m : String × α} (h : m ∈ sortMembers ms) : m ∈ ms := by
  induction ms using List.reverseRecOn with
  | nil => exact h
  | append_singleton ms m' ih =>
    rw [sortMembers_concat] at h
    obtain rfl | h := mem_insertMember h
    · exact List.mem_append_right _ (List.mem_singleton_self _)
    · exact List.mem_append_left _ (ih h)

/-- Whatever members are written, they are put into the order of their keys, each key once. -/
theorem pairwise_sortMembers (ms : List (String × α)) : (sortMembers ms).Pairwise (·.1 < ·.1) := by
  induction ms using List.reverseRecOn with
  | nil => exact .nil
  | append_singleton ms m ih =>
    rw [sortMembers_concat]
    exact pairwise_insertMember ih

/-- No member is lost if the keys are distinct. -/
theorem sortMembers_perm (h : ms.Pairwise (·.1 ≠ ·.1)) : (sortMembers ms).Perm ms := by
  induction ms using List.reverseRecOn with
  | nil => exact .refl []
  | append_singleton ms m ih =>
    obtain ⟨hms, -, hm⟩ := List.pairwise_append.mp h
    have hnew : ∀ m' ∈ sortMembers ms, m.1 ≠ m'.1 := fun m' hm' =>
      (hm m' (mem_of_mem_sortMembers hm') m (List.mem_singleton_self m)).symm
    rw [sortMembers_concat]
    exact (insertMember_perm hnew).trans (((ih hms).cons m).trans
      (List.perm_append_singleton m ms).symm)

/-- Members in any order are brought into the order of their keys, if these are distinct. -/
theorem sortMembers_eq_of_perm (hms : ms.Pairwise (·.1 < ·.1)) (h : written.Perm ms) :
    sortMembers written = ms := by
  have hdistinct : written.Pairwise (·.1 ≠ ·.1) :=
    (h.pairwise_iff fun h => h.symm).mpr (hms.imp ne_of_lt)
  exact ((sortMembers_perm hdistinct).trans h).eq_of_pairwise
    (fun _ _ _ _ hab hba => absurd hab (lt_asymm hba)) (pairwise_sortMembers written) hms

end Sorting

/-! ### Values of any depth -/

/-- The value of what is found, unless that is a bracket. -/
def Found.value? : Found → Option Value
  | .null => some .null
  | .boolean b => some (.boolean b)
  | .number n => some (.number n)
  | .string text => some (.string text)
  | .list | .object => none

theorem readValue_of_value? {found : Found} {x : Value} (hvalue : found.value? = some x)
    (h : readFound (skipBlanks s) = .ok (found, rest)) (limit : Nat) :
    readValue limit s = .ok (x, rest) := by
  rw [readValue.eq_def, h]
  cases found <;> cases hvalue <;> rfl

/-- Behind an opening bracket, a value is what is read as a list or as an object. -/
theorem readValue_of_list {depth : Nat} {items : List Value}
    (hs : skipBlanks s = Byte.openList :: t)
    (h : readList (readValue depth) t = .ok (items, rest)) :
    readValue (depth + 1) s = .ok (.array items, rest) := by
  rw [readValue, hs]
  exact bind_eq_ok_iff.mpr ⟨(.list, _), rfl, bind_eq_ok_iff.mpr ⟨(items, rest), h, rfl⟩⟩

theorem readValue_of_object {depth : Nat} {ms : List (String × Value)}
    (hs : skipBlanks s = Byte.openObject :: t)
    (h : readMembers (readValue depth) t = .ok (ms, rest)) :
    readValue (depth + 1) s = .ok (.object (sortMembers ms), rest) := by
  rw [readValue, hs]
  exact bind_eq_ok_iff.mpr ⟨(.object, _), rfl, bind_eq_ok_iff.mpr ⟨(ms, rest), h, rfl⟩⟩

theorem Spells.of_value? {depth : Nat} {found : Found} {x : Value} (hvalue : found.value? = some x)
    (h : SpellsFound found s) : Spells depth x s := by
  unfold Spells
  cases h <;> cases hvalue
  case null => rfl
  all_goals assumption

/-- A spelling is that of a value without brackets, of a list or of an object. -/
theorem Spells.cases {depth : Nat} {x : Value} (h : Spells depth x s) :
    (∃ found : Found, found.value? = some x ∧ SpellsFound found s) ∨
    (∃ d items, depth = d + 1 ∧ x = .array items ∧ Listed (Spells d) items s) ∨
    (∃ d members written, depth = d + 1 ∧ x = .object members ∧
      members.Pairwise (·.1 < ·.1) ∧ written.Perm members ∧
        Membered (fun m => Member (SpellsString m.1) (Spells d m.2)) written s) := by
  unfold Spells at h
  split at h
  case h_1 => exact .inl ⟨.null, rfl, h ▸ .null⟩
  case h_2 b => exact .inl ⟨.boolean b, rfl, .boolean h⟩
  case h_3 n => exact .inl ⟨.number (.integer n), rfl, .number h⟩
  case h_4 => cases h
  case h_5 text => exact .inl ⟨.string text, rfl, .string h⟩
  case h_6 items =>
    split at h
    · cases h
    · exact .inr (.inl ⟨_, items, rfl, rfl, h⟩)
  case h_7 members =>
    split at h
    · cases h
    · obtain ⟨hmembers, written, hperm, h⟩ := h
      exact .inr (.inr ⟨_, members, written, rfl, rfl, hmembers, hperm, h⟩)

theorem Spells.begins {depth : Nat} {x : Value} (h : Spells depth x s) : BeginsValue s := by
  obtain ⟨found, -, h⟩ | ⟨d, items, -, -, h⟩ | ⟨d, members, written, -, -, -, -, h⟩ := h.cases
  · exact h.begins
  · exact h.begins (by decide)
  · exact h.begins (by decide)

/-- Every spelling of a value is read back as the value, if there are brackets enough for it. -/
theorem readValue_of_spells {depth limit : Nat} {x : Value} (hdepth : depth ≤ limit)
    (h : Spells depth x s) (hb : Blank b) (hrest : Follows rest) :
    readValue limit (b ++ (s ++ rest)) = .ok (x, rest) := by
  induction limit generalizing depth x b s rest with
  | zero =>
    obtain ⟨found, hvalue, h⟩ | ⟨d, items, rfl, -⟩ | ⟨d, members, written, rfl, -⟩ := h.cases
    · exact readValue_of_value? hvalue (readFound_of_spells h hb hrest) 0
    · omega
    · omega
  | succ limit ih =>
    obtain ⟨found, hvalue, h⟩ | ⟨d, items, rfl, rfl, h⟩ |
      ⟨d, members, written, rfl, rfl, hmembers, hperm, h⟩ := h.cases
    · exact readValue_of_value? hvalue (readFound_of_spells h hb hrest) (limit + 1)
    · obtain ⟨t, rfl, hread⟩ := readList_yields (readValue limit) .ok
        (fun x s hx => hx.begins)
        (fun x s rest hx hrest => ih (by omega) hx .nil hrest) h
      have hlist : readList (readValue limit) (t ++ rest) = .ok (items, rest) := by
        have hyields := hread rest
        rwa [mapM_ok] at hyields
      exact readValue_of_list (skipBlanks_append_cons hb (by decide) (t ++ rest)) hlist
    · obtain ⟨t, rfl, hread⟩ := readMembers_yields (readValue limit)
        (fun m : String × Value => .ok m.2)
        (fun m b s rest hb hm hrest => ih (by omega) hm hb hrest) h
      have hobject : readMembers (readValue limit) (t ++ rest) = .ok (written, rest) := by
        have hyields := hread rest
        rwa [mapM_map_ok] at hyields
      have hread :=
        readValue_of_object (skipBlanks_append_cons hb (by decide) (t ++ rest)) hobject
      rwa [sortMembers_eq_of_perm hmembers hperm] at hread

/-! ### Values nobody asks for -/

theorem IsJson.begins {depth : Nat} (h : IsJson depth s) : BeginsValue s := by
  unfold IsJson at h
  obtain h | h | h | h := h
  · have hword : ∀ w ∈ [ascii "null", ascii "true", ascii "false"], BeginsValue w := by
      simp only [List.forall_mem_cons]
      exact ⟨⟨_, _, rfl, by decide⟩, ⟨_, _, rfl, by decide⟩, ⟨_, _, rfl, by decide⟩, by simp⟩
    exact hword s h
  · exact beginsValue_number h.exists_cons
  · obtain ⟨t, rfl, -⟩ := skipString_of_isString h []
    exact ⟨_, t, rfl, by decide⟩
  · cases depth with
    | zero => cases h
    | succ depth =>
      obtain ⟨items, h⟩ | ⟨members, h⟩ := h
      · exact h.begins (by decide)
      · exact h.begins (by decide)

section Lengths

variable {α : Type} {P Q : α → Bytes → Prop} {xs : List α} {n : Nat}

theorem Separated.imp_of_length (h : ∀ x t, t.length ≤ n → P x t → Q x t)
    (hs : Separated P xs s) (hn : s.length ≤ n) : Separated Q xs s := by
  have hpadded {x : α} {s : Bytes} (hx : Padded (P x) s) (hn : s.length ≤ n) :
      Padded (Q x) s := by
    cases hx with
    | blanks ha hs hb =>
      simp only [List.length_append] at hn
      exact .blanks ha (h x _ (by omega) hs) hb
  induction hs with
  | one hx => exact .one (hpadded hx hn)
  | more hx _ ih =>
    simp only [List.length_append, List.length_cons] at hn
    exact .more (hpadded hx (by omega)) (ih (by omega))

/-- What stands between brackets is shorter than what stands there with them. -/
theorem Enclosed.imp_of_length {opening closing : UInt8}
    (h : ∀ x t, t.length ≤ n → P x t → Q x t) (hs : Enclosed opening closing P xs s)
    (hn : s.length ≤ n + 1) : Enclosed opening closing Q xs s := by
  cases hs with
  | nothing hs => exact .nothing hs
  | items hs =>
    simp only [List.length_cons, List.length_append, List.length_nil] at hn
    exact .items (hs.imp_of_length h (by omega))

end Lengths

/-- There are no more brackets in a value than bytes. -/
theorem IsJson.of_length_le {depth limit : Nat} (h : IsJson depth s) (hs : s.length ≤ limit) :
    IsJson limit s := by
  induction limit generalizing depth s with
  | zero => exact absurd (List.length_eq_zero_iff.mp (Nat.le_zero.mp hs)) h.begins.ne_nil
  | succ limit ih =>
    unfold IsJson at h ⊢
    obtain h | h | h | h := h
    · exact .inl h
    · exact .inr (.inl h)
    · exact .inr (.inr (.inl h))
    · cases depth with
      | zero => cases h
      | succ depth =>
        obtain ⟨items, h⟩ | ⟨members, h⟩ := h
        · exact .inr (.inr (.inr (.inl ⟨items, h.imp_of_length (fun _ t ht hx => ih hx ht) hs⟩)))
        · refine .inr (.inr (.inr (.inr ⟨members, h.imp_of_length (fun _ t ht hx => ?_) hs⟩)))
          cases hx with
          | colon hkey ha hb hx =>
            simp only [List.length_append, List.length_cons] at ht
            exact .colon hkey ha hb (ih hx (by omega))

/-- A key is passed over, and the colon behind it. -/
theorem skipKey_append {k a : Bytes} (hb : Blank b) (hkey : IsString k) (ha : Blank a) (s : Bytes) :
    skipKey (b ++ (k ++ (a ++ Byte.colon :: s))) = .ok s := by
  obtain ⟨t, rfl, hskip⟩ := skipString_of_isString hkey (a ++ Byte.colon :: s)
  rw [List.cons_append, skipKey, skipBlanks_append_cons hb (by decide)]
  simp [hskip, readColon_append ha, bind, Except.bind]

/-- Words, numbers and strings are passed over at any depth. -/
theorem skipNested_plain (depth : Nat)
    (h : s ∈ [ascii "null", ascii "true", ascii "false"] ∨ IsNumber s ∨ IsString s)
    (hb : Blank b) (hrest : Follows rest) : skipNested depth (b ++ (s ++ rest)) = .ok rest := by
  have hjson : IsJson 0 s := by
    rw [IsJson]
    exact h.imp id (Or.imp id .inl)
  have hskip := (hjson.begins.append rest).skipBlanks hb
  rw [skipNested.eq_def, hskip]
  obtain h | h | h := h
  · simp only [List.mem_cons, List.not_mem_nil, or_false] at h
    obtain rfl | rfl | rfl := h <;> rfl
  · obtain ⟨c, t, rfl, hc⟩ := h.exists_cons
    have hnumeral := skipNumeral_of_isNumber h hrest
    rw [List.cons_append] at hnumeral ⊢
    simp only [ofByte?_eq_number hc, hnumeral]
  · obtain ⟨t, rfl, hstring⟩ := skipString_of_isString h rest
    exact hstring

/-- A value is passed over, if there are brackets enough for it. -/
theorem skipNested_of_isJson {depth : Nat} (h : IsJson depth s) (hb : Blank b)
    (hrest : Follows rest) : skipNested depth (b ++ (s ++ rest)) = .ok rest := by
  induction depth generalizing b s rest with
  | zero =>
    rw [IsJson] at h
    refine skipNested_plain 0 (h.imp id (Or.imp id fun h => ?_)) hb hrest
    exact h.resolve_right id
  | succ depth ih =>
    rw [IsJson] at h
    obtain h | h | h | ⟨items, h⟩ | ⟨members, h⟩ := h
    · exact skipNested_plain _ (.inl h) hb hrest
    · exact skipNested_plain _ (.inr (.inl h)) hb hrest
    · exact skipNested_plain _ (.inr (.inr h)) hb hrest
    · have hbegins (_ : Unit) (s : Bytes) (hs : IsJson depth s) :
          ∃ c t, s = c :: t ∧ Byte.isBlank c = false ∧ c ≠ Byte.closeList := by
        obtain ⟨c, t, rfl, hc⟩ := hs.begins
        obtain ⟨hblank, -, hlist, -⟩ := ne_of_isStart hc
        exact ⟨c, t, rfl, hblank, hlist⟩
      obtain ⟨t, rfl, hskip⟩ := skipBracket_of_enclosed .list (skipNested depth) hbegins
        (fun _ b s rest hb hs hrest => ih hs hb hrest) h
      rw [skipNested, List.cons_append, skipBlanks_append_cons hb (by decide)]
      exact hskip rest
    · have hbegins (_ : Unit) (s : Bytes) (hs : Member IsString (IsJson depth) s) :
          ∃ c t, s = c :: t ∧ Byte.isBlank c = false ∧ c ≠ Byte.closeObject := by
        cases hs with
        | colon hkey _ _ _ =>
          obtain ⟨t, rfl, -⟩ := skipString_of_isString hkey []
          exact ⟨_, _, rfl, by decide⟩
      have hitem (_ : Unit) (b s rest : Bytes) (hb : Blank b)
          (hs : Member IsString (IsJson depth) s) (hrest : Follows rest) :
          (do skipNested depth (← skipKey (b ++ (s ++ rest)))) = .ok rest := by
        cases hs with
        | @colon k a b' s hkey ha hb' hs =>
          rw [show k ++ (a ++ Byte.colon :: (b' ++ s)) ++ rest =
            k ++ (a ++ Byte.colon :: (b' ++ (s ++ rest))) by simp, skipKey_append hb hkey ha]
          exact ih hs hb' hrest
      obtain ⟨t, rfl, hskip⟩ := skipBracket_of_enclosed .object
        (fun s => do skipNested depth (← skipKey s)) hbegins hitem h
      rw [skipNested, List.cons_append, skipBlanks_append_cons hb (by decide)]
      exact hskip rest

/-- A value is passed over, however deep brackets are nested in it. -/
theorem skipValue_of_isJson {depth : Nat} (h : IsJson depth s) (hb : Blank b)
    (hrest : Follows rest) : skipValue (b ++ (s ++ rest)) = .ok rest :=
  skipNested_of_isJson (h.of_length_le (by simp; omega)) hb hrest

end Telemetry.Json
