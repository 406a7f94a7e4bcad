import Mathlib.Data.Fintype.Card
import Telemetry.Proofs.Schema.WellFormed

/-!
# Consistent documents

Which documents describe a schema, and which schema that is. `Document.Consistent` says of the
document alone what it takes, without regard to the order in which things are examined, and
`Message.DescribedBy` says entry by entry what becomes of it.

A loop over entries is described by what it adds to the entries accepted before, which is anything
that keeps these well formed (`checkFields_eq_ok_iff`, `examineAfter_eq_iff`). What is left is to
carry conditions over from the message types to the entries that describe them
(`Document.consistent_iff`).
-/

namespace Telemetry

/-! ### Names -/

/-- The ASCII letters. -/
def IsLetter (c : Char) : Prop := ('A' ≤ c ∧ c ≤ 'Z') ∨ ('a' ≤ c ∧ c ≤ 'z')

/-- The decimal digits. -/
def IsDigit (c : Char) : Prop := '0' ≤ c ∧ c ≤ '9'

/-- The names that C allows: letters, digits and underscores, at least one of them, and no digit in
front. -/
structure IsName (name : String) : Prop where
  ne_nil : name.toList ≠ []
  char : ∀ c ∈ name.toList, IsLetter c ∨ IsDigit c ∨ c = '_'
  head : ∀ c ∈ name.toList.head?, ¬IsDigit c

theorem isAlpha_iff {c : Char} : c.isAlpha = true ↔ IsLetter c := by
  simp [Char.isAlpha, Char.isUpper, Char.isLower, IsLetter, Char.le_def]

theorem isAlphanum_iff {c : Char} : c.isAlphanum = true ↔ IsLetter c ∨ IsDigit c := by
  simp [Char.isAlphanum, isAlpha_iff, Char.isDigit, IsDigit, Char.le_def]

theorem not_isDigit_of_isLetter {c : Char} (h : IsLetter c) : ¬IsDigit c := by
  simp only [IsLetter, IsDigit, Char.le_def, UInt32.le_iff_toNat_le] at h ⊢
  have hA : 'A'.val.toNat = 65 := rfl
  have ha : 'a'.val.toNat = 97 := rfl
  have h9 : '9'.val.toNat = 57 := rfl
  omega

theorem isNameChar_iff {c : Char} :
    (c == '_' || c.isAlphanum) = true ↔ IsLetter c ∨ IsDigit c ∨ c = '_' := by
  rw [Bool.or_eq_true, beq_iff_eq, isAlphanum_iff, or_comm, or_assoc]

theorem isNameStart_iff {c : Char} :
    (c == '_' || c.isAlpha) = true ↔ (IsLetter c ∨ IsDigit c ∨ c = '_') ∧ ¬IsDigit c := by
  rw [Bool.or_eq_true, beq_iff_eq, isAlpha_iff]
  constructor
  · rintro (rfl | h)
    · exact ⟨.inr (.inr rfl), by unfold IsDigit; decide⟩
    · exact ⟨.inl h, not_isDigit_of_isLetter h⟩
  · rintro ⟨h | h | h, hdigit⟩
    · exact .inr h
    · exact absurd h hdigit
    · exact .inl h

/-- The identifiers are the names that C allows. -/
theorem isIdentifier_iff {name : String} : isIdentifier name = true ↔ IsName name := by
  unfold isIdentifier
  cases hname : name.toList with
  | nil => exact iff_of_false (by simp) fun h => h.ne_nil hname
  | cons c cs =>
    simp only [Bool.and_eq_true, List.all_eq_true, isNameChar_iff, isNameStart_iff]
    constructor
    · rintro ⟨⟨hc, hdigit⟩, hcs⟩
      refine ⟨by simp [hname], ?_, ?_⟩
      · rw [hname]
        exact List.forall_mem_cons.mpr ⟨hc, hcs⟩
      · rw [hname]
        intro d hd
        cases hd
        exact hdigit
    · rintro ⟨-, hchar, hhead⟩
      rw [hname] at hchar hhead
      obtain ⟨hc, hcs⟩ := List.forall_mem_cons.mp hchar
      exact ⟨⟨hc, hhead c rfl⟩, hcs⟩

/-- Two names that differ at most in the case of letters. -/
def SameLetters (a b : String) : Prop := a.map Char.toLower = b.map Char.toLower

instance (a b : String) : Decidable (SameLetters a b) := inferInstanceAs (Decidable (_ = _))

theorem toNat_toUpper (c : Char) :
    c.toUpper.toNat = if 97 ≤ c.toNat ∧ c.toNat ≤ 122 then c.toNat - 32 else c.toNat := by
  by_cases h : 'a'.val ≤ c.val ∧ c.val ≤ 'z'.val
  · have hn : 97 ≤ c.toNat ∧ c.toNat ≤ 122 := h
    have hwidth : ('A'.val - 'a'.val).toNat = 4294967264 := by decide
    rw [Char.toUpper, dif_pos h, if_pos hn]
    simp only [Char.toNat, UInt32.toNat_add, hwidth] at hn ⊢
    omega
  · rw [Char.toUpper, dif_neg h, if_neg (show ¬(97 ≤ c.toNat ∧ c.toNat ≤ 122) from h)]

theorem toNat_toLower (c : Char) :
    c.toLower.toNat = if 65 ≤ c.toNat ∧ c.toNat ≤ 90 then c.toNat + 32 else c.toNat := by
  by_cases h : c.val ≥ 'A'.val ∧ c.val ≤ 'Z'.val
  · have hn : 65 ≤ c.toNat ∧ c.toNat ≤ 90 := h
    have hwidth : ('a'.val - 'A'.val).toNat = 32 := by decide
    rw [Char.toLower, dif_pos h, if_pos hn]
    simp only [Char.toNat, UInt32.toNat_add, hwidth] at hn ⊢
    omega
  · rw [Char.toLower, dif_neg h, if_neg (show ¬(65 ≤ c.toNat ∧ c.toNat ≤ 90) from h)]

/-- Characters are equal in upper case exactly if they are equal in lower case. -/
theorem toUpper_eq_iff {c d : Char} : c.toUpper = d.toUpper ↔ c.toLower = d.toLower := by
  rw [← Char.toNat_inj, ← Char.toNat_inj, toNat_toUpper, toNat_toUpper, toNat_toLower,
    toNat_toLower]
  split <;> split <;> split <;> split <;> omega

/-- Names differ in more than the case of letters exactly if their constants differ. -/
theorem constantOf_eq_iff {a b : String} : constantOf a = constantOf b ↔ SameLetters a b := by
  have hmap (xs ys : List Char) :
      xs.map Char.toUpper = ys.map Char.toUpper ↔ xs.map Char.toLower = ys.map Char.toLower := by
    induction xs generalizing ys with
    | nil => cases ys <;> simp
    | cons x xs ih =>
      cases ys with
      | nil => simp
      | cons y ys => simp only [List.map_cons, List.cons.injEq, toUpper_eq_iff, ih]
  simp only [constantOf, SameLetters, ← String.toList_inj, String.toList_map, hmap]

/-! ### What a document says -/

/-- A definition that makes sense by itself: the id is an integer that fits in a byte, field names
are names of which none is used twice, and type codes are integers up to seven. -/
structure Definition.Consistent (x : Definition) : Prop where
  id : ∃ n : Nat, n ≤ 255 ∧ x.id = some (.integer n)
  names : ∀ f ∈ x.fields, IsName f.1
  distinct : (x.fields.map Prod.fst).Nodup
  codes : ∀ f ∈ x.fields, ∃ n : Nat, n ≤ 7 ∧ f.2 = .number (.integer n)

/-- A document that makes sense: it has an entry, each makes sense by itself, and no two have the
same id or the same name but for the case of letters. -/
structure Document.Consistent (d : Document) : Prop where
  ne_nil : d ≠ []
  names : ∀ e ∈ d, IsName e.1
  definitions : ∀ e ∈ d, e.2.Consistent
  ids : (d.map fun e => e.2.id).Nodup
  distinct : d.Pairwise fun a b => ¬SameLetters a.1 b.1

/-- The field that a name and a type code describe. -/
structure Field.DescribedBy (f : Field) (x : String × Json.Value) : Prop where
  name : f.name = x.1
  code : x.2 = .number (.integer f.type.code.toNat)

/-- The message type that an entry of a document describes. -/
structure Message.DescribedBy (m : Message) (e : String × Definition) : Prop where
  name : m.name = e.1
  ident : m.ident = e.1.map Char.toUpper
  id : e.2.id = some (.integer m.id.toNat)
  bundle : m.bundle = e.2.bundle
  fields : List.Forall₂ Field.DescribedBy m.fields e.2.fields

/-! ### What the loops accept -/

/-- The value that stands for a wire type is its code as an integer. -/
theorem WireType.ofValue?_eq_some_iff {code : Json.Value} {t : WireType} :
    ofValue? code = some t ↔ code = .number (.integer t.code.toNat) := by
  constructor
  · intro h
    unfold ofValue? at h
    split at h
    · next n =>
      split at h
      · next hn =>
        have hcode := ofCode?_eq_some_iff.mp h
        rw [← hcode, Int.toNat_of_nonneg hn]
      · cases h
    · cases h
  · rintro rfl
    simp [ofValue?]

/-- The fields accepted after others are those described, if they keep the whole well formed. -/
theorem checkFields_eq_ok_iff {message : String} {earlier fields : List Field}
    {described : List (String × Json.Value)} (he : FieldsWellFormed earlier) :
    checkFields message earlier described = .ok fields ↔
      ∃ new, fields = earlier ++ new ∧ List.Forall₂ Field.DescribedBy new described ∧
        FieldsWellFormed fields := by
  induction described generalizing earlier with
  | nil =>
    rw [checkFields, Except.ok.injEq]
    constructor
    · rintro rfl
      exact ⟨[], by simp, .nil, he⟩
    · rintro ⟨new, rfl, hnew, -⟩
      cases hnew
      simp
  | cons x rest ih =>
    obtain ⟨name, code⟩ := x
    rw [checkFields, bind_eq_ok_iff]
    constructor
    · rintro ⟨f, hf, hrest⟩
      obtain ⟨hid, hnew, htype, rfl⟩ := checkField_eq_ok_iff.mp hf
      obtain ⟨new, rfl, hdescribed, hall⟩ := (ih (he.concat hid hnew)).mp hrest
      refine ⟨f :: new, by simp, .cons ⟨rfl, ?_⟩ hdescribed, hall⟩
      exact WireType.ofValue?_eq_some_iff.mp htype
    · rintro ⟨new, rfl, hdescribed, hall⟩
      cases hdescribed with
      | @cons f _ new _ hf hdescribed =>
        -- the first of the new fields is compared with the earlier ones only
        obtain ⟨rfl, hcode⟩ := hf
        have hid := hall.identifier f (by simp)
        have hnew := ne_of_nodup_map hall.distinct
        have htype := WireType.ofValue?_eq_some_iff.mpr hcode
        refine ⟨f, checkField_eq_ok_iff.mpr ⟨hid, hnew, htype, rfl⟩, ?_⟩
        exact (ih (he.concat hid hnew)).mpr ⟨new, by simp, hdescribed, hall⟩

/-- An id is accepted exactly if it is an integer that fits in a byte. -/
theorem checkId_eq_ok_iff {message : String} {raw : Option Json.Number} {id : UInt8} :
    checkId message raw = .ok id ↔ raw = some (.integer id.toNat) := by
  constructor
  · intro h
    unfold checkId at h
    split at h
    · cases h
    · next n =>
      split at h
      · cases h
      · next hn =>
        split at h
        · next hle =>
          cases h
          have hbyte : n.toNat.toUInt8.toNat = n.toNat := by
            simp only [Nat.toUInt8, UInt8.toNat_ofNat']
            omega
          rw [hbyte, Int.toNat_of_nonneg (by omega)]
        · cases h
    · dsimp only at h
      split at h <;> cases h
  · rintro rfl
    have hlt := id.toNat_lt
    rw [checkId, if_neg (by omega), if_pos (by omega)]
    simp

/-- A message type passes the checks by itself exactly if it is the one described and is well
formed. -/
theorem checkMessage_eq_ok_iff {name : String} {x : Definition} {m : Message} :
    checkMessage name x = .ok m ↔ m.DescribedBy (name, x) ∧ m.WellFormed := by
  have hnil : FieldsWellFormed [] := ⟨by simp, by simp⟩
  simp only [checkMessage, bind_eq_ok_iff, checkIdentifier_eq_ok_iff, exists_const,
    checkId_eq_ok_iff, checkFields_eq_ok_iff hnil, List.nil_append, exists_eq_left']
  constructor
  · rintro ⟨hname, id, hid, fields, ⟨hdescribed, hfields⟩, hm⟩
    cases hm
    exact ⟨⟨rfl, rfl, hid, rfl, hdescribed⟩, ⟨hname, rfl, hfields⟩⟩
  · rintro ⟨⟨rfl, -, hid, hbundle, hdescribed⟩, ⟨hname, hident, hfields⟩⟩
    refine ⟨hname, m.id, hid, m.fields, ⟨hdescribed, hfields⟩, ?_⟩
    rw [← hident, ← hbundle]

/-- The message types accepted after others are those described, if they keep the whole well formed.
-/
theorem examineAfter_eq_iff {earlier messages : List Message} {d : Document}
    (he : MessagesWellFormed earlier) :
    examineAfter earlier d = ⟨messages, none⟩ ↔
      ∃ new, messages = earlier ++ new ∧ List.Forall₂ Message.DescribedBy new d ∧
        MessagesWellFormed messages := by
  induction d generalizing earlier with
  | nil =>
    simp only [examineAfter, Examination.mk.injEq, and_true]
    constructor
    · rintro rfl
      exact ⟨[], by simp, .nil, he⟩
    · rintro ⟨new, rfl, hnew, -⟩
      cases hnew
      simp
  | cons entry rest ih =>
    obtain ⟨name, x⟩ := entry
    constructor
    · intro h
      rw [examineAfter] at h
      split at h
      · simp at h
      · next m hm =>
        obtain ⟨hcheck, hid, hident⟩ := accept_eq_ok_iff.mp hm
        obtain ⟨hdescribed, hwell⟩ := checkMessage_eq_ok_iff.mp hcheck
        obtain ⟨new, rfl, hrest, hall⟩ := (ih (he.concat hwell hid hident)).mp h
        exact ⟨m :: new, by simp, .cons hdescribed hrest, hall⟩
    · rintro ⟨new, rfl, hdescribed, hall⟩
      cases hdescribed with
      | @cons m _ new _ hm hrest =>
        -- the first of the new message types is compared with the earlier ones only
        have hwell := hall.each m (by simp)
        have hid := ne_of_nodup_map hall.ids
        have hident := ne_of_nodup_map hall.idents
        have haccept : accept earlier name x = .ok m :=
          accept_eq_ok_iff.mpr ⟨checkMessage_eq_ok_iff.mpr ⟨hm, hwell⟩, hid, hident⟩
        rw [examineAfter, haccept]
        exact (ih (he.concat hwell hid hident)).mpr ⟨new, by simp, hrest, hall⟩

/-- There are no more message types than ids. -/
theorem MessagesWellFormed.length_le {messages : List Message} (h : MessagesWellFormed messages) :
    messages.length ≤ 256 := by
  have hcard : Fintype.card UInt8 = 256 := by decide +kernel
  have hids := h.ids.length_le_card
  rwa [List.length_map, hcard] at hids

/-- A schema is that of a document exactly if it is well formed and the document describes it. -/
theorem Schema.ofDocument?_eq_ok_iff {d : Document} {s : Schema} :
    ofDocument? d = .ok s ↔
      d ≠ [] ∧ List.Forall₂ Message.DescribedBy s.messages d ∧ MessagesWellFormed s.messages := by
  have hexamine : examineAfter [] d = ⟨s.messages, none⟩ ↔
      List.Forall₂ Message.DescribedBy s.messages d ∧ MessagesWellFormed s.messages := by
    simp only [examineAfter_eq_iff messagesWellFormed_nil, List.nil_append, exists_eq_left']
  rw [← hexamine, ofDocument?, Examination.schema?, Document.examine]
  by_cases hd : d = []
  · simp [hd]
  · rw [if_neg hd]
    simp only [ne_eq, hd, not_false_eq_true, true_and]
    cases hx : examineAfter [] d with
    | mk accepted problem =>
      cases s
      cases problem <;> simp

/-! ### Consistency -/

/-- A value stands for a wire type exactly if it is an integer up to seven. -/
theorem exists_describedBy_field_iff {x : String × Json.Value} :
    (∃ f : Field, f.DescribedBy x) ↔ ∃ n : Nat, n ≤ 7 ∧ x.2 = .number (.integer n) := by
  constructor
  · rintro ⟨f, hf⟩
    have hle (t : WireType) : t.code.toNat ≤ 7 := by cases t <;> decide
    exact ⟨_, hle f.type, hf.code⟩
  · rintro ⟨n, hn, hx⟩
    obtain ⟨t, ht⟩ : ∃ t, WireType.ofCode? n = some t := by
      interval_cases n <;> exact ⟨_, rfl⟩
    exact ⟨⟨x.1, t⟩, rfl, WireType.ofCode?_eq_some_iff.mp ht ▸ hx⟩

/-- Fields are well formed exactly if their names are names of which none is used twice. -/
theorem fieldsWellFormed_iff {fields : List Field} :
    FieldsWellFormed fields ↔
      (∀ name ∈ fields.map Field.name, IsName name) ∧ (fields.map Field.name).Nodup := by
  rw [List.forall_mem_map]
  exact ⟨fun h => ⟨fun f hf => isIdentifier_iff.mp (h.identifier f hf), h.distinct⟩,
    fun h => ⟨fun f hf => isIdentifier_iff.mpr (h.1 f hf), h.2⟩⟩

/-- An entry describes a well-formed message type exactly if it makes sense by itself. -/
theorem exists_describedBy_message_iff {e : String × Definition} :
    (∃ m : Message, m.WellFormed ∧ m.DescribedBy e) ↔ IsName e.1 ∧ e.2.Consistent := by
  have hnames {fields : List Field} (h : List.Forall₂ Field.DescribedBy fields e.2.fields) :
      fields.map Field.name = e.2.fields.map Prod.fst :=
    map_eq_map_of_forall₂ h fun _ _ hf => hf.name
  constructor
  · rintro ⟨m, hwell, hm⟩
    obtain ⟨hfields, hdistinct⟩ := fieldsWellFormed_iff.mp hwell.fields
    rw [hnames hm.fields] at hfields hdistinct
    have hcodes := exists_forall₂_iff.mp ⟨m.fields, hm.fields⟩
    refine ⟨hm.name ▸ isIdentifier_iff.mp hwell.identifier, ?_, ?_, hdistinct, ?_⟩
    · exact ⟨m.id.toNat, Nat.le_of_lt_succ m.id.toNat_lt, hm.id⟩
    · exact List.forall_mem_map.mp hfields
    · exact fun f hf => exists_describedBy_field_iff.mp (hcodes f hf)
  · rintro ⟨hname, ⟨n, hn, hid⟩, hfields, hdistinct, hcodes⟩
    obtain ⟨fields, hdescribed⟩ := exists_forall₂_iff.mpr fun f hf =>
      exists_describedBy_field_iff.mpr (hcodes f hf)
    have hbyte : n.toUInt8.toNat = n := by
      simp only [Nat.toUInt8, UInt8.toNat_ofNat']
      omega
    have hwell : FieldsWellFormed fields := by
      rw [fieldsWellFormed_iff, hnames hdescribed]
      exact ⟨List.forall_mem_map.mpr hfields, hdistinct⟩
    refine ⟨⟨e.1, constantOf e.1, n.toUInt8, e.2.bundle, fields⟩,
      ⟨isIdentifier_iff.mpr hname, rfl, hwell⟩, ⟨rfl, rfl, ?_, rfl, hdescribed⟩⟩
    rw [hbyte, hid]

/-- A document describes well-formed message types exactly if it is consistent. -/
theorem Document.consistent_iff {d : Document} :
    d.Consistent ↔ d ≠ [] ∧ ∃ messages, List.Forall₂ Message.DescribedBy messages d ∧
      MessagesWellFormed messages := by
  -- ids and constants are distinct among the message types as they are among the entries
  have hids {messages : List Message} (h : List.Forall₂ Message.DescribedBy messages d) :
      (d.map fun e => e.2.id).Nodup ↔ (messages.map Message.id).Nodup := by
    have hmap : (messages.map Message.id).map (fun id => some (Json.Number.integer id.toNat)) =
        d.map fun e => e.2.id := by
      rw [List.map_map]
      exact map_eq_map_of_forall₂ h fun _ _ hm => hm.id.symm
    rw [← hmap, List.nodup_map_iff]
    intro a b hab
    simpa [UInt8.toNat_inj] using hab
  have hidents {messages : List Message} (h : List.Forall₂ Message.DescribedBy messages d) :
      d.Pairwise (fun a b => ¬SameLetters a.1 b.1) ↔ (messages.map Message.ident).Nodup := by
    have hmap : messages.map Message.ident = d.map fun e => constantOf e.1 :=
      map_eq_map_of_forall₂ h fun _ _ hm => hm.ident
    rw [hmap, List.Nodup, List.pairwise_map]
    simp only [ne_eq, constantOf_eq_iff]
  constructor
  · intro h
    obtain ⟨messages, hmessages⟩ := exists_forall₂_iff.mpr fun e he =>
      exists_describedBy_message_iff.mpr ⟨h.names e he, h.definitions e he⟩
    obtain ⟨heach, hdescribed⟩ := (List.forall₂_and_left _ _).mp hmessages
    exact ⟨h.ne_nil, messages, hdescribed, heach, (hids hdescribed).mp h.ids,
      (hidents hdescribed).mp h.distinct⟩
  · rintro ⟨hne, messages, hdescribed, hwell⟩
    have hboth := (List.forall₂_and_left _ _).mpr ⟨hwell.each, hdescribed⟩
    have hentries : ∀ e ∈ d, IsName e.1 ∧ e.2.Consistent := fun e he =>
      exists_describedBy_message_iff.mp (exists_forall₂_iff.mp ⟨messages, hboth⟩ e he)
    exact ⟨hne, fun e he => (hentries e he).1, fun e he => (hentries e he).2,
      (hids hdescribed).mpr hwell.ids, (hidents hdescribed).mpr hwell.idents⟩

namespace Schema

/-- A document describes a schema exactly if it is consistent. Nothing is lost: the message types of
the schema are those that the entries describe, one for each in order, of which there can be no more
than there are ids. -/
theorem exists_ofDocument?_iff_consistent (d : Document) :
    ((∃ s, ofDocument? d = .ok s) ↔ d.Consistent) ∧
      ∀ s, ofDocument? d = .ok s →
        List.Forall₂ Message.DescribedBy s.messages d ∧ s.messages.length = d.length ∧
          d.length ≤ 256 := by
  refine ⟨?_, fun s hs => ?_⟩
  · rw [Document.consistent_iff]
    constructor
    · rintro ⟨s, hs⟩
      obtain ⟨hne, hmessages⟩ := ofDocument?_eq_ok_iff.mp hs
      exact ⟨hne, s.messages, hmessages⟩
    · rintro ⟨hne, messages, hmessages⟩
      exact ⟨⟨messages⟩, ofDocument?_eq_ok_iff.mpr ⟨hne, hmessages⟩⟩
  · obtain ⟨-, hdescribed, hwell⟩ := ofDocument?_eq_ok_iff.mp hs
    have hlength := hdescribed.length_eq
    exact ⟨hdescribed, hlength, hlength ▸ hwell.length_le⟩

/-- The same two definitions under names that differ in a mark, and in case only. -/
theorem exists_ofDocument?_iff_consistent_case :
    let x : Definition := ⟨some (.integer 7), true, [("t", .number (.integer 6))]⟩
    let y : Definition := ⟨some (.integer 0), false, []⟩
    let d : Document := [("aB", x), ("Ab_", y)]
    (∃ s, ofDocument? d = .ok s ∧ List.Forall₂ Message.DescribedBy s.messages d) ∧
      d.Consistent ∧ ¬∃ s, ofDocument? [("aB", x), ("Ab", y)] = .ok s := by
  intro x y d
  have hs : ofDocument? d =
      .ok ⟨[⟨"aB", "AB", 7, true, [⟨"t", .uint32⟩]⟩, ⟨"Ab_", "AB_", 0, false, []⟩]⟩ := by
    decide +kernel
  obtain ⟨hiff, hall⟩ := exists_ofDocument?_iff_consistent d
  refine ⟨⟨_, hs, (hall _ hs).1⟩, hiff.mp ⟨_, hs⟩, fun h => ?_⟩
  have hconsistent := (exists_ofDocument?_iff_consistent [("aB", x), ("Ab", y)]).1.mp h
  have hdiffer := List.rel_of_pairwise_cons hconsistent.distinct (List.mem_singleton_self _)
  refine hdiffer (show SameLetters "aB" "Ab" from ?_)
  rw [SameLetters, ← String.toList_inj, String.toList_map, String.toList_map]
  decide

end Schema

end Telemetry
