import Telemetry.Proofs.Schema.Consistent

/-!
# Refused documents

A document that describes no schema goes wrong at one entry: the entries in front of it make sense
together, and with it they do not. What is reported is what is wrong with that entry first
(`EntryProblem`), whatever comes behind it. Its name comes first, then its id, then its fields one
by one; only then is it compared with the entries before it.

The loops over entries and over fields are both folds that may fail, so one lemma on these finds the
place of the problem (`foldlM_eq_error_iff`).
-/

namespace Telemetry

/-! ### What can be wrong -/

/-- What is wrong with an id: there is none, it is no integer of a byte, or it is too large for one.
A number that is no integer is too large only from the bound on from which integers are no longer
told apart from it. -/
inductive IdProblem (message : String) : Option Json.Number → SchemaError → Prop where
  | absent : IdProblem message none (.missingId message none)
  | negative {n : Int} : n < 0 →
    IdProblem message (some (.integer n)) (.missingId message (some (Json.Number.integer n).text))
  | large {n : Int} : 255 < n →
    IdProblem message (some (.integer n)) (.idOutOfRange message (Json.Number.integer n).text)
  | double {negative : Bool} {x : Binary64} : negative = true ∨ x.atLeast integerBound = false →
    IdProblem message (some (.double negative x))
      (.missingId message (some (Json.Number.double negative x).text))
  | huge {x : Binary64} : x.atLeast integerBound = true →
    IdProblem message (some (.double false x))
      (.idOutOfRange message (Json.Number.double false x).text)

/-- What is wrong with a field first, behind fields of some names: its name, then that another has
the same, then its type code. -/
inductive FieldProblem (message : String) (names : List String) (f : String × Json.Value) :
    SchemaError → Prop where
  | name : ¬IsName f.1 → FieldProblem message names f (.invalidIdentifier f.1)
  | repeated : IsName f.1 → f.1 ∈ names → FieldProblem message names f (.duplicateField message f.1)
  | code : IsName f.1 → f.1 ∉ names → (¬∃ n : Nat, n ≤ 7 ∧ f.2 = .number (.integer n)) →
    FieldProblem message names f (.unknownType message f.1 f.2.text)

/-- What is wrong with an entry by itself first: its name, then its id, then its fields one by one,
so those in front of one that is wrong make sense. -/
inductive MessageProblem (m : String × Definition) : SchemaError → Prop where
  | name : ¬IsName m.1 → MessageProblem m (.invalidIdentifier m.1)
  | id {e : SchemaError} : IsName m.1 → IdProblem m.1 m.2.id e → MessageProblem m e
  | field {before after : List (String × Json.Value)} {f : String × Json.Value} {e : SchemaError} :
    IsName m.1 → m.2.fields = before ++ f :: after →
      Definition.Consistent { m.2 with fields := before } →
        FieldProblem m.1 (before.map Prod.fst) f e → MessageProblem m e

/-- What is wrong with an entry first, behind other entries. Only an entry that makes sense by
itself is compared with these, first by id, then by name without regard to case; there is a single
one that it collides with. -/
inductive EntryProblem (earlier : Document) (m : String × Definition) : SchemaError → Prop where
  | alone {e : SchemaError} : MessageProblem m e → EntryProblem earlier m e
  | sameId {before after : Document} {x : String × Definition} {id : UInt8} : IsName m.1 →
    m.2.Consistent → m.2.id = some (.integer id.toNat) → earlier = before ++ x :: after →
      x.2.id = m.2.id → (∀ y ∈ before ++ after, y.2.id ≠ m.2.id) →
        EntryProblem earlier m (.duplicateId id x.1 m.1)
  | sameName {before after : Document} {x : String × Definition} : IsName m.1 → m.2.Consistent →
    (∀ y ∈ earlier, y.2.id ≠ m.2.id) → earlier = before ++ x :: after → SameLetters x.1 m.1 →
      (∀ y ∈ before ++ after, ¬SameLetters y.1 m.1) →
        EntryProblem earlier m (.duplicateName (m.1.map Char.toUpper) x.1 m.1)

/-! ### What the checks report -/

theorem checkIdentifier_eq_error_iff {name : String} {e : SchemaError} :
    checkIdentifier name = .error e ↔ ¬IsName name ∧ e = .invalidIdentifier name := by
  rw [← isIdentifier_iff, checkIdentifier]
  split
  case isTrue h => simp [h]
  case isFalse h => simp [h, eq_comm]

theorem checkId_eq_error_iff {message : String} {raw : Option Json.Number} {e : SchemaError} :
    checkId message raw = .error e ↔ IdProblem message raw e := by
  constructor
  · intro h
    unfold checkId at h
    split at h
    · cases h
      exact .absent
    · next n =>
      split at h
      · next hn =>
        cases h
        exact .negative hn
      · split at h
        · cases h
        · next hn =>
          cases h
          exact .large (by omega)
    · next negative x =>
      dsimp only at h
      split at h
      · next hx =>
        simp only [Bool.and_eq_true, Bool.not_eq_true'] at hx
        obtain ⟨rfl, hx⟩ := hx
        cases h
        exact .huge hx
      · next hx =>
        cases h
        refine .double ?_
        cases negative with
        | true => exact .inl rfl
        | false => exact .inr (by simpa using hx)
  · intro h
    cases h with
    | absent => rfl
    | negative hn => rw [checkId, if_pos hn]
    | large hn => rw [checkId, if_neg (by omega), if_neg (by omega)]
    | double hx =>
      rw [checkId, if_neg]
      rcases hx with rfl | hx <;> simp [*]
    | huge hx => rw [checkId, if_pos (by simp [hx])]

/-- A value stands for no wire type exactly if it is no integer up to seven. -/
theorem WireType.ofValue?_eq_none_iff {code : Json.Value} :
    ofValue? code = none ↔ ¬∃ n : Nat, n ≤ 7 ∧ code = .number (.integer n) := by
  rw [← exists_describedBy_field_iff (x := ("", code)), Option.eq_none_iff_forall_ne_some]
  constructor
  · rintro h ⟨f, hf⟩
    exact h f.type (ofValue?_eq_some_iff.mpr hf.code)
  · intro h t ht
    exact h ⟨⟨"", t⟩, rfl, ofValue?_eq_some_iff.mp ht⟩

theorem checkField_eq_error_iff {message : String} {earlier : List Field}
    {f : String × Json.Value} {e : SchemaError} :
    checkField message earlier f.1 f.2 = .error e ↔
      FieldProblem message (earlier.map Field.name) f e := by
  have hmem : earlier.any (·.name = f.1) = true ↔ f.1 ∈ earlier.map Field.name := by simp
  rw [checkField, bind_eq_error_iff, checkIdentifier_eq_error_iff]
  constructor
  · rintro (⟨hname, rfl⟩ | ⟨u, hname, h⟩)
    · exact .name hname
    · have hname := isIdentifier_iff.mp (checkIdentifier_eq_ok_iff.mp hname)
      split at h
      · next hany =>
        cases h
        exact .repeated hname (hmem.mp hany)
      · next hany =>
        split at h
        · next hcode =>
          cases h
          exact .code hname (mt hmem.mpr hany) (WireType.ofValue?_eq_none_iff.mp hcode)
        · cases h
  · have hok (hname : IsName f.1) : checkIdentifier f.1 = .ok () :=
      checkIdentifier_eq_ok_iff.mpr (isIdentifier_iff.mpr hname)
    intro h
    cases h with
    | name hname => exact .inl ⟨hname, rfl⟩
    | repeated hname h => exact .inr ⟨(), hok hname, by rw [if_pos (hmem.mpr h)]⟩
    | code hname hnew hcode =>
      refine .inr ⟨(), hok hname, ?_⟩
      rw [if_neg (mt hmem.mp hnew), WireType.ofValue?_eq_none_iff.mpr hcode]

/-- The loop over fields as a fold. -/
theorem checkFields_eq_foldlM (message : String) (earlier : List Field)
    (described : List (String × Json.Value)) :
    checkFields message earlier described = described.foldlM
      (fun fields x => (checkField message fields x.1 x.2).map (fields ++ [·])) earlier := by
  induction described generalizing earlier with
  | nil => rfl
  | cons x described ih =>
    rw [checkFields, List.foldlM_cons]
    cases checkField message earlier x.1 x.2 with
    | error e => rfl
    | ok f => exact ih (earlier ++ [f])

/-- Fields are refused for the first one that is wrong. -/
theorem checkFields_eq_error_iff {message : String} {described : List (String × Json.Value)}
    {e : SchemaError} :
    checkFields message [] described = .error e ↔
      ∃ before f after, described = before ++ f :: after ∧
        (∃ fields, checkFields message [] before = .ok fields) ∧
          FieldProblem message (before.map Prod.fst) f e := by
  have hmap (fields : List Field) (x : Except SchemaError Field) :
      x.map (fields ++ [·]) = .error e ↔ x = .error e := by
    cases x <;> simp [Except.map]
  have hnames {before : List (String × Json.Value)} {fields : List Field}
      (h : checkFields message [] before = .ok fields) :
      fields.map Field.name = before.map Prod.fst := by
    obtain ⟨new, rfl, hdescribed, -⟩ := (checkFields_eq_ok_iff ⟨by simp, by simp⟩).mp h
    exact map_eq_map_of_forall₂ hdescribed fun _ _ hf => hf.name
  rw [checkFields_eq_foldlM, foldlM_eq_error_iff]
  simp only [← checkFields_eq_foldlM, hmap, checkField_eq_error_iff]
  constructor
  · rintro ⟨before, f, after, fields, hsplit, hbefore, hf⟩
    exact ⟨before, f, after, hsplit, ⟨fields, hbefore⟩, hnames hbefore ▸ hf⟩
  · rintro ⟨before, f, after, hsplit, ⟨fields, hbefore⟩, hf⟩
    exact ⟨before, f, after, fields, hsplit, hbefore, hnames hbefore ▸ hf⟩

/-- An entry passes the checks by itself exactly if it makes sense by itself. -/
theorem exists_checkMessage_eq_ok_iff {name : String} {x : Definition} :
    (∃ m, checkMessage name x = .ok m) ↔ IsName name ∧ x.Consistent := by
  simp only [checkMessage_eq_ok_iff, and_comm (b := Message.WellFormed _)]
  exact exists_describedBy_message_iff (e := (name, x))

/-- An entry is refused by itself for what is wrong with it first. -/
theorem checkMessage_eq_error_iff {m : String × Definition} {e : SchemaError} :
    checkMessage m.1 m.2 = .error e ↔ MessageProblem m e := by
  have hok (hname : IsName m.1) : checkIdentifier m.1 = .ok () :=
    checkIdentifier_eq_ok_iff.mpr (isIdentifier_iff.mpr hname)
  -- the fields in front of a problem are those of a definition that makes sense
  have hfront {before : List (String × Json.Value)} (hname : IsName m.1) :
      Definition.Consistent { m.2 with fields := before } ↔
        ∃ id fields, checkId m.1 m.2.id = .ok id ∧ checkFields m.1 [] before = .ok fields := by
    have hiff : (∃ y, checkMessage m.1 { m.2 with fields := before } = .ok y) ↔ _ :=
      exists_checkMessage_eq_ok_iff
    rw [and_iff_right hname] at hiff
    simp [← hiff, checkMessage, bind_eq_ok_iff, hok hname]
  rw [checkMessage, bind_eq_error_iff, checkIdentifier_eq_error_iff]
  simp only [bind_eq_error_iff, checkId_eq_error_iff, checkFields_eq_error_iff, reduceCtorEq,
    and_false, exists_false, or_false]
  constructor
  · rintro (⟨hname, rfl⟩ | ⟨u, hname, h⟩)
    · exact .name hname
    · have hname := isIdentifier_iff.mp (checkIdentifier_eq_ok_iff.mp hname)
      obtain h | ⟨id, hid, before, f, after, hsplit, ⟨fields, hbefore⟩, hf⟩ := h
      · exact .id hname h
      · exact .field hname hsplit ((hfront hname).mpr ⟨id, fields, hid, hbefore⟩) hf
  · intro h
    cases h with
    | name hname => exact .inl ⟨hname, rfl⟩
    | id hname h => exact .inr ⟨(), hok hname, .inl h⟩
    | @field before after f _ hname hsplit hconsistent hf =>
      obtain ⟨id, fields, hid, hbefore⟩ := (hfront hname).mp hconsistent
      exact .inr ⟨(), hok hname, .inr ⟨id, hid, before, f, after, hsplit, ⟨fields, hbefore⟩, hf⟩⟩

/-! ### Collisions -/

/-- What is found first in a list corresponds to what is found first in a related one. -/
theorem find?_rel {α β : Type} {R : α → β → Prop} {p : α → Bool} {q : β → Bool} {l : List α}
    {l' : List β} (h : List.Forall₂ R l l') (hpq : ∀ a b, R a b → p a = q b) :
    Option.Rel R (l.find? p) (l'.find? q) := by
  induction h with
  | nil => exact .none
  | @cons a b l l' hab _ ih =>
    rw [List.find?_cons, List.find?_cons, hpq a b hab]
    cases q b with
    | true => exact .some hab
    | false => exact ih

/-- Among things with distinct keys, the one with a key is found, and it is the only one. -/
theorem find?_key_eq_some_iff {α κ : Type} [DecidableEq κ] {f : α → κ} {l : List α}
    (h : (l.map f).Nodup) {k : κ} {x : α} :
    l.find? (f · = k) = some x ↔
      ∃ before after, l = before ++ x :: after ∧ f x = k ∧ ∀ y ∈ before ++ after, f y ≠ k := by
  rw [List.find?_eq_some_iff_append]
  simp only [decide_eq_true_eq, Bool.not_eq_true', decide_eq_false_iff_not]
  constructor
  · rintro ⟨rfl, before, after, rfl, hbefore⟩
    refine ⟨before, after, rfl, rfl, fun y hy => ?_⟩
    have hnodup := (List.perm_middle.map f).nodup_iff.mp h
    rw [List.map_cons, List.nodup_cons] at hnodup
    exact fun heq => hnodup.1 (heq ▸ List.mem_map_of_mem hy)
  · rintro ⟨before, after, rfl, hx, hothers⟩
    exact ⟨hx, before, after, rfl, fun y hy => hothers y (List.mem_append_left after hy)⟩

/-- An entry that makes sense by itself is compared with the entries that the message types before
it are described by. -/
theorem accept_of_checkMessage {messages : List Message} {earlier : Document}
    {m : String × Definition} {new : Message}
    (h : List.Forall₂ Message.DescribedBy messages earlier)
    (hnew : checkMessage m.1 m.2 = .ok new) :
    accept messages m.1 m.2 =
      match earlier.find? (·.2.id = m.2.id) with
      | some x => .error (.duplicateId new.id x.1 m.1)
      | none =>
        match earlier.find? (fun y => y.1.map Char.toLower = m.1.map Char.toLower) with
        | some x => .error (.duplicateName (m.1.map Char.toUpper) x.1 m.1)
        | none => .ok new := by
  obtain ⟨hdescribed, -⟩ := checkMessage_eq_ok_iff.mp hnew
  have hids := find?_rel (p := (·.id = new.id)) (q := (·.2.id = m.2.id)) h fun a x hx => by
    rw [Bool.eq_iff_iff, decide_eq_true_eq, decide_eq_true_eq, hx.id, hdescribed.id]
    simp [UInt8.toNat_inj]
  have hnames := find?_rel (p := (·.ident = new.ident))
    (q := fun y => y.1.map Char.toLower = m.1.map Char.toLower) h fun a x hx => by
      rw [Bool.eq_iff_iff, decide_eq_true_eq, decide_eq_true_eq, hx.ident, hdescribed.ident]
      exact constantOf_eq_iff
  rw [accept, hnew]
  simp only [bind, Except.bind]
  generalize messages.find? (·.id = new.id) = first, earlier.find? (·.2.id = m.2.id) = x at hids ⊢
  cases hids with
  | some hx => simp only [hx.name, hdescribed.name]
  | none =>
    dsimp only
    generalize messages.find? (·.ident = new.ident) = first,
      earlier.find? (fun y => y.1.map Char.toLower = m.1.map Char.toLower) = x at hnames ⊢
    cases hnames with
    | some hx => simp only [hx.name, hdescribed.name, hdescribed.ident]
    | none => rfl

/-- Behind entries that describe message types, an entry is refused for what is wrong with it first.
-/
theorem accept_eq_error_iff {messages : List Message} {earlier : Document}
    {m : String × Definition} {e : SchemaError}
    (h : List.Forall₂ Message.DescribedBy messages earlier)
    (hids : (earlier.map (·.2.id)).Nodup)
    (hnames : (earlier.map (·.1.map Char.toLower)).Nodup) :
    accept messages m.1 m.2 = .error e ↔ EntryProblem earlier m e := by
  cases hnew : checkMessage m.1 m.2 with
  | error e' =>
    have haccept : accept messages m.1 m.2 = .error e' := by rw [accept, hnew]; rfl
    have hnone : ¬(IsName m.1 ∧ m.2.Consistent) := by
      rw [← exists_checkMessage_eq_ok_iff, hnew]
      simp
    rw [haccept, ← hnew, checkMessage_eq_error_iff]
    constructor
    · exact .alone
    · intro hproblem
      cases hproblem with
      | alone h => exact h
      | sameId hname hconsistent => exact absurd ⟨hname, hconsistent⟩ hnone
      | sameName hname hconsistent => exact absurd ⟨hname, hconsistent⟩ hnone
  | ok new =>
    obtain ⟨hname, hconsistent⟩ := exists_checkMessage_eq_ok_iff.mp ⟨new, hnew⟩
    have hid : m.2.id = some (.integer new.id.toNat) := (checkMessage_eq_ok_iff.mp hnew).1.id
    have halone : ¬MessageProblem m e := by
      rw [← checkMessage_eq_error_iff, hnew]
      simp
    have hsameId {before after : Document} {x : String × Definition}
        (hsplit : earlier = before ++ x :: after) (hx : x.2.id = m.2.id)
        (hothers : ∀ y ∈ before ++ after, y.2.id ≠ m.2.id) :
        earlier.find? (·.2.id = m.2.id) = some x :=
      (find?_key_eq_some_iff hids).mpr ⟨before, after, hsplit, hx, hothers⟩
    have hsameName {before after : Document} {x : String × Definition}
        (hsplit : earlier = before ++ x :: after) (hx : SameLetters x.1 m.1)
        (hothers : ∀ y ∈ before ++ after, ¬SameLetters y.1 m.1) :
        earlier.find? (fun y => y.1.map Char.toLower = m.1.map Char.toLower) = some x :=
      (find?_key_eq_some_iff hnames).mpr ⟨before, after, hsplit, hx, hothers⟩
    rw [accept_of_checkMessage h hnew]
    constructor
    · intro haccept
      split at haccept
      · next x hfind =>
        obtain ⟨before, after, hsplit, hx, hothers⟩ := (find?_key_eq_some_iff hids).mp hfind
        cases haccept
        exact .sameId hname hconsistent hid hsplit hx hothers
      · next hfind =>
        split at haccept
        · next x hfind' =>
          obtain ⟨before, after, hsplit, hx, hothers⟩ := (find?_key_eq_some_iff hnames).mp hfind'
          cases haccept
          exact .sameName hname hconsistent (by simpa using hfind) hsplit hx hothers
        · cases haccept
    · intro hproblem
      cases hproblem with
      | alone h => exact absurd h halone
      | @sameId _ _ _ id _ _ hid' hsplit hx hothers =>
        have hbyte : new.id = id := by simpa [UInt8.toNat_inj] using hid.symm.trans hid'
        rw [hsameId hsplit hx hothers, hbyte]
      | sameName _ _ hnone hsplit hx hothers =>
        have hfind : earlier.find? (·.2.id = m.2.id) = none := by simpa using hnone
        rw [hfind, hsameName hsplit hx hothers]

/-! ### Documents -/

/-- The message types so far, with the one that an entry describes. -/
def acceptEntry (messages : List Message) (x : String × Definition) :
    Except SchemaError (List Message) :=
  (accept messages x.1 x.2).map (messages ++ [·])

/-- The loop over entries as a fold. -/
theorem schema?_examineAfter (earlier : List Message) (d : Document) :
    (examineAfter earlier d).schema? = (d.foldlM acceptEntry earlier).map Schema.mk := by
  induction d generalizing earlier with
  | nil => rfl
  | cons x d ih =>
    rw [examineAfter, List.foldlM_cons, acceptEntry]
    cases accept earlier x.1 x.2 with
    | error e => rfl
    | ok m => exact ih (earlier ++ [m])

namespace Document

/-- A document that makes sense so far: it is empty or describes a schema. -/
def Accepted (d : Document) : Prop := d = [] ∨ ∃ s, Schema.ofDocument? d = .ok s

end Document

namespace Schema

variable {d earlier later : Document} {m : String × Definition} {e : SchemaError}

theorem ofDocument?_eq_foldlM (h : d ≠ []) :
    ofDocument? d = (d.foldlM acceptEntry []).map Schema.mk := by
  rw [ofDocument?, Document.examine, if_neg h, schema?_examineAfter]

theorem ofDocument?_eq_error_iff (h : d ≠ []) :
    ofDocument? d = .error e ↔ d.foldlM acceptEntry [] = .error e := by
  rw [ofDocument?_eq_foldlM h]
  cases d.foldlM acceptEntry [] <;> simp [Except.map]

/-- A document makes sense so far exactly if the fold over its entries comes to message types. -/
theorem accepted_iff : d.Accepted ↔ ∃ messages, d.foldlM acceptEntry [] = .ok messages := by
  by_cases hd : d = []
  · exact iff_of_true (.inl hd) ⟨[], by rw [hd]; rfl⟩
  · rw [Document.Accepted, or_iff_right hd, ofDocument?_eq_foldlM hd]
    cases d.foldlM acceptEntry [] <;> simp [Except.map]

/-- What makes sense so far describes message types, of which there are no more than ids, and has
distinct ids and names. -/
theorem described_of_foldlM {messages : List Message}
    (h : d.foldlM acceptEntry [] = .ok messages) :
    List.Forall₂ Message.DescribedBy messages d ∧ d.length ≤ 256 ∧ (d.map (·.2.id)).Nodup ∧
      (d.map (·.1.map Char.toLower)).Nodup := by
  by_cases hd : d = []
  · subst hd
    cases h
    simp
  · have hs : ofDocument? d = .ok ⟨messages⟩ := by rw [ofDocument?_eq_foldlM hd, h]; rfl
    obtain ⟨-, hdescribed, hwell⟩ := ofDocument?_eq_ok_iff.mp hs
    have hconsistent := Document.consistent_iff.mpr ⟨hd, messages, hdescribed, hwell⟩
    exact ⟨hdescribed, hdescribed.length_eq ▸ hwell.length_le, hconsistent.ids,
      List.pairwise_map.mpr hconsistent.distinct⟩

/-- What makes sense still does so without the entries at its end. -/
theorem accepted_of_append (h : (earlier ++ later).Accepted) : earlier.Accepted := by
  obtain ⟨messages, h⟩ := accepted_iff.mp h
  rw [List.foldlM_append, bind_eq_ok_iff] at h
  obtain ⟨messages, h, -⟩ := h
  exact accepted_iff.mpr ⟨messages, h⟩

/-- A refusal stands, whatever follows. -/
theorem ofDocument?_append_of_error (hd : d ≠ []) (h : ofDocument? d = .error e) :
    ofDocument? (d ++ later) = .error e := by
  rw [ofDocument?_eq_error_iff hd] at h
  rw [ofDocument?_eq_error_iff (by simp [hd]), List.foldlM_append, h]
  rfl

/-- Behind entries that make sense, an entry is refused for what is wrong with it first. -/
theorem ofDocument?_concat_eq_error_iff (h : earlier.Accepted) :
    ofDocument? (earlier ++ [m]) = .error e ↔ EntryProblem earlier m e := by
  obtain ⟨messages, h⟩ := accepted_iff.mp h
  obtain ⟨hdescribed, -, hids, hnames⟩ := described_of_foldlM h
  rw [ofDocument?_eq_error_iff (by simp), List.foldlM_append, h,
    ← accept_eq_error_iff hdescribed hids hnames]
  simp only [bind, Except.bind, List.foldlM_cons, List.foldlM_nil, acceptEntry]
  cases accept messages m.1 m.2 <;> simp [Except.map, pure, Except.pure]

/-- Behind entries that make sense, a document is refused for what is wrong with an entry. -/
theorem ofDocument?_of_entryProblem (hearlier : earlier.Accepted) (h : EntryProblem earlier m e)
    (later : Document) : ofDocument? (earlier ++ m :: later) = .error e := by
  rw [List.append_cons]
  exact ofDocument?_append_of_error (by simp) ((ofDocument?_concat_eq_error_iff hearlier).mpr h)

/-- A document that is refused has one entry that goes wrong behind entries that make sense. -/
theorem existsUnique_problem (hd : d ≠ []) (h : ofDocument? d = .error e) :
    ∃! x : Document × (String × Definition) × Document, d = x.1 ++ x.2.1 :: x.2.2 ∧
      x.1.Accepted ∧ ∃ e', ofDocument? (x.1 ++ [x.2.1]) = .error e' := by
  have hnot {d : Document} (hd : d ≠ []) : ¬d.Accepted ↔ ∃ e', ofDocument? d = .error e' := by
    rw [Document.Accepted, or_iff_right hd]
    cases ofDocument? d <;> simp
  have hunique := existsUnique_split (P := Document.Accepted) (l := d) (.inl rfl)
    (fun _ _ => accepted_of_append) ((hnot hd).mpr ⟨e, h⟩)
  simpa only [hnot, List.append_eq_nil_iff, List.cons_ne_self, and_false, not_false_eq_true, ne_eq,
    reduceCtorEq] using hunique

/-- A document is refused for what is wrong with one of its entries first, behind entries that make
sense. -/
theorem ofDocument?_eq_error_iff_entryProblem (hd : d ≠ []) :
    ofDocument? d = .error e ↔
      ∃ earlier m later, d = earlier ++ m :: later ∧ earlier.Accepted ∧
        EntryProblem earlier m e := by
  constructor
  · intro h
    obtain ⟨⟨earlier, m, later⟩, ⟨rfl, hearlier, e', he'⟩, -⟩ := existsUnique_problem hd h
    have hproblem := (ofDocument?_concat_eq_error_iff hearlier).mp he'
    rw [ofDocument?_of_entryProblem hearlier hproblem] at h
    cases h
    exact ⟨earlier, m, later, rfl, hearlier, hproblem⟩
  · rintro ⟨earlier, m, later, rfl, hearlier, hproblem⟩
    exact ofDocument?_of_entryProblem hearlier hproblem later

/-- The message types of the entries at the front are those at the front. -/
theorem ofDocument?_take {s : Schema} {n : Nat} (h : ofDocument? d = .ok s) (hn : 0 < n) :
    ofDocument? (d.take n) = .ok ⟨s.messages.take n⟩ := by
  obtain ⟨hd, hdescribed, hwell⟩ := ofDocument?_eq_ok_iff.mp h
  have hfront := (List.take_sublist n s.messages)
  refine ofDocument?_eq_ok_iff.mpr ⟨?_, List.forall₂_take n hdescribed, ?_⟩
  · simp [hd, Nat.ne_of_gt hn]
  · exact ⟨fun m hm => hwell.each m (hfront.mem hm), hwell.ids.sublist (hfront.map _),
      hwell.idents.sublist (hfront.map _)⟩

/-- A document is refused for one of its first entries, as there are no more ids. -/
theorem ofDocument?_take_257 (d : Document) : ofDocument? (d.take 257) = ofDocument? d := by
  by_cases hlength : d.length ≤ 257
  · rw [List.take_of_length_le hlength]
  · have hne : d.take 257 ≠ [] := by
      rw [← List.length_pos_iff]
      simp
      omega
    cases h : ofDocument? (d.take 257) with
    | error e =>
      rw [← List.take_append_drop 257 d, ofDocument?_append_of_error hne h]
    | ok s =>
      obtain ⟨messages, h⟩ := accepted_iff.mp (.inr ⟨s, h⟩)
      obtain ⟨-, hmany, -⟩ := described_of_foldlM h
      rw [List.length_take] at hmany
      omega

/-- The first problem decides. A document that is refused has exactly one entry that goes wrong
behind entries that make sense; what is reported is what is wrong with that entry first, given those
in front of it, and whatever follows has no influence. So the front of a document that makes sense
does so too, with the message types at the front, and the first 257 entries decide about any
document. -/
theorem refused_for_first_problem :
    (∀ d e, d ≠ [] → ofDocument? d = .error e →
      (∃! x : Document × (String × Definition) × Document, d = x.1 ++ x.2.1 :: x.2.2 ∧
        x.1.Accepted ∧ ∃ e', ofDocument? (x.1 ++ [x.2.1]) = .error e') ∧
        ∀ later, ofDocument? (d ++ later) = .error e) ∧
      (∀ (earlier : Document) m e, earlier.Accepted →
        (ofDocument? (earlier ++ [m]) = .error e ↔ EntryProblem earlier m e) ∧
          (EntryProblem earlier m e → ∀ later, ofDocument? (earlier ++ m :: later) = .error e)) ∧
        (∀ d s n, ofDocument? d = .ok s → 0 < n →
          ofDocument? (d.take n) = .ok ⟨s.messages.take n⟩) ∧
          ∀ d : Document, ofDocument? (d.take 257) = ofDocument? d := by
  refine ⟨fun d e hd h => ⟨existsUnique_problem hd h, fun later =>
    ofDocument?_append_of_error hd h⟩, fun earlier m e h =>
      ⟨ofDocument?_concat_eq_error_iff h, fun hproblem later => ?_⟩,
        fun d s n => ofDocument?_take, ofDocument?_take_257⟩
  rw [← List.singleton_append, ← List.append_assoc]
  exact ofDocument?_append_of_error (by simp) ((ofDocument?_concat_eq_error_iff h).mpr hproblem)

/-- Behind an entry that makes sense, one whose id and name are taken and that uses the name of a
field twice, and behind that one with a name that starts with a digit. -/
theorem refused_for_first_problem_fields :
    let a : String × Definition := ("a", ⟨some (.integer 1), false, []⟩)
    let b : String × Definition :=
      ("A", ⟨some (.integer 1), false, [("x", .number (.integer 6)), ("x", .string "6")]⟩)
    let c : String × Definition := ("9", ⟨none, false, []⟩)
    (∃ s, ofDocument? [a] = .ok s ∧ ofDocument? ([a].take 1) = .ok ⟨s.messages.take 1⟩) ∧
      EntryProblem [a] b (.duplicateField "A" "x") ∧
        ofDocument? [a, b, c] = .error (.duplicateField "A" "x") ∧
          ∃! x : Document × (String × Definition) × Document, [a, b, c] = x.1 ++ x.2.1 :: x.2.2 ∧
            x.1.Accepted ∧ ∃ e', ofDocument? (x.1 ++ [x.2.1]) = .error e' := by
  intro a b c
  have ha : ofDocument? [a] = .ok ⟨[⟨"a", "A", 1, false, []⟩]⟩ := by decide +kernel
  have hb : ofDocument? ([a] ++ [b]) = .error (.duplicateField "A" "x") := by decide +kernel
  obtain ⟨hrefused, hfirst, htake, -⟩ := refused_for_first_problem
  obtain ⟨hiff, hlater⟩ := hfirst [a] b (.duplicateField "A" "x") (.inr ⟨_, ha⟩)
  have hproblem := hiff.mp hb
  have habc := hlater hproblem [c]
  exact ⟨⟨_, ha, htake _ _ 1 ha (by decide)⟩, hproblem, habc,
    (hrefused _ _ (List.cons_ne_nil _ _) habc).1⟩

end Schema

end Telemetry
