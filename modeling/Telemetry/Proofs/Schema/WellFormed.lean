import Telemetry.Proofs.Basic
import Telemetry.Schema.Reader

/-!
# Well-formed schemas

What every schema that comes out of a document has in common: it has message types, their names and
those of their fields are identifiers, the constants are the names in upper case, and numbers,
constants and the field names of one message type are pairwise distinct (`Schema.WellFormed`).

The examination goes through the document message type by message type, and through each message
type field by field. Either loop keeps the list of what it has accepted well formed: one lemma says
so for a single step (`FieldsWellFormed.concat`, `MessagesWellFormed.concat`), and an induction on
what is left of the document carries it to the end. `Schema.wellFormed_of_load?` is the result.
-/

namespace Telemetry

/-- A name passes the check exactly if it is an identifier. -/
theorem checkIdentifier_eq_ok_iff {name : String} {u : Unit} :
    checkIdentifier name = .ok u ↔ isIdentifier name = true := by
  unfold checkIdentifier
  split <;> simp_all

/-! ### Fields -/

/-- Fields whose names are identifiers, each used once. -/
structure FieldsWellFormed (fields : List Field) : Prop where
  identifier : ∀ f ∈ fields, isIdentifier f.name = true
  distinct : (fields.map Field.name).Nodup

/-- A field is accepted exactly if its name is a new identifier and its code that of its type. -/
theorem checkField_eq_ok_iff {message name : String} {earlier : List Field} {code : Json.Value}
    {f : Field} :
    checkField message earlier name code = .ok f ↔
      isIdentifier name = true ∧ (∀ g ∈ earlier, g.name ≠ name) ∧
        WireType.ofValue? code = some f.type ∧ f.name = name := by
  rw [checkField, bind_eq_ok_iff]
  simp only [checkIdentifier_eq_ok_iff, exists_const]
  refine and_congr_right fun _ => ?_
  by_cases hany : earlier.any (·.name = name)
  · rw [if_pos hany]
    obtain ⟨g, hg, hgn⟩ := List.any_eq_true.mp hany
    exact iff_of_false (by simp) fun h => h.1 g hg (by simpa using hgn)
  · rw [if_neg hany]
    have hnew : ∀ g ∈ earlier, g.name ≠ name := by simpa using hany
    cases htype : WireType.ofValue? code with
    | none => simp
    | some type =>
      constructor
      · intro h
        cases h
        exact ⟨hnew, rfl, rfl⟩
      · rintro ⟨-, ht, hn⟩
        cases f
        simp_all

/-- One more field with a new identifier. -/
theorem FieldsWellFormed.concat {fields : List Field} (h : FieldsWellFormed fields) {f : Field}
    (hf : isIdentifier f.name = true) (hnew : ∀ g ∈ fields, g.name ≠ f.name) :
    FieldsWellFormed (fields ++ [f]) where
  identifier := by
    intro g hg
    rcases List.mem_append.mp hg with hg | hg
    · exact h.identifier g hg
    · rw [List.mem_singleton.mp hg]
      exact hf
  distinct := nodup_map_concat h.distinct hnew

/-- The fields of a message type are well formed if those before them are. -/
theorem fieldsWellFormed_of_checkFields {message : String} {earlier fields : List Field}
    {described : List (String × Json.Value)} (he : FieldsWellFormed earlier)
    (h : checkFields message earlier described = .ok fields) : FieldsWellFormed fields := by
  -- the invariant is about the fields accepted so far, so these vary
  induction described generalizing earlier with
  | nil =>
    cases h
    exact he
  | cons d rest ih =>
    obtain ⟨f, hf, hrest⟩ := bind_eq_ok_iff.mp h
    obtain ⟨hid, hnew, -, hname⟩ := checkField_eq_ok_iff.mp hf
    exact ih (he.concat (hname ▸ hid) (hname ▸ hnew)) hrest

/-! ### Message types -/

/-- A message type that can be declared in C. -/
structure Message.WellFormed (m : Message) : Prop where
  identifier : isIdentifier m.name = true
  ident_eq : m.ident = constantOf m.name
  fields : FieldsWellFormed m.fields

/-- Message types of which no two share a number or a constant. -/
structure MessagesWellFormed (messages : List Message) : Prop where
  each : ∀ m ∈ messages, m.WellFormed
  ids : (messages.map Message.id).Nodup
  idents : (messages.map Message.ident).Nodup

/-- A message type that passes the checks by itself is well formed. -/
theorem Message.wellFormed_of_checkMessage {name : String} {definition : Definition} {m : Message}
    (h : checkMessage name definition = .ok m) : m.WellFormed := by
  simp only [checkMessage, bind_eq_ok_iff, checkIdentifier_eq_ok_iff, exists_const] at h
  obtain ⟨hname, id, -, fields, hfields, hm⟩ := h
  cases hm
  exact ⟨hname, rfl, fieldsWellFormed_of_checkFields ⟨by simp, by simp⟩ hfields⟩

/-- A message type is accepted after others exactly if it passes the checks by itself and has a
number and a constant of its own. -/
theorem accept_eq_ok_iff {earlier : List Message} {name : String} {definition : Definition}
    {m : Message} :
    accept earlier name definition = .ok m ↔
      checkMessage name definition = .ok m ∧ (∀ x ∈ earlier, x.id ≠ m.id) ∧
        ∀ x ∈ earlier, x.ident ≠ m.ident := by
  rw [accept, bind_eq_ok_iff]
  constructor
  · rintro ⟨m', hm', h⟩
    split at h
    · cases h
    · next hid =>
      split at h
      · cases h
      · next hident =>
        cases h
        exact ⟨hm', by simpa using hid, by simpa using hident⟩
  · rintro ⟨hm, hid, hident⟩
    refine ⟨m, hm, ?_⟩
    rw [List.find?_eq_none.mpr (by simpa using hid)]
    dsimp only
    rw [List.find?_eq_none.mpr (by simpa using hident)]

theorem messagesWellFormed_nil : MessagesWellFormed [] := ⟨by simp, by simp, by simp⟩

/-- One more message type with a number and a constant of its own. -/
theorem MessagesWellFormed.concat {messages : List Message} (h : MessagesWellFormed messages)
    {m : Message} (hm : m.WellFormed) (hid : ∀ x ∈ messages, x.id ≠ m.id)
    (hident : ∀ x ∈ messages, x.ident ≠ m.ident) : MessagesWellFormed (messages ++ [m]) where
  each := by
    intro x hx
    rcases List.mem_append.mp hx with hx | hx
    · exact h.each x hx
    · rw [List.mem_singleton.mp hx]
      exact hm
  ids := nodup_map_concat h.ids hid
  idents := nodup_map_concat h.idents hident

/-- The examination keeps what it has accepted well formed, however far it comes. -/
theorem messagesWellFormed_examineAfter {earlier : List Message} (he : MessagesWellFormed earlier)
    (d : Document) : MessagesWellFormed (examineAfter earlier d).accepted := by
  -- a problem ends the examination with what has been accepted before it
  induction d generalizing earlier with
  | nil => exact he
  | cons entry rest ih =>
    obtain ⟨name, definition⟩ := entry
    rw [examineAfter]
    split
    · exact he
    · next m hm =>
      obtain ⟨hcheck, hid, hident⟩ := accept_eq_ok_iff.mp hm
      exact ih (he.concat (Message.wellFormed_of_checkMessage hcheck) hid hident)

/-- An examination without a problem has accepted everything. -/
theorem length_accepted_examineAfter {earlier : List Message} {d : Document}
    (h : (examineAfter earlier d).problem = none) :
    (examineAfter earlier d).accepted.length = earlier.length + d.length := by
  induction d generalizing earlier with
  | nil => rfl
  | cons entry rest ih =>
    obtain ⟨name, definition⟩ := entry
    rw [examineAfter] at h ⊢
    split at h
    · cases h
    · next m hm =>
      rw [ih h, List.length_append, List.length_singleton, List.length_cons]
      omega

/-! ### Schemas -/

/-- A schema that can be declared in C. -/
structure Schema.WellFormed (s : Schema) : Prop where
  ne_nil : s.messages ≠ []
  messages : MessagesWellFormed s.messages

namespace Schema

/-- The schema of a document is well formed. -/
theorem wellFormed_of_ofDocument? {d : Document} {s : Schema} (h : ofDocument? d = .ok s) :
    s.WellFormed := by
  unfold ofDocument? Examination.schema? Document.examine at h
  split at h
  · cases h
  · next hproblem =>
    cases h
    by_cases hd : d = []
    · simp [hd] at hproblem
    · rw [if_neg hd] at hproblem ⊢
      refine ⟨fun hnil => hd ?_, messagesWellFormed_examineAfter messagesWellFormed_nil d⟩
      -- as many message types are accepted as there are in the document
      have hlen := length_accepted_examineAfter hproblem
      have haccepted : (examineAfter [] d).accepted = [] := hnil
      rw [haccepted, List.length_nil, Nat.zero_add] at hlen
      exact List.eq_nil_of_length_eq_zero hlen.symm

/-- Where the bytes come from makes no difference to the schema. -/
theorem ofBytes?_eq_ok_iff {path : String} {bytes : Bytes} {s : Schema} :
    ofBytes? path bytes = .ok s ↔ load? bytes = .ok s := by
  unfold load? ofBytes?
  cases Document.read? bytes with
  | error e => simp
  | ok d => rfl

/-- Bytes are refused as a schema if they hold a document that describes none. -/
theorem ofBytes?_eq_invalid_iff {path : String} {bytes : Bytes} {e : SchemaError} :
    ofBytes? path bytes = .error (.invalid e) ↔
      ∃ d, Document.read? bytes = .ok d ∧ ofDocument? d = .error e := by
  unfold ofBytes?
  cases Document.read? bytes with
  | error _ => simp
  | ok d => cases hd : ofDocument? d <;> simp [Except.mapError, hd]

/-- Bytes hold a schema if they hold a document that describes it. -/
theorem load?_eq_ok_iff {bytes : Bytes} {s : Schema} :
    load? bytes = .ok s ↔ ∃ d, Document.read? bytes = .ok d ∧ ofDocument? d = .ok s := by
  unfold load? ofBytes?
  cases Document.read? bytes with
  | error e => simp
  | ok d => cases hd : ofDocument? d <;> simp [hd, Except.mapError]

/-- The schema of a document in memory is well formed. -/
theorem wellFormed_of_load? {bytes : Bytes} {s : Schema} (h : load? bytes = .ok s) :
    s.WellFormed := by
  obtain ⟨d, -, hs⟩ := load?_eq_ok_iff.mp h
  exact wellFormed_of_ofDocument? hs

end Schema

end Telemetry
