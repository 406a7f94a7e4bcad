import Telemetry.Proofs.Document.Shape
import Telemetry.Proofs.Json.Text
import Telemetry.Proofs.Schema.Refusal

/-!
# Values that errors show

An error about a type code or an id shows the compact text of the value that stands in the document.
That text is read back as the value, unless there are doubles in it, so errors about different
values show different texts (`Schema.shown_values_read_back`).

What stands in a document in such a place was read by the reader of values or of numbers. This is
kept by each reader of a part of a definition (`Draft.IsRead`), and it is all that is needed of the
document.
-/

namespace Telemetry

open Json

variable {s r : Bytes}

/-! ### Where the values of a document come from -/

/-- An id that was read, if there is one. -/
def IdRead (id : Option Number) : Prop := ∀ n ∈ id, Reads readNumber n

/-- Fields whose type codes were read. -/
def CodesRead (fields : List (String × Value)) : Prop :=
  ∀ f ∈ fields, Reads (readValue codeDepth) f.2

/-- A definition whose id and type codes were read. -/
structure Definition.IsRead (x : Definition) : Prop where
  id : IdRead x.id
  codes : CodesRead x.fields

/-- Members of a definition so far, of which id and type codes were read. -/
structure Draft.IsRead (x : Draft) : Prop where
  id : ∀ id ∈ x.id, IdRead id
  codes : ∀ fields ∈ x.fields, CodesRead fields

theorem idRead_of_readId {id : Option Number} (h : Reads readId id) : IdRead id := by
  obtain ⟨s, r, h⟩ := h
  intro n hn
  obtain ⟨rfl, -⟩ | ⟨m, rfl, hfound⟩ := readId_eq_ok_iff.mp h
  · cases hn
  · cases hn
    exact ⟨_, r, readNumber_of_readFound hfound⟩

theorem reads_of_readOrdered {α : Type} {value : Scan α} {ms : List (String × α)}
    (h : Reads (readOrdered value) ms) : ∀ m ∈ ms, Reads value m.2 := by
  obtain ⟨s, r, h⟩ := h
  obtain ⟨t, -, h⟩ := readOrdered_eq_ok_iff.mp h
  exact reads_of_readMembers h

theorem codesRead_of_readFields {fields : List (String × Value)} (h : Reads readFields fields) :
    CodesRead fields :=
  reads_of_readOrdered h

theorem reads_of_readInto {α : Type} {key : String} {place : Option α} {value : Scan α} {x : α}
    (h : Draft.readInto key place value s = .ok (x, r)) : Reads value x := by
  cases place with
  | some _ => cases h
  | none =>
    obtain ⟨u, -, h⟩ := bind_eq_ok_iff.mp h
    exact ⟨u, r, h⟩

/-- What is missing in a definition is filled in with an id and fields of which nothing is to be
read. -/
theorem Draft.IsRead.definition {x : Draft} (h : x.IsRead) : x.definition.IsRead where
  id := by
    unfold Draft.definition
    cases hid : x.id with
    | none => exact nofun
    | some id => exact h.id id hid
  codes := by
    unfold Draft.definition
    cases hfields : x.fields with
    | none => exact List.forall_mem_nil _
    | some fields => exact h.codes fields hfields

theorem Draft.IsRead.readMember {x y : Draft} {key : String} (hx : x.IsRead)
    (h : x.readMember key s = .ok (y, r)) : y.IsRead := by
  unfold Draft.readMember at h
  split at h
  · obtain ⟨⟨id, u⟩, hread, h⟩ := bind_eq_ok_iff.mp h
    cases h
    refine ⟨fun _ hid => ?_, hx.codes⟩
    cases hid
    exact idRead_of_readId (reads_of_readInto hread)
  · split at h
    · obtain ⟨⟨bundle, u⟩, -, h⟩ := bind_eq_ok_iff.mp h
      cases h
      exact ⟨hx.id, hx.codes⟩
    · split at h
      · obtain ⟨⟨fields, u⟩, hread, h⟩ := bind_eq_ok_iff.mp h
        cases h
        refine ⟨hx.id, fun _ hfields => ?_⟩
        cases hfields
        exact codesRead_of_readFields (reads_of_readInto hread)
      · -- members under other keys are passed over
        obtain ⟨u, -, h⟩ := bind_eq_ok_iff.mp h
        obtain ⟨v, -, h⟩ := bind_eq_ok_iff.mp h
        cases h
        exact hx

theorem isRead_of_readObjectDefinition {x : Definition}
    (h : readObjectDefinition s = .ok (x, r)) : x.IsRead := by
  obtain ⟨⟨y, u⟩, hfold, h⟩ := bind_eq_ok_iff.mp h
  obtain ⟨v, -, h⟩ := bind_eq_ok_iff.mp h
  cases h
  have hempty : Draft.empty.IsRead := ⟨nofun, nofun⟩
  exact (foldMembers_invariant (P := Draft.IsRead) (fun _ _ _ _ _ hx h => hx.readMember h) hempty
    hfold).definition

theorem reads_of_readItemOr {α : Type} {default x : α} {item : Scan α}
    (h : readItemOr default item s = .ok (x, r)) : x = default ∨ Reads item x := by
  obtain ⟨next, -, h⟩ := bind_eq_ok_iff.mp h
  cases next with
  | none =>
    cases h
    exact .inl rfl
  | some u => exact .inr ⟨u, r, h⟩

theorem isRead_of_readListDefinition {x : Definition} (h : readListDefinition s = .ok (x, r)) :
    x.IsRead := by
  obtain ⟨next, -, h⟩ := bind_eq_ok_iff.mp h
  cases next with
  | none => cases h
  | some t =>
    obtain ⟨⟨id, u⟩, hid, h⟩ := bind_eq_ok_iff.mp h
    obtain ⟨⟨bundle, v⟩, -, h⟩ := bind_eq_ok_iff.mp h
    obtain ⟨⟨fields, w⟩, hfields, h⟩ := bind_eq_ok_iff.mp h
    obtain ⟨r, -, h⟩ := bind_eq_ok_iff.mp h
    cases h
    refine ⟨idRead_of_readId ⟨t, u, hid⟩, ?_⟩
    obtain rfl | hread := reads_of_readItemOr hfields
    · exact List.forall_mem_nil _
    · exact codesRead_of_readFields hread

theorem isRead_of_readDefinition {x : Definition} (h : Reads readDefinition x) : x.IsRead := by
  obtain ⟨s, r, h⟩ := h
  obtain ⟨t, -, h⟩ | ⟨t, -, h⟩ := readDefinition_eq_ok_iff.mp h
  · exact isRead_of_readObjectDefinition h
  · exact isRead_of_readListDefinition h

namespace Document

variable {d : Document} {bytes : Bytes} {x : Value}

/-- Ids and type codes of a document were read. -/
theorem isRead_of_read? (h : read? bytes = .ok d) : ∀ m ∈ d, m.2.IsRead := by
  obtain ⟨r, hread, -⟩ := readWhole_eq_ok_iff.mp h
  exact fun m hm => isRead_of_readDefinition (reads_of_readOrdered ⟨bytes, r, hread⟩ m hm)

/-- The values that stand in a document in the place of a type code or of an id. -/
inductive Holds (d : Document) : Value → Prop where
  | code {m : String × Definition} {f : String × Value} : m ∈ d → f ∈ m.2.fields → Holds d f.2
  | id {m : String × Definition} {n : Number} : m ∈ d → m.2.id = some n → Holds d (.number n)

/-- What a document holds is read back from its text, unless there are doubles in it. -/
theorem Holds.read?_text (h : d.Holds x) (hd : read? bytes = .ok d) (hx : x.IsExact) :
    Value.read? (Text.Utf8.ofString x.text) = .ok x := by
  cases h with
  | code hm hf => exact Value.read?_text (by decide) ((isRead_of_read? hd _ hm).codes _ hf) hx
  | id hm hn =>
    cases hx with
    | integer n => exact Value.read?_text_integer ((isRead_of_read? hd _ hm).id _ hn)

end Document

/-! ### What errors show -/

namespace SchemaError

/-- The text of the value that an error shows, if it shows one. -/
def shown? : SchemaError → Option String
  | missingId _ found => found
  | idOutOfRange _ id => some id
  | unknownType _ _ code => some code
  | _ => none

/-- The value in an entry that an error is about: the id, or a type code that is none. -/
inductive IsAbout (m : String × Definition) : SchemaError → Value → Prop where
  | missing {n : Number} {text : String} : m.2.id = some n →
    IsAbout m (missingId m.1 (some text)) (.number n)
  | outOfRange {n : Number} {text : String} : m.2.id = some n →
    IsAbout m (idOutOfRange m.1 text) (.number n)
  | code {f : String × Value} {text : String} : f ∈ m.2.fields → WireType.ofValue? f.2 = none →
    IsAbout m (unknownType m.1 f.1 text) f.2

end SchemaError

theorem Json.Value.text_number (n : Number) : (Value.number n).text = n.text := by
  rw [Value.text, Value.chars, String.ofList_toList]

variable {m : String × Definition} {e : SchemaError} {text : String}

theorem IdProblem.shows {id : Option Number} (h : IdProblem m.1 id e) (hid : m.2.id = id)
    (htext : e.shown? = some text) : ∃ x, e.IsAbout m x ∧ text = x.text := by
  cases h with
  | absent => cases htext
  | negative _ | double _ =>
    cases htext
    exact ⟨_, .missing hid, (Value.text_number _).symm⟩
  | large _ | huge _ =>
    cases htext
    exact ⟨_, .outOfRange hid, (Value.text_number _).symm⟩

theorem FieldProblem.shows {names : List String} {f : String × Value}
    (h : FieldProblem m.1 names f e) (hf : f ∈ m.2.fields) (htext : e.shown? = some text) :
    ∃ x, e.IsAbout m x ∧ text = x.text := by
  cases h with
  | name _ => cases htext
  | repeated _ _ => cases htext
  | code _ _ hcode =>
    cases htext
    exact ⟨f.2, .code hf (WireType.ofValue?_eq_none_iff.mpr hcode), rfl⟩

/-- What is wrong with an entry is shown with the value that it is about. -/
theorem EntryProblem.shows {earlier : Document} (h : EntryProblem earlier m e)
    (htext : e.shown? = some text) : ∃ x, e.IsAbout m x ∧ text = x.text := by
  cases h with
  | sameId => cases htext
  | sameName => cases htext
  | alone h =>
    cases h with
    | name _ => cases htext
    | id _ h => exact h.shows rfl htext
    | field _ hsplit _ hf => exact hf.shows (hsplit ▸ List.mem_append_cons_self) htext

theorem SchemaError.IsAbout.holds {d : Document} {x : Value} (h : e.IsAbout m x) (hm : m ∈ d) :
    d.Holds x := by
  cases h with
  | missing hn => exact .id hm hn
  | outOfRange hn => exact .id hm hn
  | code hf _ => exact .code hm hf

namespace Schema

/-- A text in an error is that of the value in the document that the error is about. -/
theorem exists_isAbout {path : String} {bytes : Bytes}
    (h : ofBytes? path bytes = .error (.invalid e)) (htext : e.shown? = some text) :
    ∃ d m x, Document.read? bytes = .ok d ∧ m ∈ d ∧ e.IsAbout m x ∧ text = x.text := by
  obtain ⟨d, hd, hschema⟩ := ofBytes?_eq_invalid_iff.mp h
  obtain rfl | hne := eq_or_ne d []
  · cases hschema
    cases htext
  · obtain ⟨earlier, m, later, rfl, -, hproblem⟩ :=
      (ofDocument?_eq_error_iff_entryProblem hne).mp hschema
    obtain ⟨x, hx, rfl⟩ := hproblem.shows htext
    exact ⟨_, m, x, hd, List.mem_append_cons_self, hx, rfl⟩

/-- Errors show values faithfully. A value without doubles that stands in a document in the place of
a type code or of an id is read back from its text, so different ones have different texts. The text
that an error shows is that of the type code that is none, or of the id, which the error is about.
-/
theorem shown_values_read_back :
    (∀ bytes d x, Document.read? bytes = .ok d → d.Holds x → x.IsExact →
      Value.read? (Text.Utf8.ofString x.text) = .ok x) ∧
    (∀ bytes bytes' d d' x y, Document.read? bytes = .ok d → Document.read? bytes' = .ok d' →
      d.Holds x → d'.Holds y → x.IsExact → y.IsExact → x.text = y.text → x = y) ∧
    ∀ path bytes e text, ofBytes? path bytes = .error (.invalid e) → e.shown? = some text →
      ∃ d m x, Document.read? bytes = .ok d ∧ m ∈ d ∧ e.IsAbout m x ∧ text = x.text ∧
        (x.IsExact → Value.read? (Text.Utf8.ofString text) = .ok x) := by
  have hback (bytes : Bytes) (d : Document) (x : Value) (hd : Document.read? bytes = .ok d)
      (hx : d.Holds x) (hexact : x.IsExact) : Value.read? (Text.Utf8.ofString x.text) = .ok x :=
    hx.read?_text hd hexact
  refine ⟨hback, fun bytes bytes' d d' x y hd hd' hx hy hx' hy' htext => ?_,
    fun path bytes e text h htext => ?_⟩
  · have hread := hback bytes d x hd hx hx'
    rw [htext, hback bytes' d' y hd' hy hy'] at hread
    exact (Except.ok.inj hread).symm
  · obtain ⟨d, m, x, hd, hm, habout, rfl⟩ := exists_isAbout h htext
    exact ⟨d, m, x, hd, hm, habout, rfl, hback bytes d x hd (habout.holds hm)⟩

/-- A document with a nested type code and with another one. -/
theorem read?_nested :
    Document.read? (ascii ("\x7b\"a\":\x7b\"id\":1,\"data_types\":"
      ++ "\x7b\"x\":\x7b\"k\":[\"\\u00e9\\n\",-1]\x7d,\"y\":\"-1\"\x7d\x7d\x7d")) =
      .ok [("a", ⟨some (.integer 1), false,
        [("x", .object [("k", .array [.string "é\n", .number (.integer (-1))])]),
          ("y", .string "-1")]⟩)] := by
  cbv

/-- In a nested type code there are an escape and a negative integer; another one is the text of
that integer. -/
theorem shown_values_read_back_nested :
    let s := ascii ("\x7b\"a\":\x7b\"id\":1,\"data_types\":"
      ++ "\x7b\"x\":\x7b\"k\":[\"\\u00e9\\n\",-1]\x7d,\"y\":\"-1\"\x7d\x7d\x7d")
    let x : Value := .object [("k", .array [.string "é\n", .number (.integer (-1))])]
    let y : Value := .string "-1"
    load? s = .error (.invalid (.unknownType "a" "x" x.text)) ∧ x.text ≠ y.text ∧
      Value.read? (Text.Utf8.ofString x.text) = .ok x ∧
        ∃ d m z, Document.read? s = .ok d ∧ m ∈ d ∧
          SchemaError.IsAbout m (.unknownType "a" "x" x.text) z ∧ x.text = z.text := by
  intro s x y
  have hload : load? s = .error (.invalid (.unknownType "a" "x" x.text)) := by decide +kernel
  have hitems : ∀ z ∈ [Value.string "é\n", .number (.integer (-1))], z.IsExact :=
    List.forall_mem_cons.mpr ⟨.string _, List.forall_mem_singleton.mpr (.integer _)⟩
  have hx : x.IsExact := .object (List.forall_mem_singleton.mpr (.array hitems))
  have hholds : Document.Holds [("a", ⟨some (.integer 1), false, [("x", x), ("y", y)]⟩)] x :=
    .code (f := ("x", x)) List.mem_cons_self List.mem_cons_self
  have hholds' : Document.Holds [("a", ⟨some (.integer 1), false, [("x", x), ("y", y)]⟩)] y :=
    .code (f := ("y", y)) List.mem_cons_self (by simp)
  obtain ⟨hback, hdistinct, habout⟩ := shown_values_read_back
  obtain ⟨d, m, z, hd, hm, hz, htext, -⟩ := habout memoryPath s _ _ hload rfl
  refine ⟨hload, fun heq => ?_, hback s _ x read?_nested hholds hx, d, m, z, hd, hm, hz, htext⟩
  have hsame := hdistinct s s _ _ x y read?_nested read?_nested hholds hholds' hx (.string _) heq
  exact Value.noConfusion hsame

end Schema

end Telemetry
