import Telemetry.Proofs.Header.Scope
import Telemetry.Proofs.Schema.Refusal

/-!
# Members of structures

What a compiler finds in the structures of a header (`Schema.members_of_load?`). The structure for
an entry of a document has a member for each field, under the name that the field has there. These
names are distinct and have the form of identifiers, and a name of another form is refused.

What is not looked at is whether a name is a keyword. So a structure can have a member that no
compiler takes, and it has one exactly if a field is called like a keyword. At file scope that
cannot happen (`Schema.WellFormed.not_mem_keywords`): constants are in upper case, and all other
names begin in a way that keywords do not.
-/

namespace Telemetry

namespace C

/-- The keywords of C11. -/
def keywords : List String :=
  ["auto", "break", "case", "char", "const", "continue", "default", "do", "double", "else", "enum",
    "extern", "float", "for", "goto", "if", "inline", "int", "long", "register", "restrict",
    "return", "short", "signed", "sizeof", "static", "struct", "switch", "typedef", "union",
    "unsigned", "void", "volatile", "while", "_Alignas", "_Alignof", "_Atomic", "_Bool", "_Complex",
    "_Generic", "_Imaginary", "_Noreturn", "_Static_assert", "_Thread_local"]

/-- Names that the members of a structure can have: distinct, of the form of identifiers, and none
of them a keyword. -/
structure LegalMembers (names : List String) : Prop where
  distinct : names.Nodup
  isName : ∀ name ∈ names, IsName name
  not_keyword : ∀ name ∈ names, name ∉ keywords

/-- Keywords have the form of identifiers. -/
theorem isName_of_mem_keywords {name : String} (h : name ∈ keywords) : IsName name := by
  have hall : ∀ word ∈ keywords, isIdentifier word = true := by decide
  exact isIdentifier_iff.mp (hall name h)

/-- Every keyword has a small letter. -/
theorem exists_isLower_of_mem_keywords {name : String} (h : name ∈ keywords) :
    ∃ c ∈ name.toList, c.isLower = true := by
  have hall : ∀ word ∈ keywords, word.toList.any Char.isLower = true := by decide
  exact List.any_eq_true.mp (hall name h)

end C

/-! ### The structure for an entry -/

/-- A structure, by its members and its name, that is made for an entry of a document: it is called
after the entry and has its fields for members, in order. -/
structure StructureFor (r : List (String × String) × String) (e : String × Definition) : Prop where
  name : r.2 = "msgspec_" ++ e.1 ++ "_t"
  members : r.1.map Prod.snd = e.2.fields.map Prod.fst
  distinct : (r.1.map Prod.snd).Nodup
  isName : ∀ name ∈ r.1.map Prod.snd, IsName name

/-- Its members are legal unless a field is called like a keyword. -/
theorem StructureFor.legalMembers_iff {r : List (String × String) × String}
    {e : String × Definition} (h : StructureFor r e) :
    C.LegalMembers (r.1.map Prod.snd) ↔ ∀ f ∈ e.2.fields, f.1 ∉ C.keywords := by
  have hnames : (∀ name ∈ r.1.map Prod.snd, name ∉ C.keywords) ↔
      ∀ f ∈ e.2.fields, f.1 ∉ C.keywords := by
    rw [h.members]
    exact List.forall_mem_map
  rw [← hnames]
  exact ⟨C.LegalMembers.not_keyword, fun hfree => ⟨h.distinct, h.isName, hfree⟩⟩

/-- The layout of a message type is made for the entry that describes it. -/
theorem Message.DescribedBy.structureFor {m : Message} {e : String × Definition}
    (h : m.DescribedBy e) (hm : m.WellFormed) :
    StructureFor (m.layout.members, m.layoutName) e := by
  have hmembers : m.layout.members.map Prod.snd = m.fields.map Field.name := by
    rw [layout, List.map_map]
    rfl
  obtain ⟨hnames, hdistinct⟩ := fieldsWellFormed_iff.mp hm.fields
  refine ⟨by rw [layoutName, h.name], ?_, hmembers ▸ hdistinct, hmembers ▸ hnames⟩
  rw [hmembers]
  exact map_eq_map_of_forall₂ h.fields fun _ _ hf => hf.name

/-! ### Names at file scope -/

/-- Names that a header makes up are no keywords. -/
theorem Header.IsMadeUp.not_mem_keywords {name : String} (h : Header.IsMadeUp name) :
    name ∉ C.keywords := by
  have hall : ∀ word ∈ C.keywords, ¬Header.IsMadeUp word := by decide
  exact fun hmem => hall name hmem h

/-- Constants are no keywords. -/
theorem Message.WellFormed.ident_not_mem_keywords {m : Message} (h : m.WellFormed) :
    m.ident ∉ C.keywords := by
  intro hmem
  obtain ⟨c, hc, hlower⟩ := C.exists_isLower_of_mem_keywords hmem
  exact h.ident_ne hc hlower rfl

namespace Schema

variable {s : Schema}

/-- No name that the header of a well-formed schema declares at file scope is a keyword. -/
theorem WellFormed.not_mem_keywords (h : s.WellFormed) :
    ∀ name ∈ C.TranslationUnit.names s.header.items, name ∉ C.keywords := by
  have hfixed : ∀ name ∈ Header.fixedNames, Header.IsMadeUp name := by decide
  intro name hname
  have hkinds := (names_perm s).mem_iff.mp hname
  simp only [List.mem_append, List.mem_map] at hkinds
  rcases hkinds with ⟨m, hm, rfl⟩ | hmem | ⟨m, -, rfl⟩ | ⟨m, -, rfl⟩ | ⟨m, -, rfl⟩
  · exact (h.messages.each m hm).ident_not_mem_keywords
  · exact (hfixed name hmem).not_mem_keywords
  · exact m.isMadeUp_senderName.not_mem_keywords
  · exact m.isMadeUp_layoutName.not_mem_keywords
  · exact m.isMadeUp_formatName.not_mem_keywords

/-- The header of a schema has one structure for each entry of the document, in order. -/
theorem structures_of_ofDocument? {d : Document} (h : ofDocument? d = .ok s) :
    List.Forall₂ StructureFor (C.TranslationUnit.records s.header.items) d := by
  obtain ⟨-, hdescribed, hwell⟩ := ofDocument?_eq_ok_iff.mp h
  have hrecords : C.TranslationUnit.records s.header.items =
      s.messages.map fun m => (m.layout.members, m.layoutName) := by
    rw [Header.records_items, header, List.map_map]
    rfl
  rw [hrecords, List.forall₂_map_left_iff]
  exact ((List.forall₂_and_left _ _).mpr ⟨hwell.each, hdescribed⟩).imp
    fun _ _ h => h.2.structureFor h.1

end Schema

/-! ### Names that are refused -/

/-- What is wrong with an entry first is a name that has not the form of an identifier: its own, or
that of a field behind an id and fields that make sense. -/
def Misnamed (m : String × Definition) (name : String) : Prop :=
  ¬IsName name ∧ (m.1 = name ∨ IsName m.1 ∧ ∃ before code after,
    m.2.fields = before ++ (name, code) :: after ∧
      Definition.Consistent { m.2 with fields := before })

theorem entryProblem_invalidIdentifier_iff {earlier : Document} {m : String × Definition}
    {name : String} : EntryProblem earlier m (.invalidIdentifier name) ↔ Misnamed m name := by
  constructor
  · intro h
    cases h with
    | alone h =>
      cases h with
      | name hname => exact ⟨hname, .inl rfl⟩
      | id _ hid =>
        generalize m.2.id = id at hid
        cases hid
      | field hm hsplit hbefore hf =>
        cases hf with
        | name hname => exact ⟨hname, .inr ⟨hm, _, _, _, hsplit, hbefore⟩⟩
  · rintro ⟨hname, rfl | ⟨hm, before, code, after, hsplit, hbefore⟩⟩
    · exact .alone (.name hname)
    · exact .alone (.field (f := (name, code)) hm hsplit hbefore (.name hname))

namespace Schema

variable {bytes : Bytes}

/-- A document is refused for a name exactly if that is what is wrong with it first. -/
theorem load?_eq_invalidIdentifier_iff {name : String} :
    load? bytes = .error (.invalid (.invalidIdentifier name)) ↔
      ∃ (earlier : Document) (m : String × Definition) (later : Document),
        Document.read? bytes = .ok (earlier ++ m :: later) ∧ earlier.Accepted ∧
          Misnamed m name := by
  rw [load?, ofBytes?_eq_invalid_iff]
  constructor
  · rintro ⟨d, hd, herror⟩
    obtain rfl | hne := eq_or_ne d []
    · cases herror
    · obtain ⟨earlier, m, later, rfl, hearlier, hproblem⟩ :=
        (ofDocument?_eq_error_iff_entryProblem hne).mp herror
      exact ⟨earlier, m, later, hd, hearlier, entryProblem_invalidIdentifier_iff.mp hproblem⟩
  · rintro ⟨earlier, m, later, hd, hearlier, hname⟩
    exact ⟨_, hd, ofDocument?_of_entryProblem hearlier
      (entryProblem_invalidIdentifier_iff.mpr hname) later⟩

/-- A document with a name that has not the form of an identifier is refused. -/
theorem exists_load?_eq_error {d : Document} (hd : Document.read? bytes = .ok d)
    (hname : ∃ m ∈ d, ¬IsName m.1 ∨ ∃ f ∈ m.2.fields, ¬IsName f.1) :
    ∃ e, load? bytes = .error (.invalid e) := by
  cases h : ofDocument? d with
  | error e => exact ⟨e, ofBytes?_eq_invalid_iff.mpr ⟨d, hd, h⟩⟩
  | ok s =>
    obtain ⟨hne, hmessages⟩ := ofDocument?_eq_ok_iff.mp h
    have hconsistent := Document.consistent_iff.mpr ⟨hne, s.messages, hmessages⟩
    obtain ⟨m, hm, hname | ⟨f, hf, hname⟩⟩ := hname
    · exact absurd (hconsistent.names m hm) hname
    · exact absurd ((hconsistent.definitions m hm).names f hf) hname

/-! ### Documents -/

/-- The header of a document that is accepted has one structure for each entry, whose members are
called like the fields. These names are distinct and have the form of identifiers, so the members
are legal exactly if no field is called like a keyword. No name at file scope is one.

A document with a name that has not the form of an identifier is refused, for that name exactly if
it is what is wrong first. No document is refused for a keyword. -/
theorem members_of_load? (bytes : Bytes) :
    (∀ s, load? bytes = .ok s → ∃ d u, Document.read? bytes = .ok d ∧
      C.read? s.headerText = some u ∧
        List.Forall₂ (fun r e => StructureFor r e ∧
          (C.LegalMembers (r.1.map Prod.snd) ↔ ∀ f ∈ e.2.fields, f.1 ∉ C.keywords))
            (C.TranslationUnit.records u) d ∧
          ∀ name ∈ C.TranslationUnit.names u, name ∉ C.keywords) ∧
      (∀ d, Document.read? bytes = .ok d →
        (∃ m ∈ d, ¬IsName m.1 ∨ ∃ f ∈ m.2.fields, ¬IsName f.1) →
          ∃ e, load? bytes = .error (.invalid e)) ∧
        ∀ name, (load? bytes = .error (.invalid (.invalidIdentifier name)) ↔
          ∃ (earlier : Document) (m : String × Definition) (later : Document),
            Document.read? bytes = .ok (earlier ++ m :: later) ∧ earlier.Accepted ∧
              Misnamed m name) ∧
          (name ∈ C.keywords → load? bytes ≠ .error (.invalid (.invalidIdentifier name))) := by
  refine ⟨fun s hs => ?_, fun _ => exists_load?_eq_error,
    fun name => ⟨load?_eq_invalidIdentifier_iff, fun hkeyword herror => ?_⟩⟩
  · obtain ⟨d, hd, hschema⟩ := load?_eq_ok_iff.mp hs
    have hwell := wellFormed_of_ofDocument? hschema
    refine ⟨d, s.header.items, hd, hwell.read?_headerText, ?_, hwell.not_mem_keywords⟩
    exact (structures_of_ofDocument? hschema).imp fun _ _ h => ⟨h, h.legalMembers_iff⟩
  · obtain ⟨-, -, -, -, -, hname, -⟩ := load?_eq_invalidIdentifier_iff.mp herror
    exact hname (C.isName_of_mem_keywords hkeyword)

/-- Two documents. In the first, which is accepted, one structure has a member called `switch` and
the members of the other are legal. The second is refused for a letter outside ASCII. -/
theorem members_of_load?_switch :
    let a := Text.Utf8.ofString ("\x7b\"relay\":\x7b\"id\":1,\"data_types\":\x7b\"switch\":2,"
      ++ "\"since\":0\x7d\x7d,\"temp\":\x7b\"id\":2,\"data_types\":\x7b\"value\":5\x7d\x7d\x7d")
    let s : Schema := ⟨[⟨"relay", "RELAY", 1, false, [⟨"switch", .uint8⟩, ⟨"since", .seconds⟩]⟩,
      ⟨"temp", "TEMP", 2, false, [⟨"value", .int16⟩]⟩]⟩
    let b := Text.Utf8.ofString
      "\x7b\"temp\":\x7b\"id\":2,\"data_types\":\x7b\"h\\u00f6he\":5\x7d\x7d\x7d"
    let m : String × Definition :=
      ("temp", ⟨some (.integer 2), false, [("höhe", .number (.integer 5))]⟩)
    (load? a = .ok s ∧ ∃ u x y, C.read? s.headerText = some u ∧
      C.TranslationUnit.records u = [x, y] ∧ ¬C.LegalMembers (x.1.map Prod.snd) ∧
        C.LegalMembers (y.1.map Prod.snd) ∧
          ∀ name ∈ C.TranslationUnit.names u, name ∉ C.keywords) ∧
      ("switch" ∈ C.keywords ∧ load? a ≠ .error (.invalid (.invalidIdentifier "switch"))) ∧
        (Document.read? b = .ok [m] ∧ ∃ e, load? b = .error (.invalid e)) ∧
          Misnamed m "höhe" ∧ load? b = .error (.invalid (.invalidIdentifier "höhe")) := by
  intro a s b m
  have hload : load? a = .ok s := by
    simp only [a, s]
    cbv
  have ha : Document.read? a = .ok [("relay", ⟨some (.integer 1), false,
      [("switch", .number (.integer 2)), ("since", .number (.integer 0))]⟩),
      ("temp", ⟨some (.integer 2), false, [("value", .number (.integer 5))]⟩)] := by
    simp only [a]
    cbv
  have hb : Document.read? b = .ok [m] := by
    simp only [b, m]
    cbv
  have hkeyword : "switch" ∈ C.keywords := by decide
  have hname : ¬IsName "höhe" := fun h => absurd (isIdentifier_iff.mpr h) (by decide)
  have hmisnamed : Misnamed m "höhe" := by
    refine ⟨hname, .inr ⟨isIdentifier_iff.mp (by decide), [], _, [], rfl, ?_⟩⟩
    exact ⟨⟨2, by decide, rfl⟩, by simp, by simp, by simp⟩
  obtain ⟨haccepted, -, hnamed⟩ := members_of_load? a
  obtain ⟨-, hrefused, hfirst⟩ := members_of_load? b
  have herror := hrefused _ hb ⟨m, List.mem_cons_self, .inr ⟨_, List.mem_cons_self, hname⟩⟩
  refine ⟨⟨hload, ?_⟩, ⟨hkeyword, (hnamed "switch").2 hkeyword⟩, ⟨hb, herror⟩, hmisnamed,
    (hfirst "höhe").1.mpr ⟨[], m, [], hb, .inl rfl, hmisnamed⟩⟩
  obtain ⟨d, u, hd, hu, hall, hfree⟩ := haccepted s hload
  rw [ha] at hd
  cases hd
  obtain ⟨x, l, ⟨-, hx⟩, hl, hrecords⟩ := List.forall₂_cons_right_iff.mp hall
  obtain ⟨y, l, ⟨-, hy⟩, hnil, rfl⟩ := List.forall₂_cons_right_iff.mp hl
  obtain rfl := List.forall₂_nil_right_iff.mp hnil
  exact ⟨u, x, y, hu, hrecords, fun h => hx.mp h _ List.mem_cons_self hkeyword,
    hy.mpr (by decide), hfree⟩

/-- Not all members of structures are legal: a field may be called `switch`. -/
theorem not_legalMembers_of_load? :
    ¬∀ bytes s u, load? bytes = .ok s → C.read? s.headerText = some u →
      ∀ r ∈ C.TranslationUnit.records u, C.LegalMembers (r.1.map Prod.snd) := by
  intro h
  let s : Schema := ⟨[⟨"relay", "RELAY", 1, false, [⟨"switch", .uint8⟩]⟩]⟩
  have hload : load? (Text.Utf8.ofString
      "\x7b\"relay\":\x7b\"id\":1,\"data_types\":\x7b\"switch\":2\x7d\x7d\x7d") = .ok s := by
    simp only [s]
    cbv
  have hmem : ([("uint8_t", "switch")], "msgspec_relay_t") ∈
      C.TranslationUnit.records s.header.items := by
    rw [Header.records_items]
    exact List.mem_singleton.mpr rfl
  have hlegal := h _ s _ hload (wellFormed_of_load? hload).read?_headerText _ hmem
  exact hlegal.not_keyword "switch" List.mem_cons_self (by decide)

end Schema

end Telemetry
