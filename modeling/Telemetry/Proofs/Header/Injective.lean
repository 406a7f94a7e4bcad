import Telemetry.Proofs.Compose
import Telemetry.Proofs.Header.Reading
import Telemetry.Proofs.Schema.Names

/-!
# Headers tell schemas apart

Two documents whose headers have the same text describe the same schema. The text is read back as C;
what is declared there for a message type (`Message.inC`) says everything about it. So a header that
is found up to date was made from the schema that the input describes.
-/

namespace Telemetry

open C (Token)

/-- Different types have different names in C. -/
theorem WireType.cType_injective {t u : WireType} (h : t.cType = u.cType) : t = u := by
  cases t <;> cases u <;> first | rfl | (revert h; decide)

theorem boolText_injective {a b : Bool} (h : boolText a = boolText b) : a = b := by
  cases a <;> cases b <;> first | rfl | (revert h; decide)

/-- Different texts have different bytes. -/
theorem Text.Utf8.ofString_injective {s t : String} (h : ofString s = ofString t) : s = t := by
  have hs := decode?_ofString s
  rw [h, decode?_ofString] at hs
  exact (Option.some.inj hs).symm

namespace Message

/-- What a header says about a message type in C: its constant, its layout and its row. -/
def inC (m : Message) :
    (String × String) × (List (String × String) × String) × List (String × List Token) :=
  (m.enumerator.constant, (m.layout.members, m.layout.name), m.row.fields)

/-- The members of a layout determine the fields. -/
theorem fields_eq_of_members_eq {m n : Message} (h : m.layout.members = n.layout.members) :
    m.fields = n.fields := by
  refine (List.map_inj_right ?_).mp h
  intro x y hxy
  obtain ⟨htype, hname⟩ := Prod.ext_iff.mp hxy
  cases x
  cases y
  exact congr (congrArg Field.mk hname) (WireType.cType_injective htype)

/-- What a header says about a message type determines the message type. -/
theorem inC_injective {m n : Message} (h : m.inC = n.inC) : m = n := by
  obtain ⟨hconstant, hrest⟩ := Prod.ext_iff.mp h
  obtain ⟨hrecord, hrow⟩ := Prod.ext_iff.mp hrest
  obtain ⟨hident, hvalue⟩ : m.ident = n.ident ∧ toString m.id.toNat = toString n.id.toNat :=
    Prod.ext_iff.mp hconstant
  obtain ⟨hmembers, hlayout⟩ : m.layout.members = n.layout.members ∧ m.layoutName = n.layoutName :=
    Prod.ext_iff.mp hrecord
  have hid : m.id = n.id := UInt8.toNat_inj.mp (C.toString_injective hvalue)
  have hname : m.name = n.name := layoutName_injective hlayout
  have hbundle : m.bundle = n.bundle := by
    have hvalues : m.row.fields = n.row.fields := hrow
    simp only [row, Row.fields, List.cons.injEq, Prod.mk.injEq, true_and, and_true,
      Token.word.injEq] at hvalues
    exact boolText_injective hvalues.2.1
  have hfields : m.fields = n.fields := fields_eq_of_members_eq hmembers
  cases m
  cases n
  simp_all

end Message

namespace Schema

variable {s s₁ s₂ : Schema}

/-- The declarations of a header contain what is said about each message type. -/
theorem map_inC (s : Schema) :
    s.messages.map Message.inC =
      (C.TranslationUnit.enumerators s.header.items).zip
        ((C.TranslationUnit.records s.header.items).zip
          ((C.TranslationUnit.tables s.header.items).flatMap Prod.snd)) := by
  rw [Header.enumerators_items, Header.records_items, Header.tables_items]
  simp only [header, List.map_map, List.flatMap_cons, List.flatMap_nil, List.append_nil,
    List.zip_map']
  rfl

/-- Well-formed schemas are told apart by their headers. -/
theorem WellFormed.eq_of_headerText_eq (h₁ : s₁.WellFormed) (h₂ : s₂.WellFormed)
    (h : s₁.headerText = s₂.headerText) : s₁ = s₂ := by
  -- the text is read back to one header only
  have hitems : s₁.header.items = s₂.header.items := by
    have hread := h₁.read?_headerText
    rw [h, h₂.read?_headerText] at hread
    exact (Option.some.inj hread).symm
  have hmap : s₁.messages.map Message.inC = s₂.messages.map Message.inC := by
    rw [map_inC, map_inC, hitems]
  have hmessages := (List.map_inj_right fun _ _ => Message.inC_injective).mp hmap
  cases s₁
  cases s₂
  exact congrArg Schema.mk hmessages

/-- Documents whose headers have the same text describe the same schema. So an output file with the
header of a schema is up to date exactly if the input describes that schema. -/
theorem headerText_injective {d₁ d₂ : Bytes} (h₁ : load? d₁ = .ok s₁) (h₂ : load? d₂ = .ok s₂) :
    (s₁.headerText = s₂.headerText → s₁ = s₂) ∧
      ∀ (f : Files) (writer : Nat) (config : Config), config.mode = .check →
        f.read (.ofString config.output) = .ok (Text.Utf8.ofString s₁.headerText) →
        (((Program.compose writer config).run f).result = .ok .upToDate ↔
          ∃ d, f.read (.ofString config.input) = .ok d ∧ load? d = .ok s₁) := by
  have hinj : ∀ {s}, s.WellFormed → s₁.headerText = s.headerText → s₁ = s :=
    (wellFormed_of_load? h₁).eq_of_headerText_eq
  refine ⟨hinj (wellFormed_of_load? h₂), fun f writer config hmode hout => ?_⟩
  rw [Program.result_compose_eq_upToDate_iff hmode, hout]
  constructor
  · rintro ⟨d, s, hread, hs, htext⟩
    have hs₁ : s₁ = s := hinj (wellFormed_of_load? hs)
      (Text.Utf8.ofString_injective (Except.ok.inj htext))
    exact ⟨d, hread, hs₁ ▸ hs⟩
  · rintro ⟨d, hread, hs⟩
    exact ⟨d, s₁, hread, hs, rfl⟩

/-- Two documents with the same header: what is made from one is up to date for the other. -/
theorem headerText_injective_blanks :
    let d₁ := Text.Utf8.ofString "\x7b\"a\":\x7b\"id\":1\x7d\x7d"
    let d₂ := Text.Utf8.ofString "\x7b \"a\" : \x7b \"id\" : 1 \x7d \x7d"
    let s₁ : Schema := ⟨[⟨"a", "A", 1, false, []⟩]⟩
    let s₂ : Schema := ⟨[⟨"a", "A", 1, false, []⟩]⟩
    let f : Files := ⟨[(["i"], .file d₂), (["o"], .file (Text.Utf8.ofString s₁.headerText))], []⟩
    load? d₁ = .ok s₁ ∧ load? d₂ = .ok s₂ ∧ d₁ ≠ d₂ ∧ s₁ = s₂ ∧
      ((Program.compose 0 ⟨"i", "o", .check⟩).run f).result = .ok .upToDate := by
  intro d₁ d₂ s₁ s₂ f
  have h₁ : load? d₁ = .ok s₁ := by
    simp only [d₁, s₁]
    cbv
  have h₂ : load? d₂ = .ok s₂ := by
    simp only [d₂, s₂]
    cbv
  have hread : ∀ a b : Bytes,
      (⟨[(["i"], .file a), (["o"], .file b)], []⟩ : Files).read (.ofString "i") = .ok a ∧
        (⟨[(["i"], .file a), (["o"], .file b)], []⟩ : Files).read (.ofString "o") = .ok b :=
    fun _ _ => ⟨rfl, rfl⟩
  obtain ⟨hin, hout⟩ := hread d₂ (Text.Utf8.ofString s₁.headerText)
  obtain ⟨hinj, hcheck⟩ := headerText_injective h₁ h₂
  have hne : d₁ ≠ d₂ := by decide
  exact ⟨h₁, h₂, hne, hinj rfl, (hcheck f 0 ⟨"i", "o", .check⟩ rfl hout).mpr ⟨d₂, hin, h₂⟩⟩

end Schema

end Telemetry
