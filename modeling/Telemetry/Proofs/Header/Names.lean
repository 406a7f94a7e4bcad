import Telemetry.Proofs.Header.Reading
import Telemetry.Proofs.Schema.Names

/-!
# Names that headers declare

Which of the names that a header declares at file scope are the same. The constants of a schema that
is accepted are distinct, and so are the names of its layouts, of its functions and of its arrays.
What is not compared is one kind of name with another: a layout can have the name of the enumeration
or of the array of another message type (`Schema.nodup_names_iff`).
-/

namespace Telemetry

namespace Header

/-- The names that every header declares, whatever the schema. -/
def fixedNames : List String :=
  ["msgspec_types_t", "msgspec_types_len", "msgspec_bundle_types_len", "msgspec_bundle_types",
    "msgspec_ctxs", "msgspec_ctxs_len", "msgspec_schema_csum", "tbi_register_msgspec"]

end Header

namespace Message

variable {m n : Message}

/-! ### Names of different kinds -/

theorem senderName_ne_layoutName : m.senderName ≠ n.layoutName := by
  intro h
  have htake := congrArg (fun x => x.toList.take 1) h
  simp [senderName, layoutName] at htake

theorem senderName_ne_formatName : m.senderName ≠ n.formatName := by
  intro h
  have htake := congrArg (fun x => x.toList.take 1) h
  simp [senderName, formatName] at htake

/-- No function that sends has a fixed name. -/
theorem ne_senderName {name : String} (h : name ∈ Header.fixedNames) : name ≠ m.senderName := by
  have hfixed : ∀ x ∈ Header.fixedNames, x.toList.take 9 ≠ "tbi_send_".toList := by decide
  rintro rfl
  exact hfixed _ h (by simp [senderName])

/-- No format array has a fixed name. -/
theorem ne_formatName {name : String} (h : name ∈ Header.fixedNames) : name ≠ m.formatName := by
  have hfixed : ∀ x ∈ Header.fixedNames, x.toList.take 15 ≠ "msgspec_binary_".toList := by decide
  rintro rfl
  exact hfixed _ h (by simp [formatName])

/-- The only fixed name that a layout can have is that of the enumeration. -/
theorem layoutName_mem_fixedNames_iff : m.layoutName ∈ Header.fixedNames ↔ m.name = "types" := by
  have htypes : "msgspec_types_t" = (⟨"types", "", 0, false, []⟩ : Message).layoutName := rfl
  constructor
  · intro h
    have hfixed : ∀ x ∈ Header.fixedNames,
        x.toList.getLast? = some 't' → x = "msgspec_types_t" := by
      decide
    -- of the fixed names only that of the enumeration ends like a layout
    have hlast : m.layoutName.toList.getLast? = some 't' := by
      rw [layoutName, String.toList_append, List.getLast?_append]
      rfl
    exact layoutName_injective ((hfixed _ h hlast).trans htypes)
  · intro h
    have hname : m.layoutName = "msgspec_types_t" := by
      rw [layoutName, h]
      rfl
    rw [hname]
    decide

/-- All names but the constants have a small letter. -/
theorem WellFormed.ident_ne_of_mem (h : m.WellFormed) {name : String} {messages : List Message}
    (hname : name ∈ Header.fixedNames ++ (messages.map senderName ++
      (messages.map layoutName ++ messages.map formatName))) : m.ident ≠ name := by
  simp only [List.mem_append, List.mem_map] at hname
  rcases hname with hname | ⟨n, -, rfl⟩ | ⟨n, -, rfl⟩ | ⟨n, -, rfl⟩
  · have hfixed : ∀ x ∈ Header.fixedNames, 's' ∈ x.toList := by decide
    exact h.ident_ne (hfixed name hname) rfl
  · exact h.ident_ne (c := 's') (by simp [senderName]) rfl
  · exact h.ident_ne (c := 's') (by simp [layoutName]) rfl
  · exact h.ident_ne (c := 's') (by simp [formatName]) rfl

end Message

namespace Schema

variable {s : Schema}

/-- The names that the header of a schema declares, sorted by kind. -/
theorem names_perm (s : Schema) :
    (C.TranslationUnit.names s.header.items).Perm
      (s.messages.map Message.ident ++ (Header.fixedNames ++ (s.messages.map Message.senderName ++
        (s.messages.map Message.layoutName ++ s.messages.map Message.formatName)))) := by
  have henum : s.header.enumerators.map Enumerator.ident = s.messages.map Message.ident :=
    List.map_map
  have hlayouts : s.header.layouts.map Layout.name = s.messages.map Message.layoutName :=
    List.map_map
  have hsenders : s.header.senders.map Sender.function = s.messages.map Message.senderName :=
    List.map_map
  have hformats : s.header.formats.map FormatArray.name = s.messages.map Message.formatName :=
    List.map_map
  -- the fixed names stand in two places, so it takes more than commuting two lists
  rw [Header.names_items, henum, hlayouts, hsenders, hformats, List.perm_iff_count]
  intro x
  simp only [Header.fixedNames, List.count_append, List.count_cons, List.count_nil]
  omega

/-- The names that a header declares are distinct exactly if no layout has a fixed name or the name
of a format array. -/
theorem WellFormed.nodup_names_items_iff (h : s.WellFormed) :
    (C.TranslationUnit.names s.header.items).Nodup ↔
      (∀ m ∈ s.messages, m.layoutName ∉ Header.fixedNames) ∧
        ∀ m ∈ s.messages, ∀ n ∈ s.messages, m.layoutName ≠ n.formatName := by
  have hidents := h.messages.idents
  have hsenders := h.messages.nodup_map fun _ _ => Message.senderName_injective
  have hlayouts := h.messages.nodup_map fun _ _ => Message.layoutName_injective
  have hformats := h.messages.nodup_map fun _ _ => Message.formatName_injective
  rw [(names_perm s).nodup_iff]
  -- each kind is set apart from those behind it; only two of the pairs are not settled already
  constructor
  · intro hall
    obtain ⟨-, hrest, -⟩ := List.nodup_append.mp hall
    obtain ⟨-, hkinds, hfixed⟩ := List.nodup_append.mp hrest
    obtain ⟨-, hboth, -⟩ := List.nodup_append.mp hkinds
    obtain ⟨-, -, hlf⟩ := List.nodup_append.mp hboth
    refine ⟨fun m hm hmem => hfixed _ hmem m.layoutName ?_ rfl, fun m hm n hn => ?_⟩
    · simp only [List.mem_append, List.mem_map]
      exact .inr (.inl ⟨m, hm, rfl⟩)
    · exact hlf _ (List.mem_map_of_mem hm) _ (List.mem_map_of_mem hn)
  · rintro ⟨hfixed, hlf⟩
    refine List.nodup_append.mpr ⟨hidents, List.nodup_append.mpr ⟨by decide,
      List.nodup_append.mpr ⟨hsenders, List.nodup_append.mpr ⟨hlayouts, hformats, ?_⟩, ?_⟩, ?_⟩, ?_⟩
    · intro x hx y hy
      obtain ⟨m, hm, rfl⟩ := List.mem_map.mp hx
      obtain ⟨n, hn, rfl⟩ := List.mem_map.mp hy
      exact hlf m hm n hn
    · intro x hx y hy
      obtain ⟨m, -, rfl⟩ := List.mem_map.mp hx
      rcases List.mem_append.mp hy with hy | hy
      · obtain ⟨n, -, rfl⟩ := List.mem_map.mp hy
        exact Message.senderName_ne_layoutName
      · obtain ⟨n, -, rfl⟩ := List.mem_map.mp hy
        exact Message.senderName_ne_formatName
    · intro x hx y hy
      simp only [List.mem_append, List.mem_map] at hy
      rcases hy with ⟨m, -, rfl⟩ | ⟨m, hm, rfl⟩ | ⟨m, -, rfl⟩
      · exact Message.ne_senderName hx
      · rintro rfl
        exact hfixed m hm hx
      · exact Message.ne_formatName hx
    · intro x hx y hy
      obtain ⟨m, hm, rfl⟩ := List.mem_map.mp hx
      exact (h.messages.each m hm).ident_ne_of_mem hy

/-- The names that the header of an accepted document declares are distinct exactly if no message
type is called `types` and no layout has the name of a format array. -/
theorem nodup_names_iff {d : Bytes} (h : load? d = .ok s) :
    ∃ u, C.read? s.headerText = some u ∧
      ((C.TranslationUnit.names u).Nodup ↔
        (∀ m ∈ s.messages, m.name ≠ "types") ∧
          ∀ m ∈ s.messages, ∀ n ∈ s.messages, m.name ++ "_t" ≠ "binary_" ++ n.name) := by
  have hs := wellFormed_of_load? h
  refine ⟨s.header.items, hs.read?_headerText, ?_⟩
  simp only [hs.nodup_names_items_iff, Message.layoutName_mem_fixedNames_iff, ne_eq,
    Message.layoutName_eq_formatName_iff]

/-- All names in the header of this document are distinct. -/
theorem nodup_names_single :
    let d := Text.Utf8.ofString "\x7b\"a\":\x7b\"id\":1\x7d\x7d"
    let s : Schema := ⟨[⟨"a", "A", 1, false, []⟩]⟩
    load? d = .ok s ∧
      ∃ u, C.read? s.headerText = some u ∧ (C.TranslationUnit.names u).Nodup := by
  intro d s
  have hload : load? d = .ok s := by
    simp only [d, s]
    cbv
  obtain ⟨u, hread, hnodup⟩ := nodup_names_iff hload
  exact ⟨hload, u, hread, hnodup.mpr (by decide)⟩

/-- Two documents that are accepted although the header declares a name twice: in the first the
layout of one message type and the array of the other, in the second the layout and the enumeration.
-/
theorem not_nodup_names :
    let d₁ := Text.Utf8.ofString "\x7b\"binary\":\x7b\"id\":1\x7d,\"t\":\x7b\"id\":2\x7d\x7d"
    let s₁ : Schema := ⟨[⟨"binary", "BINARY", 1, false, []⟩, ⟨"t", "T", 2, false, []⟩]⟩
    let d₂ := Text.Utf8.ofString "\x7b\"types\":\x7b\"id\":1\x7d\x7d"
    let s₂ : Schema := ⟨[⟨"types", "TYPES", 1, false, []⟩]⟩
    (load? d₁ = .ok s₁ ∧
      ∃ u, C.read? s₁.headerText = some u ∧ ¬(C.TranslationUnit.names u).Nodup) ∧
    (load? d₂ = .ok s₂ ∧
      ∃ u, C.read? s₂.headerText = some u ∧ ¬(C.TranslationUnit.names u).Nodup) := by
  intro d₁ s₁ d₂ s₂
  have h₁ : load? d₁ = .ok s₁ := by
    simp only [d₁, s₁]
    cbv
  have h₂ : load? d₂ = .ok s₂ := by
    simp only [d₂, s₂]
    cbv
  have hs₁ := wellFormed_of_load? h₁
  have hs₂ := wellFormed_of_load? h₂
  refine ⟨⟨h₁, _, hs₁.read?_headerText, ?_⟩, h₂, _, hs₂.read?_headerText, ?_⟩
  · rw [hs₁.nodup_names_items_iff]
    rintro ⟨-, hformats⟩
    exact hformats ⟨"binary", "BINARY", 1, false, []⟩ (by decide) ⟨"t", "T", 2, false, []⟩
      (by decide) rfl
  · rw [hs₂.nodup_names_items_iff]
    rintro ⟨hfixed, -⟩
    exact hfixed ⟨"types", "TYPES", 1, false, []⟩ (by decide) (by decide)

end Schema

end Telemetry
