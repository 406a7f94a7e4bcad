import Telemetry.Proofs.Header.Reading
import Telemetry.Proofs.Schema.Names

/-!
# The checksum of a header

The runtime goes through the registration table and finds the number of a message type and the codes
of its fields under the names that the row gives. `C.contexts?` does so on a header that has been
read as C; a name under which there is not exactly one thing leads to nothing.

For the header of an accepted document every name leads to one thing, and the checksum of what is
found is the number that the header declares (`Schema.contexts?_headerText`).
-/

namespace Telemetry

namespace C

/-- What stands under a key, if that is exactly one thing. -/
def only? {α : Type} (key : String) (entries : List (String × α)) : Option α :=
  match entries.filter (·.1 = key) with
  | [e] => some e.2
  | _ => none

/-- The member of a row, if it is given by a single word. -/
def word? (key : String) (row : List (String × List Token)) : Option String :=
  match only? key row with
  | some [.word w] => some w
  | _ => none

/-- What the runtime finds through a row of the registration table. -/
structure Context where
  /-- The value of the enumeration constant. -/
  value : Nat
  /-- How many codes there are according to the row. -/
  length : Nat
  /-- The items of the array that the row names. -/
  codes : List Nat
deriving DecidableEq, Repr

/-- Finds what a row refers to. -/
def context? (u : TranslationUnit) (row : List (String × List Token)) : Option Context := do
  let constant ← only? (← word? "msgtype" row) (TranslationUnit.enumerators u)
  let items ← only? (← word? "format" row) (TranslationUnit.arrays u)
  let length ← word? "format_len" row
  pure ⟨← numeral? constant, ← numeral? length, ← items.mapM numeral?⟩

/-- Finds what the rows of the registration table refer to, in order. -/
def contexts? (u : TranslationUnit) : Option (List Context) := do
  (← only? "msgspec_ctxs" (TranslationUnit.tables u)).mapM (context? u)

/-- The numbers that the runtime takes the checksum of: for each row the value of the constant, then
as many codes as the row says. -/
def signature (contexts : List Context) : List Nat :=
  contexts.flatMap fun x => x.value :: x.codes.take x.length

/-- Through its registration table a header gives the runtime these constants and codes, whose
checksum is the one it declares: every array is as long as its row says, all numbers are bytes, and
the checksum is written with four hexadecimal digits. -/
structure Agrees (u : TranslationUnit) (contexts : List Context) (checksum : Checksum) : Prop where
  found : contexts? u = some contexts
  length : ∀ x ∈ contexts, x.codes.length = x.length
  bytes : ∀ n ∈ signature contexts, n < 256
  ofBytes : Checksum.ofBytes ((signature contexts).map Nat.toUInt8) = checksum
  declared : ∃ text digits,
    only? "msgspec_schema_csum" (TranslationUnit.constants u) = some text ∧
      text.toList = '0' :: 'x' :: digits ∧ digits.length = 4 ∧ numeral? text = some checksum.toNat

/-- If no key is used twice, a key leads to what stands under it. -/
theorem only?_eq_some {α : Type} {entries : List (String × α)} (h : (entries.map Prod.fst).Nodup)
    {key : String} {x : α} (hx : (key, x) ∈ entries) : only? key entries = some x := by
  have hfilter : entries.filter (·.1 = key) = [(key, x)] := by
    induction entries with
    | nil => cases hx
    | cons e es ih =>
      rw [List.map_cons, List.nodup_cons] at h
      rcases List.mem_cons.mp hx with rfl | hmem
      · have hnone : es.filter (·.1 = key) = [] := by
          rw [List.filter_eq_nil_iff]
          intro e he
          have hne : e.1 ≠ key := fun heq => h.1 (List.mem_map.mpr ⟨e, he, heq⟩)
          simpa using hne
        rw [List.filter_cons_of_pos (by simp), hnone]
      · have hne : e.1 ≠ key := fun heq => h.1 (List.mem_map.mpr ⟨_, hmem, heq.symm⟩)
        rw [List.filter_cons_of_neg (by simpa using hne), ih h.2 hmem]
  rw [only?, hfilter]

end C

open C (Token)

/-- What the runtime is to find for a message type. -/
def Message.context (m : Message) : C.Context :=
  ⟨m.id.toNat, m.fields.length, m.format.map UInt8.toNat⟩

namespace Schema

variable {s : Schema}

/-- The constant of a message type leads to its number. -/
theorem WellFormed.only?_enumerators (h : s.WellFormed) {m : Message} (hm : m ∈ s.messages) :
    C.only? m.ident (C.TranslationUnit.enumerators s.header.items) =
      some (toString m.id.toNat) := by
  rw [Header.enumerators_items]
  refine C.only?_eq_some ?_ ?_
  · simp only [header, List.map_map]
    exact h.messages.idents
  · simp only [header, List.map_map]
    exact List.mem_map_of_mem (f := Enumerator.constant ∘ Message.enumerator) hm

/-- The name of a format array leads to the codes of the fields. -/
theorem WellFormed.only?_arrays (h : s.WellFormed) {m : Message} (hm : m ∈ s.messages) :
    C.only? m.formatName (C.TranslationUnit.arrays s.header.items) =
      some (m.format.map fun c => toString c.toNat) := by
  rw [Header.arrays_items]
  refine C.only?_eq_some ?_ (List.mem_cons_of_mem _ ?_)
  · have hformats := h.messages.nodup_map fun _ _ => Message.formatName_injective
    -- there is one more array, with the constants of the bundles
    have hfixed : "msgspec_bundle_types" ∉ s.messages.map Message.formatName := by
      intro hmem
      obtain ⟨n, -, hn⟩ := List.mem_map.mp hmem
      have htake := congrArg (fun x => x.toList.take 10) hn
      simp [Message.formatName] at htake
    simp only [header, List.map_map, List.map_cons]
    exact List.nodup_cons.mpr ⟨hfixed, hformats⟩
  · simp only [header, List.map_map]
    exact List.mem_map.mpr ⟨m, hm, rfl⟩

/-- The row of a message type leads to its number and the codes of its fields. -/
theorem WellFormed.context?_row (h : s.WellFormed) {m : Message} (hm : m ∈ s.messages) :
    C.context? s.header.items m.row.fields = some m.context := by
  have hmsgtype : C.word? "msgtype" m.row.fields = some m.ident := rfl
  have hformat : C.word? "format" m.row.fields = some m.formatName := rfl
  have hlength : C.word? "format_len" m.row.fields = some (toString m.fields.length) := rfl
  have hcodes : (m.format.map fun c => toString c.toNat).mapM C.numeral? =
      some (m.format.map UInt8.toNat) := by
    rw [List.mapM_map]
    exact mapM_eq_some fun c _ => C.numeral?_toString c.toNat
  simp only [C.context?, hmsgtype, hformat, hlength, h.only?_enumerators hm, h.only?_arrays hm,
    hcodes, C.numeral?_toString, Option.bind_eq_bind, Option.bind_some, Option.pure_def]
  rfl

/-- The registration table leads to the numbers and codes of all message types, in order. -/
theorem WellFormed.contexts?_items (h : s.WellFormed) :
    C.contexts? s.header.items = some (s.messages.map Message.context) := by
  have htable : C.only? "msgspec_ctxs" (C.TranslationUnit.tables s.header.items) =
      some (s.header.rows.map Row.fields) := by
    rw [Header.tables_items]
    rfl
  rw [C.contexts?, htable]
  simp only [header, List.map_map, Option.bind_eq_bind, Option.bind_some, List.mapM_map]
  exact mapM_eq_some fun m hm => h.context?_row hm

/-- What the runtime takes the checksum of is the signature of the schema. -/
theorem signature_map_context (s : Schema) :
    C.signature (s.messages.map Message.context) = s.signature.map UInt8.toNat := by
  rw [C.signature, signature, List.flatMap_map, List.map_flatMap]
  refine congrArg (s.messages.flatMap ·) (funext fun m => ?_)
  have hlength : (m.format.map UInt8.toNat).length = m.fields.length := by simp [Message.format]
  simp only [Message.context, List.map_cons, ← hlength, List.take_length]

/-- The checksum as a fold over the fields within a fold over the message types. -/
theorem checksum_eq_foldl (s : Schema) :
    s.checksum = s.messages.foldl (fun crc m =>
      m.fields.foldl (fun crc f => crc.absorb f.type.code) (crc.absorb m.id)) .initial := by
  have hfold (messages : List Message) (crc : Checksum) :
      crc.absorbAll (messages.flatMap fun m => m.id :: m.format) =
        messages.foldl (fun crc m =>
          m.fields.foldl (fun crc f => crc.absorb f.type.code) (crc.absorb m.id)) crc := by
    -- the register varies, since it carries on from one message type to the next
    induction messages generalizing crc with
    | nil => rfl
    | cons m ms ih =>
      rw [List.flatMap_cons, Checksum.absorbAll_append, ih, Checksum.absorbAll_cons,
        List.foldl_cons, Checksum.absorbAll, Message.format, List.foldl_map]
  exact hfold s.messages .initial

/-- The header of a well-formed schema declares the checksum of what its table leads to. -/
theorem WellFormed.agrees_items (h : s.WellFormed) :
    C.Agrees s.header.items (s.messages.map Message.context) s.checksum where
  found := h.contexts?_items
  length := by
    intro x hx
    obtain ⟨m, -, rfl⟩ := List.mem_map.mp hx
    simp [Message.context, Message.format]
  bytes := by
    intro n hn
    rw [signature_map_context] at hn
    obtain ⟨b, -, rfl⟩ := List.mem_map.mp hn
    exact b.toNat_lt
  ofBytes := by
    rw [signature_map_context, List.map_map]
    have hbytes : Nat.toUInt8 ∘ UInt8.toNat = id := funext fun b => by simp
    rw [hbytes, List.map_id]
    rfl
  declared := by
    refine ⟨hexWord s.checksum.toNat, _, ?_, C.toList_hexWord _, by simp,
      C.numeral?_hexWord s.checksum.isLt⟩
    rw [Header.constants_items]
    rfl

/-- Through the registration table of an accepted document the runtime finds, for each row in order,
one constant with the number of the message type and one array with the codes of its fields. The
checksum of these is the number that the header declares, and the checksum of the schema. -/
theorem contexts?_headerText {d : Bytes} (h : load? d = .ok s) :
    ∃ u, C.read? s.headerText = some u ∧
      C.Agrees u (s.messages.map Message.context) s.checksum ∧
      s.checksum = s.messages.foldl (fun crc m =>
        m.fields.foldl (fun crc f => crc.absorb f.type.code) (crc.absorb m.id)) .initial := by
  have hs := wellFormed_of_load? h
  exact ⟨s.header.items, hs.read?_headerText, hs.agrees_items, checksum_eq_foldl s⟩

/-- A document with two message types, one of which has fields. -/
theorem contexts?_headerText_pair :
    let d := Text.Utf8.ofString ("\x7b\"a\":\x7b\"id\":7,\"bundle\":true,"
      ++ "\"data_types\":\x7b\"x\":4,\"y\":0\x7d\x7d,\"b\":\x7b\"id\":255\x7d\x7d")
    let s : Schema :=
      ⟨[⟨"a", "A", 7, true, [⟨"x", .uint16⟩, ⟨"y", .seconds⟩]⟩, ⟨"b", "B", 255, false, []⟩]⟩
    load? d = .ok s ∧ ∃ u, C.read? s.headerText = some u ∧
      C.Agrees u [⟨7, 2, [4, 0]⟩, ⟨255, 0, []⟩] s.checksum := by
  intro d s
  have hload : load? d = .ok s := by
    simp only [d, s]
    cbv
  obtain ⟨u, hread, hagrees, -⟩ := contexts?_headerText hload
  exact ⟨hload, u, hread, hagrees⟩

end Schema

end Telemetry
