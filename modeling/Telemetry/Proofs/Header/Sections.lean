import Telemetry.Proofs.Header.Checksum
import Telemetry.Proofs.Header.Names

/-!
# The sections of a header

What a reader finds in the sections of a header that has been read as C: constants, layouts with the
comments in front of them, functions that send, arrays of codes and rows of the registration table,
and the numbers of these that the header declares (`Header.Reading.ofC?`). A declaration that is not
of the form that a section has leads to nothing.

In the header of a schema the sections agree with each other (`Schema.agrees_reading`), and in that
of a well-formed schema they are read back (`Schema.WellFormed.ofC?_items`).
-/

namespace Telemetry

open C (Item Token)

/-! ### Reading the declarations of a section -/

namespace C

/-- The value of a numeral, if it fits in a byte. -/
def byte? (numeral : String) : Option UInt8 := do
  let n ← numeral? numeral
  if n < 256 then some n.toUInt8 else none

/-- The truth value of a name. -/
def truth? (w : String) : Option Bool :=
  if w = "true" then some true else if w = "false" then some false else none

theorem byte?_toString (b : UInt8) : byte? (toString b.toNat) = some b := by
  rw [byte?, numeral?_toString, Option.bind_eq_bind, Option.bind_some, if_pos b.toNat_lt]
  simp

theorem truth?_boolText (b : Bool) : truth? (boolText b) = some b := by
  cases b <;> rfl

end C

namespace Enumerator

/-- The constant that a name and a numeral give. -/
def ofC? (c : String × String) : Option Enumerator := do
  pure ⟨c.1, ← C.byte? c.2⟩

theorem ofC?_constant (e : Enumerator) : ofC? e.constant = some e := by
  rw [ofC?, constant, C.byte?_toString]
  rfl

end Enumerator

namespace Layout

/-- The message type and the size that the comment in front of a layout gives. -/
def ofComment? (text : String) : Option (String × Nat) :=
  match C.tokens? text with
  | some [.mark '*', .mark '@', .word "brief", .word message, .mark ',', .word size,
      .word "bytes", .word "serialized"] => (C.numeral? size).map (message, ·)
  | _ => none

/-- The layout that a comment and a structure give. -/
def ofC? (comment : String) (members : List (String × String)) (name : String) :
    Option Layout := do
  let (message, size) ← ofComment? comment
  pure ⟨message, size, members, name⟩

theorem ofC?_comment {x : Layout} (h : x.Spelled) : ofC? x.comment x.members x.name = some x := by
  have hopen : C.Lexes "* @brief " [.mark '*', .mark '@', .word "brief"] := rfl
  have hcomma : C.Lexes ", " [.mark ','] := rfl
  have hend : C.Lexes " bytes serialized " [.word "bytes", .word "serialized"] := rfl
  have hlexes := (hopen.word h.message hcomma ⟨',', rfl, rfl⟩).word (C.isWord_toString x.size) hend
    ⟨' ', rfl, rfl⟩
  have hcomment : ofComment? x.comment = some (x.message, x.size) := by
    rw [ofComment?, comment, C.tokens?_eq_some_of_lexes hlexes]
    change (C.numeral? (toString x.size)).map (x.message, ·) = _
    rw [C.numeral?_toString]
    rfl
  rw [ofC?, hcomment]
  rfl

end Layout

namespace Sender

/-- The function that sends, by its name, parameters and body. -/
def ofC? (f : String × List Token × List Token) : Option Sender :=
  match f with
  | (name, [.word "tbi_ctx_t", .mark '*', .word "tbi", .mark ',', .word layout, .mark '*',
        .word "value"],
      [.word "return", .word "tbi_telemetry_schedule", .mark '(', .word "tbi", .mark ',',
        .word ident, .mark ',', .mark '(', .word "void", .mark '*', .mark ')', .word "value",
        .mark ')', .mark ';']) => some ⟨name, layout, ident⟩
  | _ => none

theorem ofC?_function (x : Sender) : ofC? (x.function, x.parameters, x.body) = some x := rfl

end Sender

namespace FormatArray

/-- The array of codes that a name and numerals give. -/
def ofC? (a : String × List String) : Option FormatArray := do
  pure ⟨a.1, ← a.2.mapM C.byte?⟩

theorem ofC?_array (x : FormatArray) :
    ofC? (x.name, x.codes.map fun c => toString c.toNat) = some x := by
  have hcodes : (x.codes.map fun c => toString c.toNat).mapM C.byte? = some x.codes :=
    mapM_map_eq_some fun c _ => C.byte?_toString c
  rw [ofC?, hcodes]
  rfl

end FormatArray

namespace Row

/-- The row that members with their values give. -/
def ofC? (fields : List (String × List Token)) : Option Row := do
  let ident ← C.word? "msgtype" fields
  let bundle ← C.truth? (← C.word? "dcb" fields)
  let some [.word "sizeof", .mark '(', .word layout, .mark ')'] := C.only? "raw_size" fields | none
  let length ← C.numeral? (← C.word? "format_len" fields)
  let format ← C.word? "format" fields
  pure ⟨ident, bundle, layout, length, format⟩

theorem ofC?_fields (x : Row) : ofC? x.fields = some x := by
  have hident : C.word? "msgtype" x.fields = some x.ident := rfl
  have hbundle : C.word? "dcb" x.fields = some (boolText x.bundle) := rfl
  have hlayout : C.only? "raw_size" x.fields =
      some [.word "sizeof", .mark '(', .word x.layout, .mark ')'] := rfl
  have hlength : C.word? "format_len" x.fields = some (toString x.formatLength) := rfl
  have hformat : C.word? "format" x.fields = some x.format := rfl
  simp only [ofC?, hident, hbundle, hlayout, hlength, hformat, C.truth?_boolText,
    C.numeral?_toString, Option.bind_eq_bind, Option.bind_some]
  rfl

end Row

/-! ### Reading the sections -/

/-- The layouts of a text that stands behind a comment or behind something else. Each layout has to
stand behind a comment that describes it. -/
def C.TranslationUnit.layoutsAfter? (comment : Option String) :
    C.TranslationUnit → Option (List Layout)
  | [] => some []
  | .comment text :: u => layoutsAfter? (some text) u
  | .declaration (.record members name) :: u => do
    let x ← Layout.ofC? (← comment) members name
    pure (x :: (← layoutsAfter? none u))
  | _ :: u => layoutsAfter? none u

namespace Header

/-- What a reader finds in the sections of a header. -/
structure Reading where
  enumerators : List Enumerator
  typeCount : Nat
  /-- The items of the array of message types that come in bundles. -/
  bundled : List String
  bundledCount : Nat
  layouts : List Layout
  senders : List Sender
  formats : List FormatArray
  rows : List Row
  contextCount : Nat
deriving DecidableEq, Repr

namespace Reading

/-- Reads the sections of a header. All functions but the one that registers the table are expected
to send, and all arrays but that of the bundles to hold the codes of fields. -/
def ofC? (u : C.TranslationUnit) : Option Reading := do
  let number (name : String) : Option Nat := do
    C.numeral? (← C.only? name (C.TranslationUnit.constants u))
  let functions := (C.TranslationUnit.functions u).filter (·.1 ≠ "tbi_register_msgspec")
  let arrays := (C.TranslationUnit.arrays u).filter (·.1 ≠ "msgspec_bundle_types")
  let rows ← C.only? "msgspec_ctxs" (C.TranslationUnit.tables u)
  pure
    { enumerators := ← (C.TranslationUnit.enumerators u).mapM Enumerator.ofC?
      typeCount := ← number "msgspec_types_len"
      bundled := ← C.only? "msgspec_bundle_types" (C.TranslationUnit.arrays u)
      bundledCount := ← number "msgspec_bundle_types_len"
      layouts := ← C.TranslationUnit.layoutsAfter? none u
      senders := ← functions.mapM Sender.ofC?
      formats := ← arrays.mapM FormatArray.ofC?
      rows := ← rows.mapM Row.ofC?
      contextCount := ← number "msgspec_ctxs_len" }

end Reading

/-- What a reader is to find in a header. -/
def reading (h : Header) : Reading where
  enumerators := h.enumerators
  typeCount := h.enumerators.length
  bundled := h.bundled
  bundledCount := h.bundled.length
  layouts := h.layouts
  senders := h.senders
  formats := h.formats
  rows := h.rows
  contextCount := h.rows.length

/-- Items without a structure among them hold no layout. -/
theorem exists_layoutsAfter?_append {u : C.TranslationUnit}
    (h : ∀ members name, Item.declaration (.record members name) ∉ u) (comment : Option String)
    (v : C.TranslationUnit) :
    ∃ comment', C.TranslationUnit.layoutsAfter? comment (u ++ v) =
      C.TranslationUnit.layoutsAfter? comment' v := by
  induction u generalizing comment with
  | nil => exact ⟨comment, rfl⟩
  | cons x u ih =>
    have hu := ih fun members name hmem => h members name (List.mem_cons_of_mem x hmem)
    cases x with
    | comment text => exact hu (some text)
    | directive text => exact hu none
    | declaration d =>
      cases d with
      | record members name => exact absurd List.mem_cons_self (h members name)
      | _ => exact hu none

theorem layoutsAfter?_eq_nil {u : C.TranslationUnit}
    (h : ∀ members name, Item.declaration (.record members name) ∉ u) (comment : Option String) :
    C.TranslationUnit.layoutsAfter? comment u = some [] := by
  obtain ⟨comment', hcomment⟩ := exists_layoutsAfter?_append h comment []
  rw [List.append_nil] at hcomment
  rw [hcomment]
  rfl

/-- Layouts are read back in order. -/
theorem layoutsAfter?_flatMap {layouts : List Layout} (h : ∀ x ∈ layouts, x.Spelled)
    {u : C.TranslationUnit} (hu : ∀ members name, Item.declaration (.record members name) ∉ u)
    (comment : Option String) :
    C.TranslationUnit.layoutsAfter? comment (layouts.flatMap Layout.items ++ u) = some layouts := by
  induction layouts generalizing comment with
  | nil => exact layoutsAfter?_eq_nil hu comment
  | cons x xs ih =>
    have hx := Layout.ofC?_comment (h x List.mem_cons_self)
    have hxs := ih (fun y hy => h y (List.mem_cons_of_mem x hy)) none
    rw [List.flatMap_cons, List.append_assoc]
    simp only [Layout.items, Layout.declaration, List.cons_append, List.nil_append,
      C.TranslationUnit.layoutsAfter?, Option.bind_eq_bind, Option.bind_some, hx, hxs]
    rfl

theorem layoutsAfter?_items {h : Header} (hs : h.Spelled) :
    C.TranslationUnit.layoutsAfter? none h.items = some h.layouts := by
  have hbegin : ∀ members name, Item.declaration (.record members name) ∉
      preambleItems ++ h.enumerationItems ++
        [.comment "* @brief Convenience structs for sending telemetry "] := by
    simp [preambleItems, enumerationItems]
  have hend : ∀ members name, Item.declaration (.record members name) ∉
      [.comment "* @brief Convenience functions for sending telemetry "]
        ++ h.senders.map Sender.item
        ++ [.comment "* @brief Machine understandable format for message specs "]
        ++ h.formats.map FormatArray.item ++ h.tableItems ++ functionItems ++ endingItems := by
    simp [tableItems, functionItems, endingItems, Sender.item, Sender.declaration,
      FormatArray.item, FormatArray.declaration]
  obtain ⟨comment, hcomment⟩ := exists_layoutsAfter?_append hbegin none
    (h.layouts.flatMap Layout.items ++ _)
  have hall := hcomment.trans (layoutsAfter?_flatMap hs.layouts hend comment)
  simpa only [items, List.append_assoc] using hall

/-- All sections of a header are read back. -/
theorem ofC?_items {h : Header} (hs : h.Spelled)
    (hsenders : ∀ x ∈ h.senders, x.function ≠ "tbi_register_msgspec")
    (hformats : ∀ x ∈ h.formats, x.name ≠ "msgspec_bundle_types") :
    Reading.ofC? h.items = some h.reading := by
  have henumerators : (C.TranslationUnit.enumerators h.items).mapM Enumerator.ofC? =
      some h.enumerators := by
    rw [enumerators_items]
    exact mapM_map_eq_some fun e _ => Enumerator.ofC?_constant e
  have hfunctions : ((C.TranslationUnit.functions h.items).filter
      (·.1 ≠ "tbi_register_msgspec")).mapM Sender.ofC? = some h.senders := by
    rw [functions_items, List.filter_append, List.filter_eq_self.mpr]
    · simpa using mapM_map_eq_some fun x _ => Sender.ofC?_function x
    · simpa using hsenders
  have harrays : ((C.TranslationUnit.arrays h.items).filter
      (·.1 ≠ "msgspec_bundle_types")).mapM FormatArray.ofC? = some h.formats := by
    rw [arrays_items, List.filter_cons_of_neg (by simp), List.filter_eq_self.mpr]
    · exact mapM_map_eq_some fun x _ => FormatArray.ofC?_array x
    · simpa using hformats
  have hbundled : C.only? "msgspec_bundle_types" (C.TranslationUnit.arrays h.items) =
      some h.bundled := by
    rw [C.only?, arrays_items, List.filter_cons_of_pos (by simp), List.filter_eq_nil_iff.mpr]
    simpa using hformats
  have htable : C.only? "msgspec_ctxs" (C.TranslationUnit.tables h.items) =
      some (h.rows.map Row.fields) := by
    rw [tables_items]
    rfl
  have hrows : (h.rows.map Row.fields).mapM Row.ofC? = some h.rows :=
    mapM_map_eq_some fun x _ => Row.ofC?_fields x
  have htypes : C.only? "msgspec_types_len" (C.TranslationUnit.constants h.items) =
      some (toString h.enumerators.length) := by
    rw [constants_items]
    rfl
  have hbundles : C.only? "msgspec_bundle_types_len" (C.TranslationUnit.constants h.items) =
      some (toString h.bundled.length) := by
    rw [constants_items]
    rfl
  have hcontexts : C.only? "msgspec_ctxs_len" (C.TranslationUnit.constants h.items) =
      some (toString h.rows.length) := by
    rw [constants_items]
    rfl
  simp only [Reading.ofC?, henumerators, hfunctions, harrays, hbundled, htable, hrows, htypes,
    hbundles, hcontexts, layoutsAfter?_items hs, C.numeral?_toString, Option.bind_eq_bind,
    Option.bind_some]
  rfl

end Header

/-! ### Agreement of the sections -/

/-- A layout, an array of codes and a row for the same fields: as many members as codes and as the
row says, the members of the types with these codes, and their width the size in the comment. -/
structure Layout.Matches (x : Layout) (a : FormatArray) (r : Row) : Prop where
  members : x.members.length = a.codes.length
  row : r.formatLength = a.codes.length
  types : ∃ types : List WireType, a.codes.map (fun c => WireType.ofCode? c.toNat) =
    types.map some ∧ x.members.map Prod.fst = types.map WireType.cType ∧
      x.size = (types.map WireType.width).sum

namespace Header.Reading

/-- The sections have one entry for each of the same things, and their counts are right. -/
structure Agrees (x : Reading) : Prop where
  layouts : x.layouts.length = x.enumerators.length
  senders : x.senders.length = x.enumerators.length
  formats : x.formats.length = x.enumerators.length
  rows : x.rows.length = x.enumerators.length
  typeCount : x.typeCount = x.enumerators.length
  contextCount : x.contextCount = x.enumerators.length
  bundled : x.bundled = (x.rows.filter (·.bundle)).map (·.ident)
  bundledCount : x.bundledCount = x.bundled.length
  matching : ∀ (i : Nat) (l : Layout) (a : FormatArray) (r : Row), x.layouts[i]? = some l →
    x.formats[i]? = some a → x.rows[i]? = some r → l.Matches a r

/-- The entries of each section are those of the message types, in order. -/
structure Describes (x : Reading) (messages : List Message) : Prop where
  enumerators : x.enumerators = messages.map Message.enumerator
  layouts : x.layouts = messages.map Message.layout
  senders : x.senders = messages.map Message.sender
  formats : x.formats = messages.map Message.formatArray
  rows : x.rows = messages.map Message.row

end Header.Reading

/-- The declarations for one message type are for the same fields. -/
theorem Message.layout_matches (m : Message) : m.layout.Matches m.formatArray m.row where
  members := by simp [layout, formatArray, format]
  row := by simp [row, formatArray, format]
  types := by
    refine ⟨m.fields.map Field.type, ?_, ?_, ?_⟩
    · simp [formatArray, format]
    · simp [layout]
    · rw [layout, wireSize, List.map_map, List.sum, List.foldr_map]
      rfl

namespace Schema

variable {s : Schema}

/-- The sections of the header of a schema agree. -/
theorem agrees_reading (s : Schema) : s.header.reading.Agrees where
  layouts := by simp [Header.reading, header]
  senders := by simp [Header.reading, header]
  formats := by simp [Header.reading, header]
  rows := by simp [Header.reading, header]
  typeCount := by simp [Header.reading, header]
  contextCount := by simp [Header.reading, header]
  bundled := by
    simp only [Header.reading, header, bundled, List.filter_map, List.map_map]
    rfl
  bundledCount := rfl
  matching := by
    intro i l a r hl ha hr
    simp only [Header.reading, header, List.getElem?_map, Option.map_eq_some_iff] at hl ha hr
    obtain ⟨m, hm, rfl⟩ := hl
    obtain ⟨m', hm', rfl⟩ := ha
    obtain ⟨m'', hm'', rfl⟩ := hr
    rw [hm] at hm' hm''
    cases hm'
    cases hm''
    exact m.layout_matches

/-- The sections of the header of a well-formed schema are read back. -/
theorem WellFormed.ofC?_items (h : s.WellFormed) :
    Header.Reading.ofC? s.header.items = some s.header.reading := by
  refine Header.ofC?_items h.spelled ?_ ?_
  · refine List.forall_mem_map.mpr fun m _ => (Message.ne_senderName ?_).symm
    decide
  · refine List.forall_mem_map.mpr fun m _ => (Message.ne_formatName ?_).symm
    decide

end Schema

end Telemetry
