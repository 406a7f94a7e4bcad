import Telemetry.Header.Text
import Telemetry.Proofs.C.Declaration

/-!
# Headers as C

What the text of a header says to a compiler: its declarations in C, with the comments and
directives between them (`Header.items`). Each kind of declaration in a header is one C declaration;
only the comment in front of a layout says more than that.
-/

namespace Telemetry

open C (Item Token)

namespace Enumerator

/-- A constant of the enumeration with its numeral. -/
def constant (e : Enumerator) : String × String := (e.ident, toString e.value.toNat)

end Enumerator

namespace Layout

/-- The comment in front of a layout. -/
def comment (x : Layout) : String :=
  "* @brief " ++ x.message ++ ", " ++ toString x.size ++ " bytes serialized "

/-- The type that a layout declares. -/
def declaration (x : Layout) : C.Declaration := .record x.members x.name

/-- The comment and the type that a layout consists of. -/
def items (x : Layout) : List Item := [.comment x.comment, .declaration x.declaration]

end Layout

namespace Sender

/-- The parameters of a function that sends. -/
def parameters (x : Sender) : List Token :=
  [.word "tbi_ctx_t", .mark '*', .word "tbi", .mark ',', .word x.layout, .mark '*', .word "value"]

/-- The body of a function that sends. -/
def body (x : Sender) : List Token :=
  [.word "return", .word "tbi_telemetry_schedule", .mark '(', .word "tbi", .mark ',', .word x.ident,
    .mark ',', .mark '(', .word "void", .mark '*', .mark ')', .word "value", .mark ')', .mark ';']

/-- The function that sends. -/
def declaration (x : Sender) : C.Declaration := .function "int" x.function x.parameters x.body

/-- The item that a function that sends is. -/
def item (x : Sender) : Item := .declaration x.declaration

end Sender

namespace FormatArray

/-- The array with its numerals. -/
def declaration (x : FormatArray) : C.Declaration :=
  .array "uint8_t" x.name (x.codes.map fun c => toString c.toNat)

/-- The item that an array is. -/
def item (x : FormatArray) : Item := .declaration x.declaration

end FormatArray

namespace Row

/-- The members of a row with their values. -/
def fields (x : Row) : List (String × List Token) :=
  [("msgtype", [.word x.ident]), ("dcb", [.word (boolText x.bundle)]),
    ("raw_size", [.word "sizeof", .mark '(', .word x.layout, .mark ')']),
    ("format_len", [.word (toString x.formatLength)]), ("format", [.word x.format]),
    ("buflen", [.word "0"]), ("head", [.word "NULL"])]

end Row

namespace Header

/-- What stands before the sections. -/
def preambleItems : List Item :=
  [.comment " Auto-generated file - DO NOT EDIT! ", .directive "ifndef __MESSAGESPEC_H",
    .directive "define __MESSAGESPEC_H", .directive "include <stdint.h>",
    .directive "include <stdlib.h>", .directive "include \"tbi_types.h\"",
    .directive "include \"tbi.h\""]

/-- The enumeration with the number of its constants and the list of those in bundles. -/
def enumerationItems (h : Header) : List Item :=
  [.comment "* @brief Message name enumeration, values are IDs ",
    .declaration (.enumeration (h.enumerators.map Enumerator.constant) "msgspec_types_t"),
    .declaration (.constant "int" "msgspec_types_len" (toString h.enumerators.length)),
    .declaration (.constant "int" "msgspec_bundle_types_len" (toString h.bundled.length)),
    .declaration (.array "uint8_t" "msgspec_bundle_types" h.bundled)]

/-- The registration table with its length and the checksum. -/
def tableItems (h : Header) : List Item :=
  [.comment "* @brief Initialize message context for each type ",
    .declaration (.table "tbi_msg_ctx_t" "msgspec_ctxs" (h.rows.map Row.fields)),
    .declaration (.constant "int" "msgspec_ctxs_len" (toString h.rows.length)),
    .comment "* @brief CRC16-CCITT of the message type IDs and their formats ",
    .declaration (.constant "uint16_t" "msgspec_schema_csum" (hexWord h.checksum.toNat))]

/-- The body of the function that registers the table. -/
def functionBody : List Token :=
  [.word "tbi", .mark '-', .mark '>', .word "msg_ctxs", .mark '=', .word "msgspec_ctxs", .mark ';',
    .word "tbi", .mark '-', .mark '>', .word "msg_ctxs_len", .mark '=', .word "msgspec_ctxs_len",
    .mark ';', .word "return", .word "0", .mark ';']

/-- The function that registers the table. -/
def functionItems : List Item :=
  [.comment "* @brief Register message spec with tbi context ",
    .declaration (.function "int" "tbi_register_msgspec"
      [.word "tbi_ctx_t", .mark '*', .word "tbi"] functionBody)]

/-- What stands behind the sections. -/
def endingItems : List Item := [.directive "endif /* __MESSAGESPEC_H */"]

/-- All that a header says in C. -/
def items (h : Header) : List Item :=
  preambleItems ++ h.enumerationItems
    ++ [.comment "* @brief Convenience structs for sending telemetry "]
    ++ h.layouts.flatMap Layout.items
    ++ [.comment "* @brief Convenience functions for sending telemetry "]
    ++ h.senders.map Sender.item
    ++ [.comment "* @brief Machine understandable format for message specs "]
    ++ h.formats.map FormatArray.item ++ h.tableItems ++ functionItems ++ endingItems

/-- No section of a header is in the way of reading it back. -/
theorem readable_items (h : Header) : ∀ x ∈ h.items, x.Readable := by
  have hlayouts : ∀ x ∈ h.layouts.flatMap Layout.items, x.Readable := by
    intro x hx
    obtain ⟨l, -, hl⟩ := List.mem_flatMap.mp hx
    simp only [Layout.items, List.mem_cons, List.not_mem_nil, or_false] at hl
    rcases hl with rfl | rfl <;> trivial
  have hsenders : ∀ x ∈ h.senders.map Sender.item, x.Readable := by
    intro x hx
    obtain ⟨l, -, rfl⟩ := List.mem_map.mp hx
    exact ⟨by decide, by decide, by simp [Sender.parameters], by simp [Sender.body]⟩
  have hformats : ∀ x ∈ h.formats.map FormatArray.item, x.Readable := by
    intro x hx
    obtain ⟨l, -, rfl⟩ := List.mem_map.mp hx
    trivial
  have htable : ∀ x ∈ h.tableItems, x.Readable := by
    have hrows : ∀ row ∈ h.rows.map Row.fields, ∀ f ∈ row, Token.mark ',' ∉ f.2 := by
      intro row hrow f hf
      obtain ⟨r, -, rfl⟩ := List.mem_map.mp hrow
      simp only [Row.fields, List.mem_cons, List.not_mem_nil, or_false] at hf
      rcases hf with rfl | rfl | rfl | rfl | rfl | rfl | rfl <;> simp
    intro x hx
    simp only [tableItems, List.mem_cons, List.not_mem_nil, or_false] at hx
    rcases hx with rfl | rfl | rfl | rfl | rfl
    · trivial
    · exact ⟨by decide, by decide, hrows⟩
    all_goals trivial
  simp only [items, List.forall_mem_append]
  refine ⟨⟨⟨⟨⟨⟨⟨⟨⟨⟨?_, ?_⟩, ?_⟩, hlayouts⟩, ?_⟩, hsenders⟩, ?_⟩, hformats⟩, htable⟩, ?_⟩, ?_⟩
  all_goals simp [preambleItems, enumerationItems, functionItems, functionBody, endingItems,
    Item.Readable, C.Declaration.Readable]

/-! ### What a header declares -/

/-- The declarations of a header, in order. -/
def declarations (h : Header) : List C.Declaration :=
  [.enumeration (h.enumerators.map Enumerator.constant) "msgspec_types_t",
    .constant "int" "msgspec_types_len" (toString h.enumerators.length),
    .constant "int" "msgspec_bundle_types_len" (toString h.bundled.length),
    .array "uint8_t" "msgspec_bundle_types" h.bundled]
    ++ h.layouts.map Layout.declaration ++ h.senders.map Sender.declaration
    ++ h.formats.map FormatArray.declaration
    ++ [.table "tbi_msg_ctx_t" "msgspec_ctxs" (h.rows.map Row.fields),
      .constant "int" "msgspec_ctxs_len" (toString h.rows.length),
      .constant "uint16_t" "msgspec_schema_csum" (hexWord h.checksum.toNat),
      .function "int" "tbi_register_msgspec" [.word "tbi_ctx_t", .mark '*', .word "tbi"]
        functionBody]

theorem declarations_items (h : Header) :
    C.TranslationUnit.declarations h.items = h.declarations := by
  have hlayouts : (h.layouts.flatMap Layout.items).filterMap Item.declaration? =
      h.layouts.map Layout.declaration := by
    induction h.layouts with
    | nil => rfl
    | cons x xs ih =>
      rw [List.flatMap_cons, List.filterMap_append, ih]
      rfl
  have hsenders : (h.senders.map Sender.item).filterMap Item.declaration? =
      h.senders.map Sender.declaration := by
    rw [List.filterMap_map]
    exact congrFun (List.filterMap_eq_map (f := Sender.declaration)) h.senders
  have hformats : (h.formats.map FormatArray.item).filterMap Item.declaration? =
      h.formats.map FormatArray.declaration := by
    rw [List.filterMap_map]
    exact congrFun (List.filterMap_eq_map (f := FormatArray.declaration)) h.formats
  simp only [C.TranslationUnit.declarations, items, List.filterMap_append, hlayouts, hsenders,
    hformats]
  simp only [declarations, List.append_assoc]
  rfl

private theorem flatMap_none {α β : Type} (l : List α) : l.flatMap (fun _ => ([] : List β)) = [] :=
  List.flatMap_eq_nil_iff.mpr fun _ _ => rfl

theorem enumerators_items (h : Header) :
    C.TranslationUnit.enumerators h.items = h.enumerators.map Enumerator.constant := by
  simp [C.TranslationUnit.enumerators, declarations_items, declarations, List.flatMap_map,
    C.Declaration.enumerators, Layout.declaration, Sender.declaration, FormatArray.declaration]

theorem records_items (h : Header) :
    C.TranslationUnit.records h.items = h.layouts.map fun x => (x.members, x.name) := by
  simp [C.TranslationUnit.records, declarations_items, declarations, List.flatMap_map,
    C.Declaration.records, Layout.declaration, Sender.declaration, FormatArray.declaration,
    flatMap_none, ← List.map_eq_flatMap]

theorem constants_items (h : Header) :
    C.TranslationUnit.constants h.items =
      [("msgspec_types_len", toString h.enumerators.length),
        ("msgspec_bundle_types_len", toString h.bundled.length),
        ("msgspec_ctxs_len", toString h.rows.length),
        ("msgspec_schema_csum", hexWord h.checksum.toNat)] := by
  simp [C.TranslationUnit.constants, declarations_items, declarations, List.flatMap_map,
    C.Declaration.constants, Layout.declaration, Sender.declaration, FormatArray.declaration,
    flatMap_none]

theorem arrays_items (h : Header) :
    C.TranslationUnit.arrays h.items =
      ("msgspec_bundle_types", h.bundled) ::
        h.formats.map fun x => (x.name, x.codes.map fun c => toString c.toNat) := by
  simp [C.TranslationUnit.arrays, declarations_items, declarations, List.flatMap_map,
    C.Declaration.arrays, Layout.declaration, Sender.declaration, FormatArray.declaration,
    flatMap_none, ← List.map_eq_flatMap]

theorem tables_items (h : Header) :
    C.TranslationUnit.tables h.items = [("msgspec_ctxs", h.rows.map Row.fields)] := by
  simp [C.TranslationUnit.tables, declarations_items, declarations, List.flatMap_map,
    C.Declaration.tables, Layout.declaration, Sender.declaration, FormatArray.declaration,
    flatMap_none]

theorem functions_items (h : Header) :
    C.TranslationUnit.functions h.items =
      h.senders.map (fun x => (x.function, x.parameters, x.body))
        ++ [("tbi_register_msgspec", [.word "tbi_ctx_t", .mark '*', .word "tbi"],
          functionBody)] := by
  simp [C.TranslationUnit.functions, declarations_items, declarations, List.flatMap_map,
    C.Declaration.functions, Layout.declaration, Sender.declaration, FormatArray.declaration,
    flatMap_none, ← List.map_eq_flatMap]

theorem names_items (h : Header) :
    C.TranslationUnit.names h.items =
      h.enumerators.map Enumerator.ident
        ++ ["msgspec_types_t", "msgspec_types_len", "msgspec_bundle_types_len",
          "msgspec_bundle_types"]
        ++ h.layouts.map Layout.name ++ h.senders.map Sender.function
        ++ h.formats.map FormatArray.name
        ++ ["msgspec_ctxs", "msgspec_ctxs_len", "msgspec_schema_csum", "tbi_register_msgspec"] := by
  simp [C.TranslationUnit.names, declarations_items, declarations, List.flatMap_map,
    C.Declaration.names, Layout.declaration, Sender.declaration, FormatArray.declaration,
    Enumerator.constant, ← List.map_eq_flatMap]

end Header

end Telemetry
