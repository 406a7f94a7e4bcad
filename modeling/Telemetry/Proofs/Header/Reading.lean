import Telemetry.Proofs.C.Numeral
import Telemetry.Proofs.Header.Items
import Telemetry.Proofs.Schema.WellFormed

/-!
# Reading headers back

The text of a header, read as C, is the header again: `Schema.WellFormed.read?_headerText`. The
names in it have to be words of C, which those of a well-formed schema are
(`Schema.WellFormed.spelled`); with other names a text could say anything.

The text is taken apart line by line. Each line is made of fixed texts with words between them, so
its tokens follow from those of the fixed texts and `Lexes.word`.
-/

namespace Telemetry

open C (Token Item Lexes IsWord Separates)

/-! ### Names are words -/

/-- An identifier is a word. -/
theorem isWord_of_isIdentifier {name : String} (h : isIdentifier name = true) : IsWord name := by
  unfold isIdentifier at h
  split at h
  · cases h
  · next c cs hcs =>
    simp only [Bool.and_eq_true, List.all_eq_true] at h
    refine ⟨by simp [hcs], fun d hd => ?_⟩
    rw [hcs] at hd
    rcases List.mem_cons.mp hd with rfl | hd
    · have hc := h.1
      simp only [Bool.or_eq_true] at hc
      rcases hc with hc | hc <;> simp [C.isWordChar, Char.isAlphanum, hc]
    · exact h.2 d hd

theorem isUpper_toUpper {c : Char} (h : c.isLower = true) : c.toUpper.isUpper = true := by
  simp only [Char.isLower, Char.isUpper, Char.toUpper] at *
  grind

theorem toUpper_eq_self {c : Char} (h : c.isLower = false) : c.toUpper = c := by
  simp only [Char.isLower, Char.toUpper] at *
  grind

/-- Words stay words in upper case. -/
theorem isWordChar_toUpper {c : Char} (h : C.isWordChar c = true) :
    C.isWordChar c.toUpper = true := by
  by_cases hl : c.isLower = true
  · simp [C.isWordChar, Char.isAlphanum, Char.isAlpha, isUpper_toUpper hl]
  · rwa [toUpper_eq_self (by simpa using hl)]

/-- The constant of a message type is a word. -/
theorem isWord_constantOf {name : String} (h : IsWord name) : IsWord (constantOf name) where
  ne_nil := by simpa [constantOf] using h.ne_nil
  wordChar := by
    intro c hc
    simp only [constantOf, String.toList_map, List.mem_map] at hc
    obtain ⟨d, hd, rfl⟩ := hc
    exact isWordChar_toUpper (h.wordChar d hd)

theorem isWord_boolText (b : Bool) : IsWord (boolText b) := by
  cases b <;> decide

/-! ### Names that C can read -/

/-- A layout whose names are words and whose types leave room for a blank. -/
structure Layout.Spelled (x : Layout) : Prop where
  message : IsWord x.message
  name : IsWord x.name
  types : ∀ m ∈ x.members, IsWord m.1 ∧ m.1.length < typeWidth
  members : ∀ m ∈ x.members, IsWord m.2

/-- A function that sends, with words for names. -/
structure Sender.Spelled (x : Sender) : Prop where
  function : IsWord x.function
  layout : IsWord x.layout
  ident : IsWord x.ident

/-- A row with words for names. -/
structure Row.Spelled (x : Row) : Prop where
  ident : IsWord x.ident
  layout : IsWord x.layout
  format : IsWord x.format

/-- A header with words for names. -/
structure Header.Spelled (h : Header) : Prop where
  enumerators : ∀ e ∈ h.enumerators, IsWord e.ident
  bundled : ∀ ident ∈ h.bundled, IsWord ident
  layouts : ∀ x ∈ h.layouts, x.Spelled
  senders : ∀ x ∈ h.senders, x.Spelled
  formats : ∀ x ∈ h.formats, IsWord x.name
  rows : ∀ x ∈ h.rows, x.Spelled

/-! ### Lines -/

/-- The line of a constant in the enumeration. -/
theorem Enumerator.lexes_line {e : Enumerator} (h : IsWord e.ident) :
    Lexes e.line (C.constantTokens e.constant) := by
  have hcomma : Lexes "," [.mark ','] := rfl
  have hequals : Lexes " = " [.mark '='] := rfl
  have hident : Lexes ("  " ++ e.ident ++ " = ") [.word e.ident, .mark '='] :=
    (show Lexes "  " [] from rfl).word h hequals ⟨' ', rfl, rfl⟩
  exact hident.word (C.isWord_toString _) hcomma ⟨',', rfl, rfl⟩

/-- The declaration of an integer constant. -/
theorem lexes_intConstant {name : String} (h : IsWord name) (value : Nat) :
    Lexes (intConstant name value) (C.Declaration.constant "int" name (toString value)).tokens := by
  have hint : Lexes "const int " [.word "const", .word "int"] := rfl
  have hname : Lexes ("const int " ++ name ++ " = ")
      [.word "const", .word "int", .word name, .mark '='] :=
    hint.word h (show Lexes " = " [.mark '='] from rfl) ⟨' ', rfl, rfl⟩
  exact hname.word (C.isWord_toString value) (show Lexes ";" [.mark ';'] from rfl) ⟨';', rfl, rfl⟩

/-- Spaces are blank. -/
theorem lexes_spaces (n : Nat) : Lexes (String.ofList (List.replicate n ' ')) [] := by
  induction n with
  | zero => rfl
  | succ n ih =>
    have hone : Lexes " " [] := rfl
    have happ : String.ofList (List.replicate (n + 1) ' ') =
        " " ++ String.ofList (List.replicate n ' ') := by
      rw [← String.toList_inj]
      simp [List.replicate_succ]
    rw [happ]
    exact hone.append ih

/-- The line of a member. -/
theorem Layout.lexes_memberLine {m : String × String} (htype : IsWord m.1)
    (hlen : m.1.length < typeWidth) (hname : IsWord m.2) :
    Lexes (memberLine m) (C.memberTokens m) := by
  -- at least one blank is left between the type and the name
  obtain ⟨k, hk⟩ : ∃ k, typeWidth - m.1.length = k + 1 := ⟨typeWidth - m.1.length - 1, by omega⟩
  have hsep : Separates (String.ofList (List.replicate (k + 1) ' ')) :=
    ⟨' ', by simp [List.replicate_succ], rfl⟩
  have hpad : Lexes ("    " ++ padRight typeWidth m.1) [.word m.1] := by
    rw [padRight, hk, ← String.append_assoc]
    exact (show Lexes "    " [] from rfl).word htype (lexes_spaces (k + 1)) hsep
  exact hpad.word hname (show Lexes ";" [.mark ';'] from rfl) ⟨';', rfl, rfl⟩

/-- Words with commas between them, up to the closing brace. -/
theorem lexes_commaSeparated {x : String} {xs : List String} (h : ∀ w ∈ x :: xs, IsWord w) :
    Lexes (commaSeparated (x :: xs) ++ " \x7d") (C.itemsTokens (x :: xs)) := by
  have hx : IsWord x := h x List.mem_cons_self
  induction xs generalizing x with
  | nil =>
    have htext : commaSeparated [x] ++ " \x7d" = "" ++ x ++ " \x7d" := rfl
    rw [htext]
    exact C.lexes_empty.word hx (show Lexes " \x7d" [.mark '}'] from rfl) ⟨' ', rfl, rfl⟩
  | cons y ys ih =>
    have htext : commaSeparated (x :: y :: ys) ++ " \x7d" =
        "" ++ x ++ (", " ++ (commaSeparated (y :: ys) ++ " \x7d")) := by
      rw [← String.toList_inj]
      simp [commaSeparated]
    have hys : Lexes (commaSeparated (y :: ys) ++ " \x7d") (C.itemsTokens (y :: ys)) :=
      ih (fun w hw => h w (List.mem_cons_of_mem x hw)) (h y (by simp))
    have hcomma : Lexes ", " [.mark ','] := rfl
    rw [htext]
    exact C.lexes_empty.word hx (hcomma.append hys) ⟨',', by simp, rfl⟩

/-- An initializer of words. -/
theorem lexes_initializer {items : List String} (h : ∀ w ∈ items, IsWord w) :
    Lexes (initializer items) (.mark '{' :: C.itemsTokens items) := by
  cases items with
  | nil => rfl
  | cons x xs =>
    have hopen : Lexes "\x7b " [.mark '{'] := rfl
    rw [initializer, if_neg (List.cons_ne_nil x xs), String.append_assoc]
    exact hopen.append (lexes_commaSeparated h)

/-- The declaration of an array. -/
theorem lexes_array {name : String} {items : List String} (hname : IsWord name)
    (h : ∀ w ∈ items, IsWord w) :
    Lexes ("const uint8_t " ++ name ++ "[] = " ++ initializer items ++ ";")
      (C.Declaration.array "uint8_t" name items).tokens := by
  have hconst : Lexes "const uint8_t " [.word "const", .word "uint8_t"] := rfl
  have hbrackets : Lexes "[] = " [.mark '[', .mark ']', .mark '='] := rfl
  have hend : Lexes ";" [.mark ';'] := rfl
  have hleft := hconst.word hname hbrackets ⟨'[', rfl, rfl⟩
  exact (hleft.append (lexes_initializer h)).append hend

/-! ### Declarations -/

/-- The lines of a layout. -/
theorem Layout.lexes_lines {x : Layout} (h : x.Spelled) :
    Lexes (Text.unlines x.lines) (x.items.flatMap Item.tokens) := by
  have hcomment : Lexes ("/** @brief " ++ x.message ++ ", " ++ toString x.size ++
      " bytes serialized */") [.comment x.comment] := by
    -- nothing in the comment ends it before its time
    have hstar : '*' ∉ ("@brief " ++ x.message ++ ", " ++ toString x.size ++
        " bytes serialized ").toList := by
      simp only [String.toList_append, List.mem_append, not_or]
      exact ⟨⟨⟨⟨by decide, h.message.star_not_mem⟩, by decide⟩,
        (C.isWord_toString x.size).star_not_mem⟩, by decide⟩
    have htext : "/** @brief " ++ x.message ++ ", " ++ toString x.size ++ " bytes serialized */" =
        "/** " ++ ("@brief " ++ x.message ++ ", " ++ toString x.size ++ " bytes serialized ") ++
          "*/" := by
      rw [← String.toList_inj]
      simp
    have hcomm : "* " ++ ("@brief " ++ x.message ++ ", " ++ toString x.size ++
        " bytes serialized ") = x.comment := by
      rw [← String.toList_inj]
      simp [comment]
    rw [htext, ← hcomm]
    exact C.lexes_docComment hstar
  have hopen : Lexes "typedef struct \x7b" [.word "typedef", .word "struct", .mark '{'] := rfl
  have hmembers : Lexes (Text.unlines (x.members.map memberLine))
      (x.members.flatMap C.memberTokens) := by
    rw [Text.unlines, List.map_map]
    refine C.lexes_join fun m hm => Lexes.line ?_
    exact lexes_memberLine (h.types m hm).1 (h.types m hm).2 (h.members m hm)
  have hclose : Lexes ("\x7d " ++ x.name ++ ";") [.mark '}', .word x.name, .mark ';'] :=
    (show Lexes "\x7d " [.mark '}'] from rfl).word h.name (show Lexes ";" [.mark ';'] from rfl)
      ⟨';', rfl, rfl⟩
  have hend : Lexes (Text.unlines ["\x7d " ++ x.name ++ ";", ""])
      [.mark '}', .word x.name, .mark ';'] :=
    C.lexes_unlines_cons hclose.line (show Lexes (Text.unlines [""]) [] from rfl)
  have hbegin := C.lexes_unlines_cons hcomment.line (C.lexes_unlines_cons hopen.line
    C.lexes_unlines_nil)
  have hall := C.lexes_unlines_append (C.lexes_unlines_append hbegin hmembers) hend
  exact hall.congr (by simp [items, declaration, Item.tokens, C.Declaration.tokens])

/-- The lines of a function that sends. -/
theorem Sender.lexes_lines {x : Sender} (h : x.Spelled) :
    Lexes (Text.unlines x.lines) x.item.tokens := by
  have hint : Lexes "int " [.word "int"] := rfl
  have hcontext : Lexes "(tbi_ctx_t* tbi, "
      [.mark '(', .word "tbi_ctx_t", .mark '*', .word "tbi", .mark ','] := rfl
  have hvalue : Lexes " *value)" [.mark '*', .word "value", .mark ')'] := rfl
  have hhead := (hint.word h.function hcontext ⟨'(', rfl, rfl⟩).word h.layout hvalue ⟨' ', rfl, rfl⟩
  have hcall : Lexes "\treturn tbi_telemetry_schedule(tbi, "
      [.word "return", .word "tbi_telemetry_schedule", .mark '(', .word "tbi", .mark ','] := rfl
  have hcast : Lexes ", (void*)value);"
      [.mark ',', .mark '(', .word "void", .mark '*', .mark ')', .word "value", .mark ')',
        .mark ';'] := rfl
  have hbody := hcall.word h.ident hcast ⟨',', rfl, rfl⟩
  have hopen : Lexes ("\x7b" ++ "\n") [.mark '{'] := rfl
  have hclose : Lexes (Text.unlines ["\x7d", ""]) [.mark '}'] := rfl
  have hall := C.lexes_unlines_cons hhead.line (C.lexes_unlines_cons hopen
    (C.lexes_unlines_cons hbody.line hclose))
  exact hall.congr (by
    simp [item, declaration, Item.tokens, C.Declaration.tokens, parameters, body])

/-- The line of an array of type codes. -/
theorem FormatArray.lexes_lines {x : FormatArray} (h : IsWord x.name) :
    Lexes (Text.unlines x.lines) x.item.tokens := by
  have hcodes : ∀ w ∈ x.codes.map fun c => toString c.toNat, IsWord w := by
    intro w hw
    obtain ⟨c, -, rfl⟩ := List.mem_map.mp hw
    exact C.isWord_toString c.toNat
  have hall := C.lexes_unlines_cons (lexes_array h hcodes).line C.lexes_unlines_nil
  exact hall.congr (by simp [item, declaration, Item.tokens])

/-- The lines of a row of the registration table. -/
theorem Row.lexes_lines {x : Row} (h : x.Spelled) :
    Lexes (Text.unlines x.lines) (C.rowTokens x.fields) := by
  have hcomma : Lexes "," [.mark ','] := rfl
  have hsep : Separates "," := ⟨',', rfl, rfl⟩
  have hopen : Lexes ("\t\x7b" ++ "\n") [.mark '{'] := rfl
  have htype : Lexes "\t\t.msgtype      = " [.mark '.', .word "msgtype", .mark '='] := rfl
  have hdcb : Lexes "\t\t.dcb          = " [.mark '.', .word "dcb", .mark '='] := rfl
  have hsize : Lexes "\t\t.raw_size     = sizeof("
      [.mark '.', .word "raw_size", .mark '=', .word "sizeof", .mark '('] := rfl
  have hparen : Lexes ")," [.mark ')', .mark ','] := rfl
  have hlength : Lexes "\t\t.format_len   = " [.mark '.', .word "format_len", .mark '='] := rfl
  have hformat : Lexes "\t\t.format       = " [.mark '.', .word "format", .mark '='] := rfl
  have hrest : Lexes
      (Text.unlines ["\t\t.buflen       = 0,", "\t\t.head         = NULL,", "\t\x7d,"])
      [.mark '.', .word "buflen", .mark '=', .word "0", .mark ',', .mark '.', .word "head",
        .mark '=', .word "NULL", .mark ',', .mark '}', .mark ','] := rfl
  have hall := C.lexes_unlines_cons hopen
    (C.lexes_unlines_cons (htype.word h.ident hcomma hsep).line
      (C.lexes_unlines_cons (hdcb.word (isWord_boolText x.bundle) hcomma hsep).line
        (C.lexes_unlines_cons (hsize.word h.layout hparen ⟨')', rfl, rfl⟩).line
          (C.lexes_unlines_cons (hlength.word (C.isWord_toString x.formatLength) hcomma hsep).line
            (C.lexes_unlines_cons (hformat.word h.format hcomma hsep).line hrest)))))
  exact hall.congr (by simp [C.rowTokens, C.fieldTokens, fields])

/-! ### Sections -/

namespace Header

variable {h : Header}

/-- The enumeration. -/
theorem lexes_enumeration (hs : h.Spelled) :
    Lexes (Text.unlines h.enumerationLines) (h.enumerationItems.flatMap Item.tokens) := by
  have hbegin : Lexes (Text.unlines ["/** @brief Message name enumeration, values are IDs */",
      "typedef enum \x7b"])
      [.comment "* @brief Message name enumeration, values are IDs ", .word "typedef", .word "enum",
        .mark '{'] := by
    decide +kernel
  have hconstants : Lexes (Text.unlines (h.enumerators.map Enumerator.line))
      ((h.enumerators.map Enumerator.constant).flatMap C.constantTokens) := by
    rw [Text.unlines, List.map_map, List.flatMap_map]
    exact C.lexes_join fun e he => (Enumerator.lexes_line (hs.enumerators e he)).line
  have hend : Lexes ("\x7d msgspec_types_t;" ++ "\n")
      [.mark '}', .word "msgspec_types_t", .mark ';'] := rfl
  have hlen := lexes_intConstant (show IsWord "msgspec_types_len" by decide)
    h.enumerators.length
  have hbundles := lexes_intConstant
    (show IsWord "msgspec_bundle_types_len" by decide) h.bundled.length
  have harray := lexes_array (show IsWord "msgspec_bundle_types" by decide)
    hs.bundled
  have hblank : Lexes ("" ++ "\n") [] := rfl
  have hrest := C.lexes_unlines_cons hend (C.lexes_unlines_cons hblank
    (C.lexes_unlines_cons hlen.line (C.lexes_unlines_cons hbundles.line
      (C.lexes_unlines_cons harray.line C.lexes_unlines_nil))))
  have hall := C.lexes_unlines_append (C.lexes_unlines_append hbegin hconstants) hrest
  exact hall.congr (by simp [enumerationItems, Item.tokens, C.Declaration.tokens])

/-- The registration table. -/
theorem lexes_table (hs : h.Spelled) :
    Lexes (Text.unlines h.tableLines) (h.tableItems.flatMap Item.tokens) := by
  have hbegin : Lexes (Text.unlines ["", "/** @brief Initialize message context for each type */",
      "tbi_msg_ctx_t msgspec_ctxs[] = \x7b"])
      [.comment "* @brief Initialize message context for each type ", .word "tbi_msg_ctx_t",
        .word "msgspec_ctxs", .mark '[', .mark ']', .mark '=', .mark '{'] := by
    decide +kernel
  have hrows : Lexes (Text.unlines (h.rows.flatMap Row.lines))
      ((h.rows.map Row.fields).flatMap C.rowTokens) := by
    rw [List.flatMap_map]
    exact C.lexes_unlines_flatMap fun r hr => Row.lexes_lines (hs.rows r hr)
  have hend : Lexes ("\x7d;" ++ "\n") [.mark '}', .mark ';'] := rfl
  have hlen := lexes_intConstant (show IsWord "msgspec_ctxs_len" by decide)
    h.rows.length
  have hcomment : Lexes (Text.unlines
      ["", "/** @brief CRC16-CCITT of the message type IDs and their formats */"])
      [.comment "* @brief CRC16-CCITT of the message type IDs and their formats "] := by
    decide +kernel
  have hconst : Lexes "const uint16_t msgspec_schema_csum = "
      [.word "const", .word "uint16_t", .word "msgspec_schema_csum", .mark '='] := rfl
  have hchecksum := hconst.word (C.isWord_hexWord h.checksum.toNat)
    (show Lexes ";" [.mark ';'] from rfl) ⟨';', rfl, rfl⟩
  have hmiddle := C.lexes_unlines_cons hend (C.lexes_unlines_cons hlen.line hcomment)
  have hrest := C.lexes_unlines_append hmiddle
    (C.lexes_unlines_cons hchecksum.line C.lexes_unlines_nil)
  have hall := C.lexes_unlines_append (C.lexes_unlines_append hbegin hrows) hrest
  exact hall.congr (by simp [tableItems, Item.tokens, C.Declaration.tokens])

/-- The text of a header consists of the tokens of its items. -/
theorem lexes_text (hs : h.Spelled) : Lexes h.text (h.items.flatMap Item.tokens) := by
  have hpreamble : Lexes (Text.unlines preamble) (preambleItems.flatMap Item.tokens) := by
    decide +kernel
  have hlayoutTitle : Lexes
      (Text.unlines ["", "/** @brief Convenience structs for sending telemetry */"])
      [.comment "* @brief Convenience structs for sending telemetry "] := by
    decide +kernel
  have hlayouts : Lexes (String.join (h.layouts.map fun x => Text.unlines x.lines))
      (h.layouts.flatMap fun x => x.items.flatMap Item.tokens) :=
    C.lexes_join fun x hx => Layout.lexes_lines (hs.layouts x hx)
  have hsenderTitle : Lexes
      (Text.unlines ["/** @brief Convenience functions for sending telemetry */"])
      [.comment "* @brief Convenience functions for sending telemetry "] := by
    decide +kernel
  have hsenders : Lexes (String.join (h.senders.map fun x => Text.unlines x.lines))
      (h.senders.flatMap fun x => x.item.tokens) :=
    C.lexes_join fun x hx => Sender.lexes_lines (hs.senders x hx)
  have hformatTitle : Lexes
      (Text.unlines ["/** @brief Machine understandable format for message specs */"])
      [.comment "* @brief Machine understandable format for message specs "] := by
    decide +kernel
  have hformats : Lexes (String.join (h.formats.map fun x => Text.unlines x.lines))
      (h.formats.flatMap fun x => x.item.tokens) :=
    C.lexes_join fun x hx => FormatArray.lexes_lines (hs.formats x hx)
  have hfunction : Lexes (Text.unlines functionLines) (functionItems.flatMap Item.tokens) := by
    decide +kernel
  have hending : Lexes (Text.unlines ending) (endingItems.flatMap Item.tokens) := by
    decide +kernel
  have hall := ((((((((((hpreamble.append (lexes_enumeration hs)).append hlayoutTitle).append
    hlayouts).append hsenderTitle).append hsenders).append hformatTitle).append hformats).append
    (lexes_table hs)).append hfunction).append hending)
  exact hall.congr (by simp [items, Item.tokens, List.flatMap_assoc, List.flatMap_map])

/-- The text of a header whose names are words is read back. -/
theorem read?_text (hs : h.Spelled) : C.read? h.text = some h.items :=
  C.read?_eq_some_of_lexes (lexes_text hs) h.readable_items

end Header

/-! ### The header of a schema -/

/-- The types of members are words and leave room for a blank. -/
theorem WireType.cType_spelled (t : WireType) : IsWord t.cType ∧ t.cType.length < typeWidth := by
  cases t <;> decide

namespace Message

variable {m : Message}

theorem isWord_name (h : m.WellFormed) : IsWord m.name := isWord_of_isIdentifier h.identifier

theorem isWord_ident (h : m.WellFormed) : IsWord m.ident :=
  h.ident_eq ▸ isWord_constantOf (isWord_name h)

theorem isWord_layoutName (h : m.WellFormed) : IsWord m.layoutName :=
  (IsWord.append (by decide) (isWord_name h)).append (by decide)

theorem isWord_formatName (h : m.WellFormed) : IsWord m.formatName :=
  IsWord.append (by decide) (isWord_name h)

theorem isWord_senderName (h : m.WellFormed) : IsWord m.senderName :=
  IsWord.append (by decide) (isWord_name h)

theorem spelled_layout (h : m.WellFormed) : m.layout.Spelled where
  message := isWord_name h
  name := isWord_layoutName h
  types := by
    intro x hx
    obtain ⟨f, -, rfl⟩ := List.mem_map.mp hx
    exact f.type.cType_spelled
  members := by
    intro x hx
    obtain ⟨f, hf, rfl⟩ := List.mem_map.mp hx
    exact isWord_of_isIdentifier (h.fields.identifier f hf)

end Message

namespace Schema

variable {s : Schema}

/-- The names in the header of a well-formed schema are words. -/
theorem WellFormed.spelled (h : s.WellFormed) : s.header.Spelled where
  enumerators := List.forall_mem_map.mpr fun m hm => Message.isWord_ident (h.messages.each m hm)
  bundled := List.forall_mem_map.mpr fun m hm =>
    Message.isWord_ident (h.messages.each m (List.mem_filter.mp hm).1)
  layouts := List.forall_mem_map.mpr fun m hm => Message.spelled_layout (h.messages.each m hm)
  senders := List.forall_mem_map.mpr fun m hm =>
    have hm := h.messages.each m hm
    ⟨Message.isWord_senderName hm, Message.isWord_layoutName hm, Message.isWord_ident hm⟩
  formats := List.forall_mem_map.mpr fun m hm =>
    Message.isWord_formatName (h.messages.each m hm)
  rows := List.forall_mem_map.mpr fun m hm =>
    have hm := h.messages.each m hm
    ⟨Message.isWord_ident hm, Message.isWord_layoutName hm, Message.isWord_formatName hm⟩

/-- The text of the header of a well-formed schema is read back. -/
theorem WellFormed.read?_headerText (h : s.WellFormed) :
    C.read? s.headerText = some s.header.items :=
  Header.read?_text h.spelled

end Schema

end Telemetry
