import Telemetry.Header.Basic
import Telemetry.Text.Lines

/-!
# Header text

The C text of a header. It has six sections between a preamble and the end of the include guard;
layouts, senders and format arrays have a text each. Lines end in a line feed.
-/

namespace Telemetry

open Text (unlines)

/-- A text, filled up with spaces to a width. -/
def padRight (width : Nat) (s : String) : String :=
  s ++ String.ofList (List.replicate (width - s.length) ' ')

/-- Texts with a comma between them. -/
def commaSeparated (items : List String) : String := String.join (items.intersperse ", ")

/-- An initializer of a C array. -/
def initializer (items : List String) : String :=
  if items = [] then "\x7b \x7d" else "\x7b " ++ commaSeparated items ++ " \x7d"

/-- A number of sixteen bits in C, with four hexadecimal digits. -/
def hexWord (n : Nat) : String :=
  "0x" ++ String.ofList ([n / 4096, n / 256, n / 16, n].map fun k => Nat.digitChar (k % 16))

/-- The C name of a truth value. -/
def boolText (b : Bool) : String := if b then "true" else "false"

/-- The declaration of a C integer constant. -/
def intConstant (name : String) (value : Nat) : String :=
  "const int " ++ name ++ " = " ++ toString value ++ ";"

/-- The width to which the type of a member is filled up. -/
def typeWidth : Nat := 12

namespace Enumerator

/-- The line of a constant in the enumeration. -/
def line (e : Enumerator) : String := "  " ++ e.ident ++ " = " ++ toString e.value.toNat ++ ","

end Enumerator

namespace Layout

/-- The line of a member, given its C type and its name. -/
def memberLine (m : String × String) : String := "    " ++ padRight typeWidth m.1 ++ m.2 ++ ";"

/-- The lines of a layout: a comment with its size, and the structure. -/
def lines (x : Layout) : List String :=
  ["/** @brief " ++ x.message ++ ", " ++ toString x.size ++ " bytes serialized */",
    "typedef struct \x7b"]
    ++ x.members.map memberLine
    ++ ["\x7d " ++ x.name ++ ";", ""]

end Layout

namespace Sender

/-- The lines of a function that sends. -/
def lines (x : Sender) : List String :=
  ["int " ++ x.function ++ "(tbi_ctx_t* tbi, " ++ x.layout ++ " *value)",
    "\x7b",
    "\treturn tbi_telemetry_schedule(tbi, " ++ x.ident ++ ", (void*)value);",
    "\x7d",
    ""]

end Sender

namespace FormatArray

/-- The lines of an array of type codes. -/
def lines (x : FormatArray) : List String :=
  ["const uint8_t " ++ x.name ++ "[] = " ++ initializer (x.codes.map fun c => toString c.toNat) ++
    ";"]

end FormatArray

namespace Row

/-- The lines of a row of the registration table. -/
def lines (x : Row) : List String :=
  ["\t\x7b",
    "\t\t.msgtype      = " ++ x.ident ++ ",",
    "\t\t.dcb          = " ++ boolText x.bundle ++ ",",
    "\t\t.raw_size     = sizeof(" ++ x.layout ++ "),",
    "\t\t.format_len   = " ++ toString x.formatLength ++ ",",
    "\t\t.format       = " ++ x.format ++ ",",
    "\t\t.buflen       = 0,",
    "\t\t.head         = NULL,",
    "\t\x7d,"]

end Row

/-- The sections of a header as text. -/
structure Sections where
  enumeration : String
  layouts : List String
  senders : List String
  formats : List String
  registrationTable : String
  registrationFunction : String
deriving DecidableEq, Repr

namespace Header

/-- The lines of the enumeration, with the number of its constants and the list of those in bundles.
-/
def enumerationLines (h : Header) : List String :=
  ["/** @brief Message name enumeration, values are IDs */",
    "typedef enum \x7b"]
    ++ h.enumerators.map Enumerator.line
    ++ ["\x7d msgspec_types_t;",
      "",
      intConstant "msgspec_types_len" h.enumerators.length,
      intConstant "msgspec_bundle_types_len" h.bundled.length,
      "const uint8_t msgspec_bundle_types[] = " ++ initializer h.bundled ++ ";"]

/-- The lines of the registration table, with its length and the checksum. -/
def tableLines (h : Header) : List String :=
  ["",
    "/** @brief Initialize message context for each type */",
    "tbi_msg_ctx_t msgspec_ctxs[] = \x7b"]
    ++ h.rows.flatMap Row.lines
    ++ ["\x7d;",
      intConstant "msgspec_ctxs_len" h.rows.length,
      "",
      "/** @brief CRC16-CCITT of the message type IDs and their formats */",
      "const uint16_t msgspec_schema_csum = " ++ hexWord h.checksum.toNat ++ ";"]

/-- The lines of the function that registers the table, the same in all headers. -/
def functionLines : List String :=
  ["",
    "/** @brief Register message spec with tbi context */",
    "int tbi_register_msgspec(tbi_ctx_t* tbi)",
    "\x7b",
    "\ttbi->msg_ctxs = msgspec_ctxs;",
    "\ttbi->msg_ctxs_len = msgspec_ctxs_len;",
    "\treturn 0;",
    "\x7d"]

/-- The sections of a header. -/
def sections (h : Header) : Sections where
  enumeration := unlines h.enumerationLines
  layouts := h.layouts.map fun x => unlines x.lines
  senders := h.senders.map fun x => unlines x.lines
  formats := h.formats.map fun x => unlines x.lines
  registrationTable := unlines h.tableLines
  registrationFunction := unlines functionLines

/-- What stands before the sections. -/
def preamble : List String :=
  ["/* Auto-generated file - DO NOT EDIT! */",
    "",
    "#ifndef __MESSAGESPEC_H",
    "#define __MESSAGESPEC_H",
    "",
    "#include <stdint.h>",
    "#include <stdlib.h>",
    "#include \"tbi_types.h\"",
    "#include \"tbi.h\"",
    ""]

/-- What stands behind the sections. -/
def ending : List String := ["", "#endif /* __MESSAGESPEC_H */"]

end Header

/-- The text of a header with the given sections. -/
def Sections.text (x : Sections) : String :=
  unlines Header.preamble
    ++ x.enumeration
    ++ unlines ["", "/** @brief Convenience structs for sending telemetry */"]
    ++ String.join x.layouts
    ++ unlines ["/** @brief Convenience functions for sending telemetry */"]
    ++ String.join x.senders
    ++ unlines ["/** @brief Machine understandable format for message specs */"]
    ++ String.join x.formats
    ++ x.registrationTable
    ++ x.registrationFunction
    ++ unlines Header.ending

/-- The text of a header. -/
def Header.text (h : Header) : String := h.sections.text

/-- The text of the header of a schema. -/
def Schema.headerText (s : Schema) : String := s.header.text

end Telemetry
