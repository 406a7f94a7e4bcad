import Mathlib.Algebra.Group.Int.Defs
import Telemetry.Json.Value
import Telemetry.Text.Utf8

/-!
# Spellings

How JSON is written, said without a reader: which bytes spell a string, an integer or a value
(`Spells`), with blanks between any two tokens, escapes of any kind and the members of an object in
any order. Of a value that nobody asks for it only matters that it is one (`IsJson`); it may have
numbers of any size, and escapes that stand for no character.

Brackets are counted: a value is spelled with at most so many of them nested.
-/

namespace Telemetry.Json

/-- Text in ASCII. -/
def ascii (text : String) : Bytes := text.toList.map Byte.ofAscii

/-- Nothing but blanks. -/
def Blank (s : Bytes) : Prop :=
  ∀ b ∈ s, b ∈ [Byte.space, Byte.tab, Byte.lineFeed, Byte.carriageReturn]

instance (s : Bytes) : Decidable (Blank s) := List.decidableBAll _ s

/-! ### Strings -/

/-- The letters of escapes, with the characters that they stand for. -/
def letterEscapes : List (Char × Char) :=
  [('"', '"'), ('\\', '\\'), ('/', '/'), ('b', '\x08'), ('f', '\x0c'), ('n', '\n'), ('r', '\r'),
    ('t', '\t')]

/-- A hexadecimal digit of either case. -/
inductive SpellsDigit : Nat → UInt8 → Prop where
  | lower {d : Nat} : d < 16 → SpellsDigit d (Byte.ofAscii (Nat.digitChar d))
  | upper {d : Nat} : d < 16 → SpellsDigit d (Byte.ofAscii (Nat.digitChar d).toUpper)

/-- Four hexadecimal digits. -/
inductive SpellsHex : Nat → Bytes → Prop where
  | digits {i j k l : Nat} {a b c d : UInt8} :
    SpellsDigit i a → SpellsDigit j b → SpellsDigit k c → SpellsDigit l d →
      SpellsHex (((i * 16 + j) * 16 + k) * 16 + l) [a, b, c, d]

/-- A character in a string: as it is, or by one of its escapes. Characters above `0xffff` have an
escape that is a pair of surrogates. -/
inductive SpellsChar : Char → Bytes → Prop where
  | plain {c : Char} : 0x20 ≤ c.toNat → c ≠ '"' → c ≠ '\\' → SpellsChar c (Text.Utf8.encodeChar c)
  | letter {l c : Char} : (l, c) ∈ letterEscapes → SpellsChar c [Byte.backslash, Byte.ofAscii l]
  | number {c : Char} {ds : Bytes} :
    SpellsHex c.toNat ds → SpellsChar c (Byte.backslash :: Byte.ofAscii 'u' :: ds)
  | pair {c : Char} {ds es : Bytes} :
    0x10000 ≤ c.toNat → SpellsHex (0xd800 + (c.toNat - 0x10000) / 0x400) ds →
      SpellsHex (0xdc00 + (c.toNat - 0x10000) % 0x400) es →
        SpellsChar c (Byte.backslash :: Byte.ofAscii 'u' :: ds ++
          Byte.backslash :: Byte.ofAscii 'u' :: es)

/-- Characters one after the other. -/
inductive SpellsChars : List Char → Bytes → Prop where
  | nil : SpellsChars [] []
  | cons {c : Char} {cs : List Char} {s t : Bytes} :
    SpellsChar c s → SpellsChars cs t → SpellsChars (c :: cs) (s ++ t)

/-- A string between quotes. -/
inductive SpellsString : String → Bytes → Prop where
  | quoted {text : String} {s : Bytes} :
    SpellsChars text.toList s → SpellsString text (Byte.quote :: (s ++ [Byte.quote]))

/-! ### Brackets -/

/-- Something with blanks around it. -/
inductive Padded (P : Bytes → Prop) : Bytes → Prop where
  | blanks {a s b : Bytes} : Blank a → P s → Blank b → Padded P (a ++ (s ++ b))

/-- Items with commas between them, of which there is at least one. -/
inductive Separated {α : Type} (P : α → Bytes → Prop) : List α → Bytes → Prop where
  | one {x : α} {s : Bytes} : Padded (P x) s → Separated P [x] s
  | more {x : α} {xs : List α} {s t : Bytes} :
    Padded (P x) s → Separated P xs t → Separated P (x :: xs) (s ++ Byte.comma :: t)

/-- Items between brackets. -/
inductive Enclosed {α : Type} (opening closing : UInt8) (P : α → Bytes → Prop) :
    List α → Bytes → Prop where
  | nothing {s : Bytes} : Blank s → Enclosed opening closing P [] (opening :: (s ++ [closing]))
  | items {xs : List α} {s : Bytes} :
    Separated P xs s → Enclosed opening closing P xs (opening :: (s ++ [closing]))

/-- Items of a list. -/
abbrev Listed {α : Type} (P : α → Bytes → Prop) : List α → Bytes → Prop :=
  Enclosed Byte.openList Byte.closeList P

/-- Members of an object. -/
abbrev Membered {α : Type} (P : α → Bytes → Prop) : List α → Bytes → Prop :=
  Enclosed Byte.openObject Byte.closeObject P

/-- A member: its key, a colon and its value. -/
inductive Member (K V : Bytes → Prop) : Bytes → Prop where
  | colon {k a b s : Bytes} :
    K k → Blank a → Blank b → V s → Member K V (k ++ (a ++ Byte.colon :: (b ++ s)))

/-! ### Values -/

/-- An integer in decimal. -/
def SpellsInteger (n : Int) (s : Bytes) : Prop :=
  -2 ^ 63 ≤ n ∧ n < 2 ^ 64 ∧ s = ascii (toString n)

/-- A truth value. -/
def SpellsBool (b : Bool) (s : Bytes) : Prop := s = ascii (if b then "true" else "false")

/-- A value with no doubles in it. The keys of an object are distinct, and its members are written
in any order. -/
def Spells (depth : Nat) (x : Value) (s : Bytes) : Prop :=
  match x with
  | .null => s = ascii "null"
  | .boolean b => SpellsBool b s
  | .number (.integer n) => SpellsInteger n s
  | .number (.double _ _) => False
  | .string text => SpellsString text s
  | .array items =>
    match depth with
    | 0 => False
    | depth + 1 => Listed (Spells depth) items s
  | .object members =>
    match depth with
    | 0 => False
    | depth + 1 =>
      members.Pairwise (·.1 < ·.1) ∧ ∃ written, written.Perm members ∧
        Membered (fun m => Member (SpellsString m.1) (Spells depth m.2)) written s

/-! ### Values nobody asks for -/

/-- A part of a string: a byte that stands for itself, or an escape. -/
inductive IsStringPart : Bytes → Prop where
  | plain {b : UInt8} : Byte.space ≤ b → b ≠ Byte.quote → b ≠ Byte.backslash → IsStringPart [b]
  | letter {e : Char × Char} : e ∈ letterEscapes → IsStringPart [Byte.backslash, Byte.ofAscii e.1]
  | number {n : Nat} {ds : Bytes} :
    SpellsHex n ds → IsStringPart (Byte.backslash :: Byte.ofAscii 'u' :: ds)

/-- A string, whatever its escapes stand for. -/
inductive IsString : Bytes → Prop where
  | parts {parts : List Bytes} :
    (∀ p ∈ parts, IsStringPart p) → IsString (Byte.quote :: (parts.flatten ++ [Byte.quote]))

/-- Decimal digits, of which there is at least one. -/
def IsDigits (s : Bytes) : Prop := s ≠ [] ∧ ∀ b ∈ s, Byte.isDigit b = true

/-- The digits before the point: a zero alone, or digits of which the first is another. -/
inductive IsWhole : Bytes → Prop where
  | zero : IsWhole [Byte.zero]
  | digits {s : Bytes} : IsDigits s → s.head? ≠ some Byte.zero → IsWhole s

/-- The point and the digits behind it, if there are any. -/
inductive IsFraction : Bytes → Prop where
  | none : IsFraction []
  | digits {s : Bytes} : IsDigits s → IsFraction (Byte.point :: s)

/-- The exponent, if there is one. -/
inductive IsExponent : Bytes → Prop where
  | none : IsExponent []
  | digits {mark : UInt8} {sign s : Bytes} : mark ∈ ascii "eE" →
    sign ∈ [[], [Byte.plus], [Byte.minus]] → IsDigits s → IsExponent (mark :: (sign ++ s))

/-- A number of any size. -/
inductive IsNumber : Bytes → Prop where
  | parts {sign whole fraction exponent : Bytes} : sign ∈ [[], [Byte.minus]] → IsWhole whole →
    IsFraction fraction → IsExponent exponent → IsNumber (sign ++ (whole ++ (fraction ++ exponent)))

/-- A JSON value. -/
def IsJson (depth : Nat) (s : Bytes) : Prop :=
  s ∈ [ascii "null", ascii "true", ascii "false"] ∨ IsNumber s ∨ IsString s ∨
    match depth with
    | 0 => False
    | depth + 1 =>
      (∃ items : List Unit, Listed (fun _ => IsJson depth) items s) ∨
        ∃ members : List Unit, Membered (fun _ => Member IsString (IsJson depth)) members s

end Telemetry.Json
