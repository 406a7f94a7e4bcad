import Telemetry.Proofs.C.Token

/-!
# Declarations of C

What a header declares, read from its tokens: types by `typedef`, constants, arrays, tables of
structures and functions, with the comments and directives between them. A table is an array whose
items are structures, each given by its members; values of members, parameters and the bodies of
functions are kept as tokens.

Declarations can be written as tokens (`Declaration.tokens`), and what is written so is read back
(`readsBack_item`, `readUntil_flatMap`): the reader loses nothing and does not depend on what
follows.
-/

namespace Telemetry.C

/-- A declaration of C. -/
inductive Declaration where
  /-- A type by its constants, each with the numeral of its value. -/
  | enumeration (constants : List (String × String)) (name : String)
  /-- A type by the types and names of its members. -/
  | record (members : List (String × String)) (name : String)
  | constant (type name value : String)
  | array (type name : String) (items : List String)
  /-- An array of structures, each given by the names and values of its members. -/
  | table (type name : String) (rows : List (List (String × List Token)))
  | function (result name : String) (parameters body : List Token)
deriving DecidableEq, Repr

/-- What stands at the outermost level of a text. -/
inductive Item where
  | comment (text : String)
  | directive (text : String)
  | declaration (d : Declaration)
deriving DecidableEq, Repr

/-- All that stands at the outermost level of a text. -/
abbrev TranslationUnit := List Item

/-- Reads something from the front of the tokens. -/
abbrev Reader (α : Type) := List Token → Option (α × List Token)

/-! ### Readers -/

/-- Reads one thing after the other until `stop` takes what is left. -/
def readUntil {α : Type} (stop : List Token → Option (List Token)) (one : Reader α)
    (ts : List Token) : Option (List α × List Token) :=
  match stop ts with
  | some rest => some ([], rest)
  | none =>
    match one ts with
    | none => none
    | some (x, rest) =>
      if rest.length < ts.length then
        (readUntil stop one rest).map fun (xs, rest) => (x :: xs, rest)
      else none
termination_by ts.length

/-- Takes a closing brace. -/
def closing : List Token → Option (List Token)
  | .mark '}' :: ts => some ts
  | _ => none

/-- Takes the end of the text. -/
def ending : List Token → Option (List Token)
  | [] => some []
  | _ => none

/-- Reads all tokens up to a mark, which is taken too. -/
def readThrough (c : Char) : Reader (List Token)
  | [] => none
  | t :: ts =>
    if t = .mark c then some ([], ts)
    else (readThrough c ts).map fun (us, rest) => (t :: us, rest)

/-- Reads a constant of an enumeration. -/
def readConstant : Reader (String × String)
  | .word name :: .mark '=' :: .word value :: .mark ',' :: ts => some ((name, value), ts)
  | _ => none

/-- Reads a member of a structure. -/
def readMember : Reader (String × String)
  | .word type :: .word name :: .mark ';' :: ts => some ((type, name), ts)
  | _ => none

/-- Reads the items of an array, with a comma between them, and the closing brace. -/
def readItems : Reader (List String)
  | .mark '}' :: ts => some ([], ts)
  | .word x :: .mark '}' :: ts => some ([x], ts)
  | .word x :: .mark ',' :: ts => (readItems ts).map fun (xs, rest) => (x :: xs, rest)
  | _ => none

/-- Reads the value of a member in a row. -/
def readField : Reader (String × List Token)
  | .mark '.' :: .word name :: .mark '=' :: ts =>
    (readThrough ',' ts).map fun (value, rest) => ((name, value), rest)
  | _ => none

/-- Reads a row of a table. -/
def readRow : Reader (List (String × List Token))
  | .mark '{' :: ts => do
    let (fields, ts) ← readUntil closing readField ts
    let .mark ',' :: ts := ts | none
    some (fields, ts)
  | _ => none

/-- Reads the definition of a type behind `typedef`. -/
def readTypedef : Reader Declaration
  | .word kind :: .mark '{' :: ts =>
    if kind = "enum" then do
      let (constants, ts) ← readUntil closing readConstant ts
      let .word name :: .mark ';' :: ts := ts | none
      some (.enumeration constants name, ts)
    else if kind = "struct" then do
      let (members, ts) ← readUntil closing readMember ts
      let .word name :: .mark ';' :: ts := ts | none
      some (.record members name, ts)
    else none
  | _ => none

/-- Reads a constant or an array of constants behind `const`. -/
def readConst : Reader Declaration
  | .word type :: .word name :: .mark '=' :: .word value :: .mark ';' :: ts =>
    some (.constant type name value, ts)
  | .word type :: .word name :: .mark '[' :: .mark ']' :: .mark '=' :: .mark '{' :: ts => do
    let (items, ts) ← readItems ts
    let .mark ';' :: ts := ts | none
    some (.array type name items, ts)
  | _ => none

/-- Reads a table or a function behind its type. -/
def readTyped (type : String) : Reader Declaration
  | .word name :: .mark '[' :: .mark ']' :: .mark '=' :: .mark '{' :: ts => do
    let (rows, ts) ← readUntil closing readRow ts
    let .mark ';' :: ts := ts | none
    some (.table type name rows, ts)
  | .word name :: .mark '(' :: ts => do
    let (parameters, ts) ← readThrough ')' ts
    let .mark '{' :: ts := ts | none
    let (body, ts) ← readThrough '}' ts
    some (.function type name parameters body, ts)
  | _ => none

/-- Reads a declaration. -/
def readDeclaration : Reader Declaration
  | .word w :: ts =>
    if w = "typedef" then readTypedef ts
    else if w = "const" then readConst ts
    else readTyped w ts
  | _ => none

/-- Reads a comment, a directive or a declaration. -/
def readItem : Reader Item
  | .comment text :: ts => some (.comment text, ts)
  | .directive text :: ts => some (.directive text, ts)
  | ts => (readDeclaration ts).map fun (d, rest) => (.declaration d, rest)

/-- Reads a whole text. -/
def read? (text : String) : Option TranslationUnit := do
  let (items, _) ← readUntil ending readItem (← tokens? text)
  some items

/-! ### Declarations as tokens -/

/-- A constant of an enumeration. -/
def constantTokens (c : String × String) : List Token :=
  [.word c.1, .mark '=', .word c.2, .mark ',']

/-- A member of a structure. -/
def memberTokens (m : String × String) : List Token := [.word m.1, .word m.2, .mark ';']

/-- The items of an array, with a comma between them, and the closing brace. -/
def itemsTokens : List String → List Token
  | [] => [.mark '}']
  | [x] => [.word x, .mark '}']
  | x :: xs => .word x :: .mark ',' :: itemsTokens xs

/-- The value of a member in a row. -/
def fieldTokens (f : String × List Token) : List Token :=
  [.mark '.', .word f.1, .mark '='] ++ f.2 ++ [.mark ',']

/-- A row of a table. -/
def rowTokens (row : List (String × List Token)) : List Token :=
  [.mark '{'] ++ row.flatMap fieldTokens ++ [.mark '}', .mark ',']

/-- A declaration. -/
def Declaration.tokens : Declaration → List Token
  | enumeration constants name =>
    [.word "typedef", .word "enum", .mark '{'] ++ constants.flatMap constantTokens
      ++ [.mark '}', .word name, .mark ';']
  | record members name =>
    [.word "typedef", .word "struct", .mark '{'] ++ members.flatMap memberTokens
      ++ [.mark '}', .word name, .mark ';']
  | constant type name value =>
    [.word "const", .word type, .word name, .mark '=', .word value, .mark ';']
  | array type name items =>
    [.word "const", .word type, .word name, .mark '[', .mark ']', .mark '=', .mark '{']
      ++ itemsTokens items ++ [.mark ';']
  | table type name rows =>
    [.word type, .word name, .mark '[', .mark ']', .mark '=', .mark '{'] ++ rows.flatMap rowTokens
      ++ [.mark '}', .mark ';']
  | function result name parameters body =>
    [.word result, .word name, .mark '('] ++ parameters ++ [.mark ')', .mark '{'] ++ body
      ++ [.mark '}']

/-- An item. -/
def Item.tokens : Item → List Token
  | comment text => [.comment text]
  | directive text => [.directive text]
  | declaration d => d.tokens

/-- A declaration whose parts do not hold the marks that end them, and whose type is not one of the
words that begin other declarations. -/
def Declaration.Readable : Declaration → Prop
  | table type _ rows =>
    type ≠ "typedef" ∧ type ≠ "const" ∧ ∀ row ∈ rows, ∀ f ∈ row, Token.mark ',' ∉ f.2
  | function result _ parameters body =>
    result ≠ "typedef" ∧ result ≠ "const" ∧ Token.mark ')' ∉ parameters ∧ Token.mark '}' ∉ body
  | _ => True

/-- An item that can be read back. -/
def Item.Readable : Item → Prop
  | declaration d => d.Readable
  | _ => True

/-! ### What a text declares -/

namespace Declaration

/-- The names that a declaration gives to something: the constants of an enumeration too, but not
the members of a structure, which are no names outside it. -/
def names : Declaration → List String
  | enumeration constants name => constants.map (·.1) ++ [name]
  | record _ name | constant _ name _ | array _ name _ | table _ name _ | function _ name _ _ =>
    [name]

/-- The constants that a declaration gives a value, with their numerals. -/
def enumerators : Declaration → List (String × String)
  | enumeration constants _ => constants
  | _ => []

/-- The members of a structure and its name. -/
def records : Declaration → List (List (String × String) × String)
  | record members name => [(members, name)]
  | _ => []

/-- The name and the numeral of a constant. -/
def constants : Declaration → List (String × String)
  | constant _ name value => [(name, value)]
  | _ => []

/-- The name and the items of an array. -/
def arrays : Declaration → List (String × List String)
  | array _ name items => [(name, items)]
  | _ => []

/-- The name and the rows of a table. -/
def tables : Declaration → List (String × List (List (String × List Token)))
  | table _ name rows => [(name, rows)]
  | _ => []

/-- The name of a function, its parameters and its body. -/
def functions : Declaration → List (String × List Token × List Token)
  | function _ name parameters body => [(name, parameters, body)]
  | _ => []

end Declaration

/-- The declaration that an item is. -/
def Item.declaration? : Item → Option Declaration
  | declaration d => some d
  | _ => none

namespace TranslationUnit

variable (u : TranslationUnit)

/-- The declarations of a text, in order. -/
def declarations : List Declaration := u.filterMap Item.declaration?

/-- All names that a text declares at the outermost level, in order. -/
def names : List String := (declarations u).flatMap Declaration.names

/-- The constants of all enumerations, with their numerals. -/
def enumerators : List (String × String) := (declarations u).flatMap Declaration.enumerators

/-- The structures by their members and names. -/
def records : List (List (String × String) × String) :=
  (declarations u).flatMap Declaration.records

/-- The constants by their names and numerals. -/
def constants : List (String × String) := (declarations u).flatMap Declaration.constants

/-- The arrays by their names and items. -/
def arrays : List (String × List String) := (declarations u).flatMap Declaration.arrays

/-- The tables by their names and rows. -/
def tables : List (String × List (List (String × List Token))) :=
  (declarations u).flatMap Declaration.tables

/-- The functions by their names, parameters and bodies. -/
def functions : List (String × List Token × List Token) :=
  (declarations u).flatMap Declaration.functions

end TranslationUnit

/-! ### Reading back -/

/-- What `write` makes of a thing is read back by `one`, whatever follows, and not taken for the end
of the list. -/
structure ReadsBack {α : Type} (stop : List Token → Option (List Token)) (one : Reader α)
    (write : α → List Token) (x : α) : Prop where
  ne_nil : write x ≠ []
  goes_on : ∀ ts, stop (write x ++ ts) = none
  reads : ∀ ts, one (write x ++ ts) = some (x, ts)

/-- A list is read back if each thing in it is. -/
theorem readUntil_flatMap {α : Type} {stop : List Token → Option (List Token)} {one : Reader α}
    {write : α → List Token} {xs : List α} {ts rest : List Token}
    (h : ∀ x ∈ xs, ReadsBack stop one write x) (hstop : stop ts = some rest) :
    readUntil stop one (xs.flatMap write ++ ts) = some (xs, rest) := by
  induction xs with
  | nil => rw [List.flatMap_nil, List.nil_append, readUntil, hstop]
  | cons x xs ih =>
    obtain ⟨hne, hgo, hread⟩ := h x List.mem_cons_self
    -- the reader goes on only because something has been taken
    have hlt : (xs.flatMap write ++ ts).length < (write x ++ (xs.flatMap write ++ ts)).length := by
      have := List.length_pos_iff.mpr hne
      simp only [List.length_append]
      omega
    rw [List.flatMap_cons, List.append_assoc, readUntil, hgo, hread]
    dsimp only
    rw [if_pos hlt, ih fun y hy => h y (List.mem_cons_of_mem x hy)]
    rfl

theorem readThrough_append {c : Char} {us : List Token} (h : Token.mark c ∉ us)
    (ts : List Token) : readThrough c (us ++ .mark c :: ts) = some (us, ts) := by
  induction us with
  | nil => simp [readThrough]
  | cons u us ih =>
    have hu : u ≠ .mark c := fun e => h (e ▸ List.mem_cons_self)
    rw [List.cons_append, readThrough, if_neg hu, ih fun hus => h (List.mem_cons_of_mem u hus)]
    rfl

theorem readItems_itemsTokens (xs : List String) (ts : List Token) :
    readItems (itemsTokens xs ++ ts) = some (xs, ts) := by
  fun_induction itemsTokens xs with
  | case1 => rfl
  | case2 x => rfl
  | case3 x xs _ ih =>
    rw [List.cons_append, List.cons_append, readItems, ih]
    rfl

theorem readsBack_constant (c : String × String) :
    ReadsBack closing readConstant constantTokens c :=
  ⟨List.cons_ne_nil _ _, fun _ => rfl, fun _ => rfl⟩

theorem readsBack_member (m : String × String) : ReadsBack closing readMember memberTokens m :=
  ⟨List.cons_ne_nil _ _, fun _ => rfl, fun _ => rfl⟩

theorem readsBack_field {f : String × List Token} (h : Token.mark ',' ∉ f.2) :
    ReadsBack closing readField fieldTokens f where
  ne_nil := List.cons_ne_nil _ _
  goes_on _ := rfl
  reads ts := by
    have htokens : fieldTokens f ++ ts =
        .mark '.' :: .word f.1 :: .mark '=' :: (f.2 ++ .mark ',' :: ts) := by
      simp [fieldTokens]
    rw [htokens, readField, readThrough_append h]
    rfl

theorem readsBack_row {row : List (String × List Token)}
    (h : ∀ f ∈ row, Token.mark ',' ∉ f.2) : ReadsBack closing readRow rowTokens row where
  ne_nil := List.cons_ne_nil _ _
  goes_on _ := rfl
  reads ts := by
    have htokens : rowTokens row ++ ts =
        .mark '{' :: (row.flatMap fieldTokens ++ .mark '}' :: .mark ',' :: ts) := by
      simp [rowTokens]
    have hfields : readUntil closing readField (row.flatMap fieldTokens ++ .mark '}' ::
        .mark ',' :: ts) = some (row, .mark ',' :: ts) :=
      readUntil_flatMap (fun f hf => readsBack_field (h f hf)) rfl
    rw [htokens, readRow, hfields]
    rfl

/-- A declaration is read back from its tokens. -/
theorem readDeclaration_tokens {d : Declaration} (h : d.Readable) (ts : List Token) :
    readDeclaration (d.tokens ++ ts) = some (d, ts) := by
  cases d with
  | enumeration constants name =>
    have htokens : (Declaration.enumeration constants name).tokens ++ ts =
        .word "typedef" :: .word "enum" :: .mark '{' ::
          (constants.flatMap constantTokens ++ .mark '}' :: .word name :: .mark ';' :: ts) := by
      simp [Declaration.tokens]
    have hlist : readUntil closing readConstant (constants.flatMap constantTokens ++
        .mark '}' :: .word name :: .mark ';' :: ts) =
        some (constants, .word name :: .mark ';' :: ts) :=
      readUntil_flatMap (fun c _ => readsBack_constant c) rfl
    rw [htokens, readDeclaration, if_pos rfl, readTypedef, if_pos rfl, hlist]
    rfl
  | record members name =>
    have htokens : (Declaration.record members name).tokens ++ ts =
        .word "typedef" :: .word "struct" :: .mark '{' ::
          (members.flatMap memberTokens ++ .mark '}' :: .word name :: .mark ';' :: ts) := by
      simp [Declaration.tokens]
    have hlist : readUntil closing readMember (members.flatMap memberTokens ++
        .mark '}' :: .word name :: .mark ';' :: ts) =
        some (members, .word name :: .mark ';' :: ts) :=
      readUntil_flatMap (fun m _ => readsBack_member m) rfl
    rw [htokens, readDeclaration, if_pos rfl, readTypedef, if_neg (by decide), if_pos rfl, hlist]
    rfl
  | constant type name value => rfl
  | array type name items =>
    have htokens : (Declaration.array type name items).tokens ++ ts =
        .word "const" :: .word type :: .word name :: .mark '[' :: .mark ']' :: .mark '=' ::
          .mark '{' :: (itemsTokens items ++ .mark ';' :: ts) := by
      simp [Declaration.tokens]
    rw [htokens, readDeclaration, if_neg (by decide), if_pos rfl, readConst, readItems_itemsTokens]
    rfl
  | table type name rows =>
    obtain ⟨htypedef, hconst, hrows⟩ := h
    have htokens : (Declaration.table type name rows).tokens ++ ts =
        .word type :: .word name :: .mark '[' :: .mark ']' :: .mark '=' :: .mark '{' ::
          (rows.flatMap rowTokens ++ .mark '}' :: .mark ';' :: ts) := by
      simp [Declaration.tokens]
    have hlist : readUntil closing readRow (rows.flatMap rowTokens ++ .mark '}' :: .mark ';' :: ts)
        = some (rows, .mark ';' :: ts) :=
      readUntil_flatMap (fun row hrow => readsBack_row (hrows row hrow)) rfl
    rw [htokens, readDeclaration, if_neg htypedef, if_neg hconst, readTyped, hlist]
    rfl
  | function result name parameters body =>
    obtain ⟨htypedef, hconst, hparameters, hbody⟩ := h
    have htokens : (Declaration.function result name parameters body).tokens ++ ts =
        .word result :: .word name :: .mark '(' ::
          (parameters ++ .mark ')' :: .mark '{' :: (body ++ .mark '}' :: ts)) := by
      simp [Declaration.tokens]
    rw [htokens, readDeclaration, if_neg htypedef, if_neg hconst, readTyped,
      readThrough_append hparameters]
    change (readThrough '}' (body ++ .mark '}' :: ts)).bind _ = _
    rw [readThrough_append hbody]
    rfl

/-- The tokens of a declaration begin with a word. -/
theorem Declaration.exists_tokens_eq (d : Declaration) : ∃ w ts, d.tokens = .word w :: ts := by
  cases d <;> exact ⟨_, _, rfl⟩

/-- An item is read back from its tokens. -/
theorem readsBack_item {x : Item} (h : x.Readable) : ReadsBack ending readItem Item.tokens x := by
  cases x with
  | comment text => exact ⟨List.cons_ne_nil _ _, fun _ => rfl, fun _ => rfl⟩
  | directive text => exact ⟨List.cons_ne_nil _ _, fun _ => rfl, fun _ => rfl⟩
  | declaration d =>
    obtain ⟨w, us, hd⟩ := d.exists_tokens_eq
    refine ⟨?_, fun ts => ?_, fun ts => ?_⟩
    · rw [Item.tokens, hd]
      exact List.cons_ne_nil _ _
    · rw [Item.tokens, hd]
      rfl
    · have hread := readDeclaration_tokens h ts
      rw [hd, List.cons_append] at hread
      rw [Item.tokens, hd, List.cons_append, readItem]
      · rw [hread]
        rfl
      · intro text ts' heq
        cases heq
      · intro text ts' heq
        cases heq

/-- A text that lexes to the tokens of readable items is read as these. -/
theorem read?_eq_some_of_lexes {text : String} {items : TranslationUnit}
    (h : Lexes text (items.flatMap Item.tokens)) (hread : ∀ x ∈ items, x.Readable) :
    read? text = some items := by
  have hitems : readUntil ending readItem (items.flatMap Item.tokens ++ []) = some (items, []) :=
    readUntil_flatMap (fun x hx => readsBack_item (hread x hx)) rfl
  rw [List.append_nil] at hitems
  rw [read?, tokens?_eq_some_of_lexes h]
  change (readUntil ending readItem _).bind _ = _
  rw [hitems]
  rfl

end Telemetry.C
