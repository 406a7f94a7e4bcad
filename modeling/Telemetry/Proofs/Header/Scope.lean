import Telemetry.Proofs.C.Scope
import Telemetry.Proofs.Header.Sections

/-!
# Declaration before use in headers

In the header of a well-formed schema every name stands behind its declaration
(`Schema.WellFormed.declaredBeforeUse_items`), unless it is one of the names that every header gets
from C and from the runtime (`Header.IsGiven`).

The names that a header makes up begin in one of three ways (`Header.IsMadeUp`). Constants and given
names do not, so they can be used anywhere behind the enumeration. What is left are the layouts and
arrays that functions and rows refer to, and the table in the function that registers it.

Together with the readings of the sections this says that all sections of a header describe the same
message types (`Schema.sections_headerText`).
-/

namespace Telemetry

open C (Declaration Role)

namespace Header

/-- The names that headers refer to and do not declare: the types and functions of C and of the
runtime, what the members and parameters are called, and words of the language. -/
def givenNames : List (Role × String) :=
  WireType.all.map (fun t => (.type, t.cType))
    ++ ["int", "void", "tbi_ctx_t", "tbi_msg_ctx_t", "tbi", "value"].map (.type, ·)
    ++ ["return", "true", "false", "NULL", "tbi_telemetry_schedule", "tbi", "value", "msg_ctxs",
      "msg_ctxs_len"].map (.value, ·)

/-- A name that need not be declared, or a numeral. -/
def IsGiven (n : Role × String) : Prop :=
  n ∈ givenNames ∨ n.1 = .value ∧ n.2.toList.head?.any Char.isDigit = true

instance (n : Role × String) : Decidable (IsGiven n) := inferInstanceAs (Decidable (_ ∨ _))

/-- Numerals begin with a digit. -/
theorem any_isDigit_head?_toString (n : Nat) :
    (toString n).toList.head?.any Char.isDigit = true := by
  have hlist : (toString n).toList = Nat.toDigits 10 n := Nat.toList_repr
  obtain ⟨c, cs, hcs⟩ := List.exists_cons_of_ne_nil (Nat.toDigits_ne_nil (b := 10) (n := n))
  rw [hlist, hcs]
  exact Nat.isDigit_of_mem_toDigits (b := 10) (n := n) (by decide) (by decide) (by simp [hcs])

theorem isGiven_toString (n : Nat) : IsGiven (.value, toString n) :=
  .inr ⟨rfl, any_isDigit_head?_toString n⟩

theorem isGiven_hexWord (n : Nat) : IsGiven (.value, hexWord n) := by
  refine .inr ⟨rfl, ?_⟩
  rw [C.toList_hexWord]
  rfl

/-- How the names begin that a header makes up, other than constants. -/
def madeUpBeginnings : List (List Char) := ["msgsp", "tbi_s", "tbi_r"].map String.toList

/-- A name that a header makes up, other than a constant. -/
def IsMadeUp (name : String) : Prop := name.toList.take 5 ∈ madeUpBeginnings

instance (name : String) : Decidable (IsMadeUp name) := inferInstanceAs (Decidable (_ ∈ _))

/-- Names that are made up begin with one of two letters. -/
theorem IsMadeUp.head? {name : String} (h : IsMadeUp name) :
    name.toList.head? = some 'm' ∨ name.toList.head? = some 't' := by
  have hall : ∀ x ∈ madeUpBeginnings, x.head? = some 'm' ∨ x.head? = some 't' := by decide
  simpa [List.head?_take] using hall _ h

/-- Given names are not made up. -/
theorem IsGiven.not_isMadeUp {n : Role × String} (h : IsGiven n) : ¬IsMadeUp n.2 := by
  rcases h with hname | ⟨-, hdigit⟩
  · have hall : ∀ x ∈ givenNames, ¬IsMadeUp x.2 := by decide
    exact hall n hname
  · intro hmadeUp
    rcases hmadeUp.head? with hhead | hhead <;> rw [hhead] at hdigit <;> cases hdigit

end Header

/-- A letter is no digit in upper case. -/
theorem isDigit_toUpper {c : Char} (h : (c == '_' || c.isAlpha) = true) :
    c.toUpper.isDigit = false := by
  rcases Bool.or_eq_true_iff.mp h with hunderscore | halpha
  · rw [beq_iff_eq.mp hunderscore]
    rfl
  · simp only [Char.isAlpha, Char.isUpper, Char.isLower, Char.isDigit, Char.toUpper] at *
    grind

namespace Message

variable {m : Message}

theorem isMadeUp_layoutName (m : Message) : Header.IsMadeUp m.layoutName := by
  simp [Header.IsMadeUp, Header.madeUpBeginnings, layoutName]

theorem isMadeUp_formatName (m : Message) : Header.IsMadeUp m.formatName := by
  simp [Header.IsMadeUp, Header.madeUpBeginnings, formatName]

theorem isMadeUp_senderName (m : Message) : Header.IsMadeUp m.senderName := by
  simp [Header.IsMadeUp, Header.madeUpBeginnings, senderName]

/-- Constants are not made up. -/
theorem WellFormed.not_isMadeUp_ident (h : m.WellFormed) : ¬Header.IsMadeUp m.ident := by
  have hne : ∀ c, c.isLower = true → m.ident.toList.head? ≠ some c := fun c hc hhead =>
    h.ident_ne (List.mem_of_head? hhead) hc rfl
  exact fun hmadeUp => hmadeUp.head?.elim (hne 'm' rfl) (hne 't' rfl)

/-- Constants are no numerals. -/
theorem WellFormed.not_isDigit_ident (h : m.WellFormed) :
    m.ident.toList.head?.any Char.isDigit = false := by
  have hname := h.identifier
  rw [h.ident_eq, constantOf, String.toList_map]
  unfold isIdentifier at hname
  split at hname
  · cases hname
  · next c cs hcs =>
    rw [hcs]
    exact isDigit_toUpper (Bool.and_eq_true_iff.mp hname).1

theorem WellFormed.ident_ne_toString (h : m.WellFormed) (k : Nat) : m.ident ≠ toString k := by
  intro heq
  have hdigit := h.not_isDigit_ident
  rw [heq, Header.any_isDigit_head?_toString] at hdigit
  cases hdigit

end Message

/-! ### What the declarations use -/

namespace Header

/-- A name that can be used anywhere behind the enumeration: given, or a constant. -/
def Known (s : Schema) (n : Role × String) : Prop :=
  IsGiven n ∨ ∃ m ∈ s.messages, n = (.value, m.ident)

/-- A declaration that uses known names only. -/
def UsesKnown (s : Schema) (x : Declaration) : Prop := ∀ n ∈ x.uses, Known s n

/-- A declaration that uses known names and layouts only. -/
def UsesLayouts (s : Schema) (x : Declaration) : Prop :=
  ∀ n ∈ x.uses, Known s n ∨ ∃ m ∈ s.messages, n = (.type, m.layoutName)

/-- A declaration of made-up names. -/
def MakesUp (x : Declaration) : Prop := ∀ n ∈ x.introduces, IsMadeUp n.2

/-- A declaration of values under made-up names. -/
def MakesUpValues (x : Declaration) : Prop := ∀ n ∈ x.introduces, IsMadeUp n.2 ∧ n.1 = .value

variable {s : Schema} {x y : Declaration}

theorem UsesKnown.usesLayouts (h : UsesKnown s x) : UsesLayouts s x := fun n hn => .inl (h n hn)

theorem MakesUpValues.makesUp (h : MakesUpValues x) : MakesUp x := fun n hn => (h n hn).1

theorem Known.not_isMadeUp {n : Role × String} (h : Known s n) (hs : s.WellFormed) :
    ¬IsMadeUp n.2 := by
  rcases h with hgiven | ⟨m, hm, rfl⟩
  · exact hgiven.not_isMadeUp
  · exact (hs.messages.each m hm).not_isMadeUp_ident

theorem UsesKnown.avoids (hx : UsesKnown s x) (hs : s.WellFormed) (hy : MakesUp y) : x.Avoids y :=
  fun n hn hmem => (hx n hn).not_isMadeUp hs (hy n hmem)

theorem UsesLayouts.avoids (hx : UsesLayouts s x) (hs : s.WellFormed) (hy : MakesUpValues y) :
    x.Avoids y := by
  intro n hn hmem
  obtain ⟨hmadeUp, hvalue⟩ := hy n hmem
  rcases hx n hn with hknown | ⟨m, -, rfl⟩
  · exact hknown.not_isMadeUp hs hmadeUp
  · cases hvalue

/-- A constant with a given type and value. -/
theorem usesKnown_constant {type name value : String} (htype : IsGiven (.type, type))
    (hvalue : IsGiven (.value, value)) : UsesKnown s (.constant type name value) := by
  intro n hn
  simp only [Declaration.uses, List.mem_cons, List.not_mem_nil, or_false] at hn
  rcases hn with rfl | rfl
  · exact .inl htype
  · exact .inl hvalue

theorem usesKnown_bundled (s : Schema) :
    UsesKnown s (.array "uint8_t" "msgspec_bundle_types" s.header.bundled) := by
  intro n hn
  simp only [Declaration.uses, Schema.header, List.mem_cons, List.mem_map] at hn
  rcases hn with rfl | ⟨ident, ⟨m, hm, rfl⟩, rfl⟩
  · exact .inl (by decide)
  · exact .inr ⟨m, (List.mem_filter.mp hm).1, rfl⟩

theorem usesKnown_layout (m : Message) : UsesKnown s m.layout.declaration := by
  have htypes (t : WireType) : IsGiven (.type, t.cType) := by cases t <;> decide
  intro n hn
  simp only [Layout.declaration, Declaration.uses, Message.layout, List.map_map,
    List.mem_map] at hn
  obtain ⟨f, -, rfl⟩ := hn
  exact .inl (htypes f.type)

theorem usesKnown_formatArray (m : Message) : UsesKnown s m.formatArray.declaration := by
  intro n hn
  simp only [FormatArray.declaration, Declaration.uses, List.map_map, List.mem_cons,
    List.mem_map] at hn
  rcases hn with rfl | ⟨c, -, rfl⟩
  · exact .inl (by decide)
  · exact .inl (isGiven_toString c.toNat)

/-- A function that sends uses the layout of its message type; all else is known. -/
theorem usesLayouts_sender {m : Message} (hm : m ∈ s.messages) :
    UsesLayouts s m.sender.declaration := by
  have huses : m.sender.declaration.uses =
      [(.type, "int"), (.type, "tbi_ctx_t"), (.type, "tbi"), (.type, m.layoutName),
        (.type, "value"), (.value, "return"), (.value, "tbi_telemetry_schedule"), (.value, "tbi"),
        (.value, m.ident), (.type, "void"), (.value, "value")] := rfl
  rw [UsesLayouts, huses]
  simp only [List.forall_mem_cons]
  refine ⟨?_, ?_, ?_, .inr ⟨m, hm, rfl⟩, ?_, ?_, ?_, ?_, .inl (.inr ⟨m, hm, rfl⟩), ?_, ?_, by simp⟩
  all_goals exact .inl (.inl (by decide))

/-- A row uses the layout and the array of its message type; all else is known. -/
theorem uses_row {m : Message} (hm : m ∈ s.messages) :
    ∀ n ∈ m.row.fields.flatMap (fun f => C.expressionUses f.2),
      Known s n ∨ n = (.type, m.layoutName) ∨ n = (.value, m.formatName) := by
  have huses : m.row.fields.flatMap (fun f => C.expressionUses f.2) =
      [(.value, m.ident), (.value, boolText m.bundle), (.type, m.layoutName),
        (.value, toString m.fields.length), (.value, m.formatName), (.value, "0"),
        (.value, "NULL")] := rfl
  have hbool (b : Bool) : IsGiven (.value, boolText b) := by cases b <;> decide
  rw [huses]
  simp only [List.forall_mem_cons]
  refine ⟨.inl (.inr ⟨m, hm, rfl⟩), .inl (.inl (hbool m.bundle)), .inr (.inl trivial),
    .inl (.inl (isGiven_toString _)), .inr (.inr trivial), ?_, ?_, by simp⟩
  all_goals exact .inl (.inl (by decide))

/-! ### The declarations in groups -/

/-- The enumeration of the message types. -/
def enumeration (s : Schema) : Declaration :=
  .enumeration (s.messages.map fun m => m.enumerator.constant) "msgspec_types_t"

/-- The declarations behind the enumeration that use known names only. -/
def knownDeclarations (s : Schema) : List Declaration :=
  [.constant "int" "msgspec_types_len" (toString s.header.enumerators.length),
    .constant "int" "msgspec_bundle_types_len" (toString s.header.bundled.length),
    .array "uint8_t" "msgspec_bundle_types" s.header.bundled]
    ++ s.messages.map fun m => m.layout.declaration

/-- The functions that send and the arrays of codes. -/
def layoutDeclarations (s : Schema) : List Declaration :=
  (s.messages.map fun m => m.sender.declaration)
    ++ s.messages.map fun m => m.formatArray.declaration

/-- The registration table. -/
def tableDeclaration (s : Schema) : Declaration :=
  .table "tbi_msg_ctx_t" "msgspec_ctxs" (s.messages.map fun m => m.row.fields)

/-- The constants behind the registration table. -/
def tableConstants (s : Schema) : List Declaration :=
  [.constant "int" "msgspec_ctxs_len" (toString s.header.rows.length),
    .constant "uint16_t" "msgspec_schema_csum" (hexWord s.header.checksum.toNat)]

/-- The function that registers the table. -/
def registration : Declaration :=
  .function "int" "tbi_register_msgspec" [.word "tbi_ctx_t", .mark '*', .word "tbi"] functionBody

theorem declarations_header (s : Schema) :
    s.header.declarations =
      enumeration s :: (knownDeclarations s ++ (layoutDeclarations s ++
        (tableDeclaration s :: (tableConstants s ++ [registration])))) := by
  simp [declarations, Schema.header, enumeration, knownDeclarations, layoutDeclarations,
    tableDeclaration,
    tableConstants, registration, Function.comp_def]

/-- All that a header declares, by what it stands for. -/
theorem introduces_header (s : Schema) :
    s.header.declarations.flatMap Declaration.introduces =
      s.messages.map (fun m => (Role.value, m.ident))
        ++ [(Role.type, "msgspec_types_t"), (Role.value, "msgspec_types_len"),
          (Role.value, "msgspec_bundle_types_len"), (Role.value, "msgspec_bundle_types")]
        ++ s.messages.map (fun m => (Role.type, m.layoutName))
        ++ s.messages.map (fun m => (Role.value, m.senderName))
        ++ s.messages.map (fun m => (Role.value, m.formatName))
        ++ [(Role.value, "msgspec_ctxs"), (Role.value, "msgspec_ctxs_len"),
          (Role.value, "msgspec_schema_csum"), (Role.value, "tbi_register_msgspec")] := by
  simp [declarations, Schema.header, Declaration.introduces, List.flatMap_map,
    Layout.declaration, Sender.declaration, FormatArray.declaration, Enumerator.constant,
    Message.enumerator, Message.layout, Message.sender, Message.formatArray, Function.comp_def,
    ← List.map_eq_flatMap]

/-- The enumeration refers to numerals only. -/
theorem uses_enumeration : ∀ n ∈ (enumeration s).uses, ∃ k : Nat, n = (.value, toString k) := by
  intro n hn
  simp only [enumeration, Declaration.uses, List.map_map, List.mem_map] at hn
  obtain ⟨m, -, rfl⟩ := hn
  exact ⟨m.id.toNat, rfl⟩

theorem usesKnown_enumeration : UsesKnown s (enumeration s) := by
  intro n hn
  obtain ⟨k, rfl⟩ := uses_enumeration n hn
  exact .inl (isGiven_toString k)

/-- The names of the table and of what follows it are fixed. -/
theorem introduces_table {n : Role × String}
    (h : ∃ x ∈ tableDeclaration s :: (tableConstants s ++ [registration]), n ∈ x.introduces) :
    n.1 = .value ∧ n.2 ∈ fixedNames := by
  obtain ⟨x, hx, hn⟩ := h
  simp only [tableConstants, List.mem_cons, List.mem_append, List.not_mem_nil, or_false] at hx
  rcases hx with rfl | (rfl | rfl) | rfl <;> rw [List.mem_singleton.mp hn] <;>
    exact ⟨rfl, by decide⟩

theorem makesUp_known : ∀ x ∈ knownDeclarations s, MakesUp x := by
  intro x hx n hn
  simp only [knownDeclarations, List.mem_append, List.mem_cons, List.not_mem_nil, or_false,
    List.mem_map] at hx
  rcases hx with (rfl | rfl | rfl) | ⟨m, -, rfl⟩ <;> rw [List.mem_singleton.mp hn]
  · decide
  · decide
  · decide
  · exact m.isMadeUp_layoutName

theorem makesUpValues_layout :
    ∀ x ∈ layoutDeclarations s ++ (tableDeclaration s :: (tableConstants s ++ [registration])),
      MakesUpValues x := by
  have hfixed : ∀ name ∈ fixedNames, IsMadeUp name := by decide
  intro x hx n hn
  rcases List.mem_append.mp hx with hx | hx
  · simp only [layoutDeclarations, List.mem_append, List.mem_map] at hx
    rcases hx with ⟨m, -, rfl⟩ | ⟨m, -, rfl⟩ <;> rw [List.mem_singleton.mp hn]
    · exact ⟨m.isMadeUp_senderName, rfl⟩
    · exact ⟨m.isMadeUp_formatName, rfl⟩
  · obtain ⟨hvalue, hname⟩ := introduces_table ⟨x, hx, hn⟩
    exact ⟨hfixed n.2 hname, hvalue⟩

theorem usesKnown_known : ∀ x ∈ knownDeclarations s, UsesKnown s x := by
  intro x hx
  simp only [knownDeclarations, List.mem_append, List.mem_cons, List.not_mem_nil, or_false,
    List.mem_map] at hx
  rcases hx with (rfl | rfl | rfl) | ⟨m, -, rfl⟩
  · exact usesKnown_constant (by decide) (isGiven_toString _)
  · exact usesKnown_constant (by decide) (isGiven_toString _)
  · exact usesKnown_bundled s
  · exact usesKnown_layout m

theorem usesLayouts_layout : ∀ x ∈ layoutDeclarations s, UsesLayouts s x := by
  intro x hx
  simp only [layoutDeclarations, List.mem_append, List.mem_map] at hx
  rcases hx with ⟨m, hm, rfl⟩ | ⟨m, -, rfl⟩
  · exact usesLayouts_sender hm
  · exact (usesKnown_formatArray m).usesLayouts

theorem usesKnown_tableConstants : ∀ x ∈ tableConstants s, UsesKnown s x := by
  intro x hx
  simp only [tableConstants, List.mem_cons, List.not_mem_nil, or_false] at hx
  rcases hx with rfl | rfl
  · exact usesKnown_constant (by decide) (isGiven_toString _)
  · exact usesKnown_constant (by decide) (isGiven_hexWord _)

/-- The table refers to layouts and arrays of codes; all else is known. -/
theorem uses_table : ∀ n ∈ (tableDeclaration s).uses,
    Known s n ∨ ∃ m ∈ s.messages, n = (.type, m.layoutName) ∨ n = (.value, m.formatName) := by
  intro n hn
  simp only [tableDeclaration, Declaration.uses, List.mem_cons,
    List.mem_flatMap (l := List.map _ _),
    List.mem_map] at hn
  rcases hn with rfl | ⟨_, ⟨m, hm, rfl⟩, hrow⟩
  · exact .inl (.inl (by decide))
  · exact (uses_row hm n hrow).imp_right fun h => ⟨m, hm, h⟩

/-- The function that registers the table refers to the table and its length; all else is given. -/
theorem uses_registration : ∀ n ∈ registration.uses,
    IsGiven n ∨ n = (.value, "msgspec_ctxs") ∨ n = (.value, "msgspec_ctxs_len") := by
  decide

end Header

namespace Schema

variable {s : Schema}

/-- The values in the enumeration are no constants. -/
theorem WellFormed.avoids_enumeration (h : s.WellFormed) :
    (Header.enumeration s).Avoids (Header.enumeration s) := by
  intro n hn hmem
  obtain ⟨k, rfl⟩ := Header.uses_enumeration n hn
  simp only [Header.enumeration, Declaration.introduces, List.map_map, List.mem_append,
    List.mem_map, List.mem_singleton] at hmem
  rcases hmem with ⟨m, hm, heq⟩ | heq
  · exact (h.messages.each m hm).ident_ne_toString k (Prod.mk.inj heq).2
  · cases (Prod.mk.inj heq).1

/-- The table refers to nothing that is declared with it or behind it. -/
theorem WellFormed.avoids_table (h : s.WellFormed) {y : Declaration}
    (hy : y ∈ Header.tableDeclaration s :: (Header.tableConstants s ++ [Header.registration])) :
    (Header.tableDeclaration s).Avoids y := by
  intro n hn hmem
  obtain ⟨hvalue, hname⟩ := Header.introduces_table ⟨y, hy, hmem⟩
  have hmadeUp : Header.IsMadeUp n.2 :=
    (Header.makesUpValues_layout y (List.mem_append_right _ hy) n hmem).1
  rcases Header.uses_table n hn with hknown | ⟨m, -, rfl | rfl⟩
  · exact hknown.not_isMadeUp h hmadeUp
  · cases hvalue
  · exact Message.ne_formatName hname rfl

/-- No declaration of a header refers to itself. -/
theorem WellFormed.avoids_self (h : s.WellFormed) :
    ∀ x ∈ s.header.declarations, x.Avoids x := by
  rw [Header.declarations_header]
  simp only [List.forall_mem_cons, List.forall_mem_append, List.not_mem_nil, false_implies,
    implies_true, and_true]
  have hvalues := Header.makesUpValues_layout (s := s)
  simp only [List.forall_mem_cons, List.forall_mem_append] at hvalues
  obtain ⟨hlayout, -, htable, -⟩ := hvalues
  refine ⟨h.avoids_enumeration, fun x hx => ?_, fun x hx => ?_, ?_, fun x hx => ?_, ?_⟩
  · exact (Header.usesKnown_known x hx).avoids h (Header.makesUp_known x hx)
  · exact (Header.usesLayouts_layout x hx).avoids h (hlayout x hx)
  · exact h.avoids_table List.mem_cons_self
  · exact (Header.usesKnown_tableConstants x hx).avoids h (htable x hx).makesUp
  · exact (by decide : ∀ n ∈ Header.registration.uses, n ∉ Header.registration.introduces)

/-- No declaration of a header refers to one behind it. -/
theorem WellFormed.avoids_later (h : s.WellFormed) :
    s.header.declarations.Pairwise Declaration.Avoids := by
  have hvalues := Header.makesUpValues_layout (s := s)
  have hmadeUp := List.forall_mem_append.mpr
    ⟨Header.makesUp_known (s := s), fun y hy => (hvalues y hy).makesUp⟩
  -- each group is set apart from itself and from all that is behind it
  have hknown := fun x hx y hy => (Header.usesKnown_known (s := s) x hx).avoids h (hmadeUp y hy)
  have hlayout := fun x hx y hy =>
    (Header.usesLayouts_layout (s := s) x hx).avoids h (hvalues y hy)
  have hconstants := fun x hx y hy =>
    (Header.usesKnown_tableConstants (s := s) x hx).avoids h (hvalues y hy).makesUp
  have hregistration : ∀ x ∈ Header.tableConstants s,
      ∀ y ∈ Header.tableConstants s ++ [Header.registration], x.Avoids y := fun x hx y hy =>
    hconstants x hx y (List.mem_append_right _ (List.mem_cons_of_mem _ hy))
  rw [Header.declarations_header]
  refine List.pairwise_cons.mpr
    ⟨fun y hy => Header.usesKnown_enumeration.avoids h (hmadeUp y hy), ?_⟩
  refine List.pairwise_append.mpr ⟨?_, List.pairwise_append.mpr ⟨?_, List.pairwise_cons.mpr
    ⟨fun y hy => h.avoids_table (List.mem_cons_of_mem _ hy), List.pairwise_append.mpr
      ⟨?_, List.pairwise_singleton _ _, ?_⟩⟩, ?_⟩, ?_⟩
  · exact List.pairwise_of_forall_mem_list fun x hx y hy =>
      hknown x hx y (List.mem_append_left _ hy)
  · exact List.pairwise_of_forall_mem_list fun x hx y hy =>
      hlayout x hx y (List.mem_append_left _ hy)
  · exact List.pairwise_of_forall_mem_list fun x hx y hy =>
      hregistration x hx y (List.mem_append_left _ hy)
  · exact fun x hx y hy => hregistration x hx y (List.mem_append_right _ hy)
  · exact fun x hx y hy => hlayout x hx y (List.mem_append_right _ hy)
  · exact fun x hx y hy => hknown x hx y (List.mem_append_right _ hy)

/-- The names of a message type that a header refers to are declared. -/
theorem mem_introduces {m : Message} (hm : m ∈ s.messages) :
    (Role.value, m.ident) ∈ s.header.declarations.flatMap Declaration.introduces ∧
      (Role.type, m.layoutName) ∈ s.header.declarations.flatMap Declaration.introduces ∧
      (Role.value, m.formatName) ∈ s.header.declarations.flatMap Declaration.introduces := by
  simp only [Header.introduces_header, List.mem_append, List.mem_map]
  refine ⟨?_, ?_, ?_⟩
  · exact .inl (.inl (.inl (.inl (.inl ⟨m, hm, rfl⟩))))
  · exact .inl (.inl (.inl (.inr ⟨m, hm, rfl⟩)))
  · exact .inl (.inr ⟨m, hm, rfl⟩)

/-- Every name that a header refers to is given or declared. -/
theorem given_or_declared (s : Schema) : ∀ x ∈ s.header.declarations, ∀ n ∈ x.uses,
    Header.IsGiven n ∨ n ∈ s.header.declarations.flatMap Declaration.introduces := by
  have hmem := fun m hm => mem_introduces (s := s) (m := m) hm
  have htable : ∀ name ∈ ["msgspec_ctxs", "msgspec_ctxs_len"],
      (Role.value, name) ∈ s.header.declarations.flatMap Declaration.introduces := by
    simp [Header.introduces_header]
  generalize s.header.declarations.flatMap Declaration.introduces = declared at *
  have hknown (n) (h : Header.Known s n) : Header.IsGiven n ∨ n ∈ declared := by
    refine h.imp_right ?_
    rintro ⟨m, hm, rfl⟩
    exact (hmem m hm).1
  rw [Header.declarations_header]
  simp only [List.forall_mem_cons, List.forall_mem_append, List.not_mem_nil, false_implies,
    implies_true, and_true]
  refine ⟨fun n hn => ?_, fun x hx n hn => ?_, fun x hx n hn => ?_, fun n hn => ?_,
    fun x hx n hn => ?_, fun n hn => ?_⟩
  · exact hknown n (Header.usesKnown_enumeration n hn)
  · exact hknown n (Header.usesKnown_known x hx n hn)
  · rcases Header.usesLayouts_layout x hx n hn with h | ⟨m, hm, rfl⟩
    · exact hknown n h
    · exact .inr (hmem m hm).2.1
  · rcases Header.uses_table n hn with h | ⟨m, hm, rfl | rfl⟩
    · exact hknown n h
    · exact .inr (hmem m hm).2.1
    · exact .inr (hmem m hm).2.2
  · exact hknown n (Header.usesKnown_tableConstants x hx n hn)
  · rcases Header.uses_registration n hn with h | rfl | rfl
    · exact .inl h
    · exact .inr (htable _ (by decide))
    · exact .inr (htable _ (by decide))

/-- In the header of a well-formed schema everything is declared in front of its uses. -/
theorem WellFormed.declaredBeforeUse_items (h : s.WellFormed) :
    C.DeclaredBeforeUse Header.IsGiven s.header.items := by
  apply C.declaredBeforeUse_of_pairwise
  all_goals rw [Header.declarations_items]
  · exact s.given_or_declared
  · exact h.avoids_self
  · exact h.avoids_later

end Schema

end Telemetry
