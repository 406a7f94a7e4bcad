import Telemetry.Document.Reader
import Telemetry.Proofs.Json.Values

/-!
# Documents as written

Whatever way a document is spelled, its message types are read as they were written: all of them, in
their order, repeated names as often as they occur (`Document.read?_of_spells`). What a definition
leaves out is filled in, members that mean nothing here are passed over. Only a definition that
gives its id, its bundle flag or its fields twice is refused.

A definition is taken apart into its members (`Part`), and a document that is read is one that has
been taken in part by part (`Draft.take`), which no longer speaks of bytes.
-/

namespace Telemetry

open Json

/-! ### Members of definitions -/

/-- The keys of the members of a definition that have a meaning. -/
def Definition.keys : List String := ["id", "bundle", "data_types"]

/-- A member of a definition, as written. -/
inductive Part where
  | id (x : Option Int)
  | bundle (b : Bool)
  | fields (fs : List (String × Value))
  | other (key : String) (h : key ∉ Definition.keys)

namespace Part

/-- The key of a member. -/
def key : Part → String
  | id _ => "id"
  | bundle _ => "bundle"
  | fields _ => "data_types"
  | other key _ => key

/-- The id that a member gives. -/
def id? : Part → Option (Option Number)
  | id x => some (x.map .integer)
  | _ => none

/-- The bundle flag that a member gives. -/
def bundle? : Part → Option Bool
  | bundle b => some b
  | _ => none

/-- The fields that a member gives. -/
def fields? : Part → Option (List (String × Value))
  | fields fs => some fs
  | _ => none

/-- Spellings of the value of a member. Type codes have brackets nested to a depth, the values of
members without a meaning to any. -/
def Spells (depth : Nat) : Part → Bytes → Prop
  | id none, s => s = ascii "null"
  | id (some n), s => SpellsInteger n s
  | bundle b, s => SpellsBool b s
  | fields fs, s => Membered (fun f => Member (SpellsString f.1) (Json.Spells depth f.2)) fs s
  | other _ _, s => ∃ depth, IsJson depth s

end Part

/-- Something given once, or left out and filled in. -/
inductive Gives {α : Type} (default : α) : List α → α → Prop where
  | absent : Gives default [] default
  | once (x : α) : Gives default [x] x

/-- The members that a definition can be written with, in any order. -/
structure Describes (parts : List Part) (d : Definition) : Prop where
  id : Gives none (parts.filterMap Part.id?) d.id
  bundle : Gives false (parts.filterMap Part.bundle?) d.bundle
  fields : Gives [] (parts.filterMap Part.fields?) d.fields

/-- Whether a definition repeats a member. -/
def Repeats (parts : List Part) (key : String) : Prop := 2 ≤ (parts.map Part.key).count key

instance (parts : List Part) (key : String) : Decidable (Repeats parts key) :=
  inferInstanceAs (Decidable (2 ≤ _))

namespace Document

/-- Spellings of a document with the given members in its definitions. -/
def Writes (depth : Nat) (written : List (String × List Part)) (s : Bytes) : Prop :=
  Padded (Membered (fun w => Member (SpellsString w.1)
    (Membered (fun p => Member (SpellsString p.key) (p.Spells depth)) w.2)) written) s

/-- Spellings of a document. -/
def Spells (depth : Nat) (d : Document) (s : Bytes) : Prop :=
  ∃ written, Writes depth written s ∧
    List.Forall₂ (fun w e => w.1 = e.1 ∧ Describes w.2 e.2) written d

end Document

/-! ### Definitions, part by part -/

/-- Fills a place that must be free. -/
def put {α : Type} (key : String) (place : Option α) (x : α) : Except Cause α :=
  match place with
  | some _ => .error (.repeatedMember key)
  | none => .ok x

/-- Takes a member into what is known of a definition. -/
def Draft.take (x : Draft) (p : Part) : Except Cause Draft :=
  match p with
  | .id n => (put p.key x.id (n.map .integer)).map fun id => { x with id := some id }
  | .bundle b => (put p.key x.bundle b).map fun bundle => { x with bundle := some bundle }
  | .fields fs => (put p.key x.fields fs).map fun fields => { x with fields := some fields }
  | .other _ _ => .ok x

/-- What comes of taking in members that give these ids, bundle flags and fields. -/
inductive Taken (ids : List (Option Number)) (bundles : List Bool)
    (fields : List (List (String × Value))) : Except Cause Draft → Prop where
  | all : ids.length ≤ 1 → bundles.length ≤ 1 → fields.length ≤ 1 →
    Taken ids bundles fields (.ok ⟨ids.head?, bundles.head?, fields.head?⟩)
  | id : 2 ≤ ids.length → Taken ids bundles fields (.error (.repeatedMember "id"))
  | bundle : 2 ≤ bundles.length → Taken ids bundles fields (.error (.repeatedMember "bundle"))
  | fields : 2 ≤ fields.length → Taken ids bundles fields (.error (.repeatedMember "data_types"))

/-- Members are taken in unless one is given again. -/
theorem taken_foldlM (parts : List Part) (x : Draft) :
    Taken (x.id.toList ++ parts.filterMap Part.id?)
      (x.bundle.toList ++ parts.filterMap Part.bundle?)
      (x.fields.toList ++ parts.filterMap Part.fields?) (parts.foldlM Draft.take x) := by
  induction parts generalizing x with
  | nil =>
    obtain ⟨id, bundle, fields⟩ := x
    cases id <;> cases bundle <;> cases fields <;> exact .all (by simp) (by simp) (by simp)
  | cons p parts ih =>
    obtain ⟨id, bundle, fields⟩ := x
    rw [List.foldlM_cons]
    cases p with
    | id n =>
      cases id with
      | none => exact ih ⟨some (n.map .integer), bundle, fields⟩
      | some _ => exact .id (by simp [Part.id?])
    | bundle b =>
      cases bundle with
      | none => exact ih ⟨id, some b, fields⟩
      | some _ => exact .bundle (by simp [Part.bundle?])
    | fields fs =>
      cases fields with
      | none => exact ih ⟨id, bundle, some fs⟩
      | some _ => exact .fields (by simp [Part.fields?])
    | other key h => exact ih ⟨id, bundle, fields⟩

theorem taken_foldlM_empty (parts : List Part) :
    Taken (parts.filterMap Part.id?) (parts.filterMap Part.bundle?)
      (parts.filterMap Part.fields?) (parts.foldlM Draft.take .empty) :=
  taken_foldlM parts .empty

/-- Members with the three keys are those that give something. -/
theorem count_key (parts : List Part) :
    (parts.map Part.key).count "id" = (parts.filterMap Part.id?).length ∧
    (parts.map Part.key).count "bundle" = (parts.filterMap Part.bundle?).length ∧
    (parts.map Part.key).count "data_types" = (parts.filterMap Part.fields?).length := by
  induction parts with
  | nil => exact ⟨rfl, rfl, rfl⟩
  | cons p parts ih =>
    obtain ⟨hid, hbundle, hfields⟩ := ih
    cases p with
    | other key h =>
      simp only [Definition.keys, List.mem_cons, List.not_mem_nil, or_false, not_or] at h
      simp [Part.key, List.filterMap_cons, Part.id?, Part.bundle?, Part.fields?, h, hid, hbundle,
        hfields]
    | _ =>
      simp [Part.key, List.filterMap_cons, Part.id?, Part.bundle?, Part.fields?, hid, hbundle,
        hfields]

theorem Gives.head? {α : Type} {default x : α} {xs : List α} (h : Gives default xs x) :
    xs.length ≤ 1 ∧ xs.head?.getD default = x := by
  cases h <;> exact ⟨by simp, rfl⟩

/-- What the members of a definition come to. -/
def Definition.ofParts (parts : List Part) : Except Cause Definition :=
  (parts.foldlM Draft.take .empty).map Draft.definition

/-- A definition is what its members describe. -/
theorem Describes.ofParts_eq {parts : List Part} {d : Definition} (h : Describes parts d) :
    Definition.ofParts parts = .ok d := by
  have htaken := taken_foldlM_empty parts
  obtain ⟨hids, hid⟩ := h.id.head?
  obtain ⟨hbundles, hbundle⟩ := h.bundle.head?
  obtain ⟨hmany, hfields⟩ := h.fields.head?
  rw [Definition.ofParts]
  generalize parts.foldlM Draft.take .empty = outcome at htaken ⊢
  cases htaken with
  | all _ _ _ =>
    rw [Except.map, Draft.definition, hid, hbundle, hfields]
  | id h => omega
  | bundle h => omega
  | fields h => omega

/-- A definition is refused if it repeats a member, and for one that it repeats. -/
theorem Definition.ofParts_cases (parts : List Part) :
    (∃ d, ofParts parts = .ok d ∧ ∀ key ∈ keys, ¬Repeats parts key) ∨
      ∃ key ∈ keys, Repeats parts key ∧ ofParts parts = .error (.repeatedMember key) := by
  have htaken := taken_foldlM_empty parts
  obtain ⟨hid, hbundle, hfields⟩ := count_key parts
  unfold Repeats ofParts
  generalize parts.foldlM Draft.take .empty = outcome at htaken ⊢
  cases htaken with
  | all hids hbundles hmany =>
    refine .inl ⟨_, rfl, fun key hkey => ?_⟩
    simp only [keys, List.mem_cons, List.not_mem_nil, or_false] at hkey
    obtain rfl | rfl | rfl := hkey <;> omega
  | id h => exact .inr ⟨"id", by decide, by omega, rfl⟩
  | bundle h => exact .inr ⟨"bundle", by decide, by omega, rfl⟩
  | fields h => exact .inr ⟨"data_types", by decide, by omega, rfl⟩

/-- Where a definition repeats a member, the first that does so is refused. -/
theorem exists_mapM_eq_error {written : List (String × List Part)}
    (h : ∃ w ∈ written, ∃ key ∈ Definition.keys, Repeats w.2 key) :
    ∃ w ∈ written, ∃ key ∈ Definition.keys, Repeats w.2 key ∧
      (written.mapM fun w => (Definition.ofParts w.2).map (w.1, ·)) =
        .error (.repeatedMember key) := by
  induction written with
  | nil =>
    obtain ⟨w, hw, -⟩ := h
    cases hw
  | cons w written ih =>
    rw [List.mapM_cons]
    obtain ⟨d, hd, hdistinct⟩ | ⟨key, hkey, hrepeats, herror⟩ := Definition.ofParts_cases w.2
    · obtain ⟨w', hw', key, hkey, hrepeats⟩ := h
      obtain rfl | hw' := List.mem_cons.mp hw'
      · exact absurd hrepeats (hdistinct key hkey)
      · obtain ⟨w', hw', key, hkey, hrepeats, herror⟩ := ih ⟨w', hw', key, hkey, hrepeats⟩
        refine ⟨w', List.mem_cons_of_mem w hw', key, hkey, hrepeats, ?_⟩
        rw [hd, herror]
        rfl
    · refine ⟨w, List.mem_cons_self, key, hkey, hrepeats, ?_⟩
      rw [herror]
      rfl

/-- Where definitions are described, they are all accepted. -/
theorem mapM_eq_ok {written : List (String × List Part)} {d : Document}
    (h : List.Forall₂ (fun w e => w.1 = e.1 ∧ Describes w.2 e.2) written d) :
    (written.mapM fun w => (Definition.ofParts w.2).map (w.1, ·)) = .ok d := by
  induction h with
  | nil => rfl
  | @cons w e written d he _ ih =>
    obtain ⟨hname, hdescribes⟩ := he
    rw [List.mapM_cons, hdescribes.ofParts_eq, ih, hname]
    rfl

/-! ### Readers of members -/

section Readers

variable {a b s rest : Bytes}

theorem readId_of_spells {depth : Nat} {x : Option Int} (h : (Part.id x).Spells depth s)
    (hb : Blank b) (hrest : Follows rest) :
    readId (b ++ (s ++ rest)) = .ok (x.map .integer, rest) := by
  cases x with
  | none =>
    cases h
    rw [readId, readFound_of_spells .null hb hrest]
    rfl
  | some n =>
    rw [readId, readFound_of_spells (.number h) hb hrest]
    rfl

theorem readBundle_of_spells {x : Bool} (h : SpellsBool x s) (hb : Blank b)
    (hrest : Follows rest) : readBundle (b ++ (s ++ rest)) = .ok (x, rest) := by
  rw [readBundle, readFound_of_spells (.boolean h) hb hrest]
  rfl

/-- An object is read member by member behind blanks. -/
theorem readOrdered_yields {α β : Type} {P : α → Bytes → Prop} {xs : List α} (value : Scan β)
    {key : α → String} (f : α → Except Cause β)
    (hvalue : ∀ x b s rest, Blank b → P x s → Follows rest →
      Yields (f x) (value (b ++ (s ++ rest))) rest)
    (h : Membered (fun x => Member (SpellsString (key x)) (P x)) xs s) (hb : Blank b)
    (rest : Bytes) :
    Yields (xs.mapM fun x => (f x).map (key x, ·)) (readOrdered value (b ++ (s ++ rest))) rest := by
  obtain ⟨t, rfl, hread⟩ := readMembers_yields value f hvalue h
  rw [readOrdered, List.cons_append, readFound_object hb]
  exact hread rest

/-- Fields are read in their order, those with equal names too. -/
theorem readFields_of_spells {depth : Nat} {fs : List (String × Value)} (hdepth : depth ≤ codeDepth)
    (h : (Part.fields fs).Spells depth s) (hb : Blank b) (rest : Bytes) :
    readFields (b ++ (s ++ rest)) = .ok (fs, rest) := by
  have hread := readOrdered_yields (readValue codeDepth) (fun f : String × Value => .ok f.2)
    (fun f b s rest hb hf hrest => readValue_of_spells hdepth hf hb hrest) h hb rest
  rwa [mapM_map_ok] at hread

/-- A value is read into a place if that is free. -/
theorem readInto_yields {α : Type} (key : String) (place : Option α) {value : Scan α} {x : α}
    (ha : Blank a) (h : value s = .ok (x, rest)) :
    Yields (put key place x) (Draft.readInto key place value (a ++ Byte.colon :: s)) rest := by
  cases place with
  | some _ => exact ⟨_, rfl, rfl⟩
  | none =>
    rw [Draft.readInto, readColon_append ha]
    exact h

/-- A member of a definition is read behind its key. -/
theorem readMember_yields {depth : Nat} (hdepth : depth ≤ codeDepth) (x : Draft) (p : Part)
    (ha : Blank a) (hb : Blank b) (h : p.Spells depth s) (hrest : Follows rest) :
    Yields (x.take p) (x.readMember p.key (a ++ Byte.colon :: (b ++ (s ++ rest)))) rest := by
  cases p with
  | id n =>
    exact (readInto_yields "id" x.id ha (readId_of_spells h hb hrest)).bind _ fun _ => rfl
  | bundle flag =>
    exact (readInto_yields "bundle" x.bundle ha (readBundle_of_spells h hb hrest)).bind _
      fun _ => rfl
  | fields fs =>
    exact (readInto_yields "data_types" x.fields ha
      (readFields_of_spells hdepth h hb rest)).bind _ fun _ => rfl
  | other key hkey =>
    obtain ⟨d, hjson⟩ := h
    simp only [Definition.keys, List.mem_cons, List.not_mem_nil, or_false, not_or] at hkey
    obtain ⟨hid, hbundle, hfields⟩ := hkey
    have hskip := skipValue_of_isJson hjson hb hrest
    show x.readMember key _ = .ok (x, rest)
    rw [Draft.readMember, if_neg hid, if_neg hbundle, if_neg hfields, readColon_append ha]
    simp only [bind, Except.bind, hskip]

/-- A definition is read member by member. -/
theorem readDefinition_yields {depth : Nat} (hdepth : depth ≤ codeDepth) {parts : List Part}
    (h : Membered (fun p => Member (SpellsString p.key) (p.Spells depth)) parts s) (hb : Blank b)
    (rest : Bytes) :
    Yields (Definition.ofParts parts) (readDefinition (b ++ (s ++ rest))) rest := by
  obtain ⟨t, rfl, hread⟩ := foldMembers_yields Draft.take Draft.readMember
    (fun x p a b s rest ha hb hp hrest => readMember_yields hdepth x p ha hb hp hrest) h .empty
  obtain ⟨b', hb', hyields⟩ := hread rest
  rw [readDefinition, List.cons_append, readFound_object hb]
  exact hyields.bind Draft.definition fun x => by
    simp only [readEnd_objectEnd hb' rest]
    rfl

/-- A whole document is read or refused as what stands in it, with blanks behind it. -/
theorem readWhole_of_yields {α : Type} {value : Scan α} {outcome : Except Cause α}
    (h : Yields outcome (value s) b) (hb : Blank b) :
    (∀ x, outcome = .ok x → readWhole value s = .ok x) ∧
      ∀ cause, outcome = .error cause → ∃ e, readWhole value s = .error e ∧ e.cause = cause := by
  constructor
  · rintro x rfl
    have hend : skipBlanks b = [] := by rw [← List.append_nil b, skipBlanks_append hb]; rfl
    simp only [readWhole, show value s = .ok (x, b) from h, bind, Except.bind, hend]
    rfl
  · rintro cause rfl
    obtain ⟨fault, hfault, rfl⟩ := h
    exact ⟨fault.locate s, by simp only [readWhole, hfault]; rfl, rfl⟩

end Readers

namespace Document

/-- A document is read or refused as its definitions, one by one. -/
theorem read?_of_writes {depth : Nat} (hdepth : depth ≤ codeDepth)
    {written : List (String × List Part)} {s : Bytes} (h : Writes depth written s) :
    let outcome := written.mapM fun w => (Definition.ofParts w.2).map (w.1, ·)
    (∀ d, outcome = .ok d → read? s = .ok d) ∧
      ∀ cause, outcome = .error cause → ∃ e, read? s = .error e ∧ e.cause = cause := by
  cases h with
  | @blanks a t b ha ht hb =>
    have hyields := readOrdered_yields readDefinition
      (fun w : String × List Part => Definition.ofParts w.2)
      (fun w b s rest hb hw hrest => readDefinition_yields hdepth hw hb rest) ht ha b
    exact readWhole_of_yields hyields hb

/-- Every spelling of a document is read back as the document, its message types and their fields in
the order written and none left out. A document with a definition that repeats its id, its bundle
flag or its fields is refused for such a repetition. -/
theorem read?_of_spells {depth : Nat} (hdepth : depth ≤ codeDepth) :
    (∀ d s, Spells depth d s → read? s = .ok d) ∧
      ∀ written s, Writes depth written s →
        (∃ w ∈ written, ∃ key ∈ Definition.keys, Repeats w.2 key) →
          ∃ w ∈ written, ∃ key ∈ Definition.keys, Repeats w.2 key ∧
            ∃ e, read? s = .error e ∧ e.cause = .repeatedMember key := by
  constructor
  · rintro d s ⟨written, hwritten, hdescribes⟩
    exact (read?_of_writes hdepth hwritten).1 d (mapM_eq_ok hdescribes)
  · rintro written s hwritten hrepeats
    obtain ⟨w, hw, key, hkey, hrepeats, herror⟩ := exists_mapM_eq_error hrepeats
    exact ⟨w, hw, key, hkey, hrepeats, (read?_of_writes hdepth hwritten).2 _ herror⟩

/-- An escaped name, a member without a meaning, a field named twice and a blank; and an id given
twice. -/
theorem read?_of_spells_temp :
    let d : Document := [("temp", ⟨some (.integer 7), false,
      [("t", .number (.integer 2)), ("t", .null)]⟩)]
    let s := ascii
      "\x7b\"t\\u0065mp\":\x7b\"x\":[0],\"data_types\":\x7b\"t\":2 ,\"t\":null\x7d,\"id\":7\x7d\x7d"
    let t := ascii "\x7b\"a\":\x7b\"id\":1,\"id\":2\x7d\x7d"
    Spells 120 d s ∧ read? s = .ok d ∧
      ∃ key ∈ Definition.keys, ∃ e, read? t = .error e ∧ e.cause = .repeatedMember key := by
  intro d s t
  have hplain (c : Char) (h : 0x20 ≤ c.toNat ∧ c ≠ '"' ∧ c ≠ '\\') :
      SpellsChar c (Text.Utf8.encodeChar c) := .plain h.1 h.2.1 h.2.2
  have hdigits : SpellsHex 'e'.toNat (ascii "0065") :=
    .digits (.lower (d := 0) (by decide)) (.lower (d := 0) (by decide))
      (.lower (d := 6) (by decide)) (.lower (d := 5) (by decide))
  have hname : SpellsChars "temp".toList _ :=
    .cons (hplain 't' (by decide)) (.cons (.number hdigits)
      (.cons (hplain 'm' (by decide)) (.cons (hplain 'p' (by decide)) .nil)))
  have hkey (key : String) (h : ∀ c ∈ key.toList, 0x20 ≤ c.toNat ∧ c ≠ '"' ∧ c ≠ '\\') :=
    spellsString_encode h
  have hinteger (n : Nat) (hn : n < 10) : SpellsInteger n (ascii (toString n)) :=
    ⟨by omega, by omega, rfl⟩
  -- the members of the definitions
  have hlist : IsJson 1 (ascii "[0]") := by
    have hzero : IsJson 0 [Byte.zero] :=
      .inr (.inl (@IsNumber.parts [] [Byte.zero] [] [] (by decide) .zero .none .none))
    have hitems : Listed (fun _ : Unit => IsJson 0) [()] _ := .items (.one (.self hzero))
    rw [IsJson]
    exact .inr (.inr (.inr (.inl ⟨[()], hitems⟩)))
  have hother : Member (SpellsString "x") ((Part.other "x" (by decide)).Spells 120) _ :=
    .colon (hkey "x" (by simp)) .nil .nil ⟨1, hlist⟩
  have htwo : Json.Spells 120 (.number (.integer 2)) (ascii "2") :=
    .of_value? rfl (.number (hinteger 2 (by simp)))
  have hnull : Json.Spells 120 .null (ascii "null") := .of_value? rfl .null
  have hfields : Member (SpellsString "data_types")
      ((Part.fields [("t", .number (.integer 2)), ("t", .null)]).Spells 120) _ :=
    .colon (hkey "data_types" (by simp)) .nil .nil (.items (.more
      (.blanks .nil (.colon (hkey "t" (by simp)) .nil .nil htwo)
        (show Blank [Byte.space] by simp [Blank]))
      (.one (.self (.colon (hkey "t" (by simp)) .nil .nil hnull)))))
  have hid (n : Nat) (hn : n < 10) :
      Member (SpellsString "id") ((Part.id (some n)).Spells 120) _ :=
    .colon (hkey "id" (by simp)) .nil .nil (hinteger n hn)
  -- the two documents
  have hfirst : Writes 120 [("temp", [.other "x" (by decide),
      .fields [("t", .number (.integer 2)), ("t", .null)], .id (some 7)])] _ :=
    .self (.items (.one (.self (.colon (.quoted hname) .nil .nil (.items
      (.more (.self hother) (.more (.self hfields) (.one (.self (hid 7 (by simp)))))))))))
  have hsecond : Writes 120 [("a", [.id (some 1), .id (some 2)])] _ :=
    .self (.items (.one (.self (.colon (hkey "a" (by simp)) .nil .nil (.items
      (.more (.self (hid 1 (by simp))) (.one (.self (hid 2 (by simp))))))))))
  have hs : Spells 120 d s := by
    refine ⟨_, Eq.mp (congrArg _ ?_) hfirst, .cons ⟨rfl, ?_⟩ .nil⟩
    · decide +kernel
    · exact ⟨.once _, .absent, .once _⟩
  have ht : Writes 120 [("a", [.id (some 1), .id (some 2)])] t := by
    refine Eq.mp (congrArg _ ?_) hsecond
    decide +kernel
  refine ⟨hs, (read?_of_spells (by decide)).1 d s hs, ?_⟩
  obtain ⟨_, -, key, hkey, -, he⟩ := (read?_of_spells (by decide)).2 _ t ht
    ⟨_, List.mem_cons_self, "id", by decide, by decide⟩
  exact ⟨key, hkey, he⟩

end Document

end Telemetry
