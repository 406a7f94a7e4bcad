import Telemetry.Document.Reader
import Telemetry.Proofs.Json.Unique
import Telemetry.Schema.Reader

/-!
# The shape of documents

What is read as a document is an object, and its bytes determine the values of its members
(`HasValues`). A value is read as a definition only if it is an object or a list of one to three
items; anything else in the place of one makes the document malformed (`values_of_load?`).

That lists are taken at all is wider than definitions were meant to be, as the last theorem shows.
-/

namespace Telemetry

open Json

variable {b s t r : Bytes}

/-! ### Objects and lists -/

/-- An object, whatever its members. -/
def IsObject (s : Bytes) : Prop :=
  ∃ members : List Unit, Membered (fun _ => Member IsString IsValue) members s

/-- A list of so many items, whatever they are. -/
def HasItems (n : Nat) (s : Bytes) : Prop :=
  ∃ items : List Unit, items.length = n ∧ Listed (fun _ => IsValue) items s

/-- A value that a definition can be read from. -/
def IsDefinition (s : Bytes) : Prop := IsObject s ∨ ∃ n, 1 ≤ n ∧ n ≤ 3 ∧ HasItems n s

namespace Document

/-- The values of the members of an object that is a whole text, in the order written. -/
def HasValues (values : List Bytes) (s : Bytes) : Prop :=
  Padded (Membered (fun v => Member IsString (IsThe v)) values) s

/-- A text is an object in one way only. -/
theorem HasValues.unique {values others : List Bytes} (h : HasValues values s)
    (h' : HasValues others s) : values = others := by
  have hskip {values : List Bytes} {t : Bytes}
      (ht : Membered (fun v => Member IsString (IsThe v)) values t) (r : Bytes) :
      skipBlanks (t ++ r) = t ++ r :=
    ((ht.begins (by decide)).append r).skipBlanks .nil
  unfold HasValues at h
  generalize hs : s = u at h'
  obtain ⟨ha, ht, -⟩ := h
  obtain ⟨hb, ht', -⟩ := h'
  exact (values_inj ht ht' (ha.append_inj hb (hskip ht _) (hskip ht' _) hs)).1

end Document

theorem IsObject.isValue (h : IsObject s) : IsValue s := by
  obtain ⟨members, h⟩ := h
  refine ⟨s.length + 1, isJson_of_membered (h.imp_of_length (n := s.length) ?_ (by omega))⟩
  rintro _ t ht ⟨hk, ha, hb, _, hv⟩
  simp only [List.length_append, List.length_cons] at ht
  exact .colon hk ha hb (hv.of_length_le (by omega))

theorem HasItems.isValue {n : Nat} (h : HasItems n s) : IsValue s := by
  obtain ⟨items, -, h⟩ := h
  refine ⟨s.length + 1, isJson_of_listed (h.imp_of_length (n := s.length) ?_ (by omega))⟩
  rintro _ t ht ⟨_, hv⟩
  exact hv.of_length_le ht

theorem IsDefinition.isValue (h : IsDefinition s) : IsValue s := by
  obtain h | ⟨n, -, -, h⟩ := h
  · exact h.isValue
  · exact h.isValue

theorem IsObject.head? (h : IsObject s) : s.head? = some Byte.openObject := by
  obtain ⟨members, h⟩ := h
  cases h <;> rfl

theorem HasItems.head? {n : Nat} (h : HasItems n s) : s.head? = some Byte.openList := by
  obtain ⟨items, -, h⟩ := h
  cases h <;> rfl

/-- Objects are no lists. -/
theorem IsObject.not_hasItems (h : IsObject s) (n : Nat) : ¬HasItems n s := by
  intro hitems
  have hhead := h.head?.symm.trans hitems.head?
  exact absurd (Option.some.inj hhead) (by decide)

/-! ### Definitions that are read -/

theorem readId_eq_ok_iff {x : Option Number} :
    readId s = .ok (x, r) ↔ (x = none ∧ readFound (skipBlanks s) = .ok (.null, r)) ∨
      ∃ n, x = some n ∧ readFound (skipBlanks s) = .ok (.number n, r) := by
  refine bind_eq_ok_iff.trans ⟨?_, ?_⟩
  · rintro ⟨⟨found, u⟩, hfound, h⟩
    cases found <;> cases h
    · exact .inl ⟨rfl, hfound⟩
    · exact .inr ⟨_, rfl, hfound⟩
  · rintro (⟨rfl, hfound⟩ | ⟨n, rfl, hfound⟩)
    · exact ⟨_, hfound, rfl⟩
    · exact ⟨_, hfound, rfl⟩

theorem readBundle_eq_ok_iff {x : Bool} :
    readBundle s = .ok (x, r) ↔ readFound (skipBlanks s) = .ok (.boolean x, r) := by
  refine bind_eq_ok_iff.trans ⟨?_, fun hfound => ⟨_, hfound, rfl⟩⟩
  rintro ⟨⟨found, u⟩, hfound, h⟩
  cases found <;> cases h
  exact hfound

/-- An object is read behind its opening bracket. -/
theorem readOrdered_eq_ok_iff {α : Type} {value : Scan α} {ms : List (String × α)} :
    readOrdered value s = .ok (ms, r) ↔
      ∃ t, skipBlanks s = Byte.openObject :: t ∧ readMembers value t = .ok (ms, r) := by
  refine bind_eq_ok_iff.trans ⟨?_, ?_⟩
  · rintro ⟨⟨found, u⟩, hfound, h⟩
    obtain ⟨y, hvalue, -⟩ | ⟨rfl, -⟩ | ⟨rfl, rfl, t, hs⟩ := readFound_cases hfound
    · cases found <;> first | cases h | cases hvalue
    · cases h
    · dsimp only at h
      rw [hs, List.drop_one, List.tail_cons] at h
      exact ⟨t, hs, h⟩
  · rintro ⟨t, hs, h⟩
    exact ⟨(.object, Byte.openObject :: t), by rw [hs]; rfl, h⟩

/-- So is a definition, which may be a list as well. -/
theorem readDefinition_eq_ok_iff {x : Definition} :
    readDefinition s = .ok (x, r) ↔
      (∃ t, skipBlanks s = Byte.openObject :: t ∧ readObjectDefinition t = .ok (x, r)) ∨
        ∃ t, skipBlanks s = Byte.openList :: t ∧ readListDefinition t = .ok (x, r) := by
  refine bind_eq_ok_iff.trans ⟨?_, ?_⟩
  · rintro ⟨⟨found, u⟩, hfound, h⟩
    obtain ⟨y, hvalue, -⟩ | ⟨rfl, rfl, t, hs⟩ | ⟨rfl, rfl, t, hs⟩ := readFound_cases hfound
    · cases found <;> first | cases h | cases hvalue
    · dsimp only at h
      rw [hs, List.drop_one, List.tail_cons] at h
      exact .inr ⟨t, hs, h⟩
    · dsimp only at h
      rw [hs, List.drop_one, List.tail_cons] at h
      exact .inl ⟨t, hs, h⟩
  · rintro (⟨t, hs, h⟩ | ⟨t, hs, h⟩)
    · exact ⟨(.object, Byte.openObject :: t), by rw [hs]; rfl, h⟩
    · exact ⟨(.list, Byte.openList :: t), by rw [hs]; rfl, h⟩

/-- What is found is a value, unless it is a bracket. -/
theorem between_of_readFound {found : Found} {x : Value} (hvalue : found.value? = some x)
    (h : readFound (skipBlanks s) = .ok (found, r)) : Between (Padded IsValue) s r := by
  obtain ⟨y, -, hu⟩ | ⟨rfl, -⟩ | ⟨rfl, -⟩ := readFound_cases h
  · exact .of_skipBlanks (hu.imp fun _ ht => ⟨0, ht.isJson 0⟩)
  · cases hvalue
  · cases hvalue

theorem between_of_readId {x : Option Number} (h : readId s = .ok (x, r)) :
    Between (Padded IsValue) s r := by
  obtain ⟨-, hfound⟩ | ⟨n, -, hfound⟩ := readId_eq_ok_iff.mp h
  · exact between_of_readFound rfl hfound
  · exact between_of_readFound rfl hfound

theorem between_of_readBundle {x : Bool} (h : readBundle s = .ok (x, r)) :
    Between (Padded IsValue) s r :=
  between_of_readFound rfl (readBundle_eq_ok_iff.mp h)

/-- An object that is read is one, with blanks in front of it. -/
theorem between_of_readOrdered {α β : Type} {P : α → Bytes → Prop} {value : Scan β}
    {ms : List (String × β)}
    (hvalue : ∀ s x r, value s = .ok (x, r) → ∃ a, Between (Padded (P a)) s r)
    (h : readOrdered value s = .ok (ms, r)) :
    ∃ xs, Between (Padded (Membered (fun a => Member IsString (P a)) xs)) s r := by
  obtain ⟨t, hs, h⟩ := readOrdered_eq_ok_iff.mp h
  obtain ⟨xs, hxs⟩ := between_of_readMembers hvalue h
  exact ⟨xs, hxs.of_opening hs⟩

theorem between_of_readFields {fs : List (String × Value)} (h : readFields s = .ok (fs, r)) :
    Between (Padded IsValue) s r := by
  obtain ⟨xs, hxs⟩ := between_of_readOrdered (P := fun _ : Unit => IsValue)
    (fun s x r h => ⟨(), (between_of_readValue h).imp fun _ ht => ht.imp fun _ ht => ⟨_, ht⟩⟩) h
  exact hxs.imp fun _ ht => ht.imp fun _ ht => IsObject.isValue ⟨xs, ht⟩

/-- A member of a definition that is read has a colon in front of its value. -/
theorem between_of_readMember {x y : Draft} {key : String} (h : x.readMember key s = .ok (y, r)) :
    ∃ b u, Blank b ∧ s = b ++ Byte.colon :: u ∧ Between (Padded IsValue) u r := by
  have hinto {α : Type} {place : Option α} {value : Scan α} {z : α} {r : Bytes}
      (hvalue : ∀ s x r, value s = .ok (x, r) → Between (Padded IsValue) s r)
      (h : Draft.readInto key place value s = .ok (z, r)) :
      ∃ b u, Blank b ∧ s = b ++ Byte.colon :: u ∧ Between (Padded IsValue) u r := by
    cases place with
    | some _ => cases h
    | none =>
      obtain ⟨u, hcolon, hread⟩ := bind_eq_ok_iff.mp h
      obtain ⟨b, hb, rfl⟩ := exists_of_readColon hcolon
      exact ⟨b, u, hb, rfl, hvalue u z r hread⟩
  unfold Draft.readMember at h
  split at h
  · obtain ⟨⟨z, r⟩, hread, h⟩ := bind_eq_ok_iff.mp h
    cases h
    exact hinto (fun _ _ _ h => between_of_readId h) hread
  · split at h
    · obtain ⟨⟨z, r⟩, hread, h⟩ := bind_eq_ok_iff.mp h
      cases h
      exact hinto (fun _ _ _ h => between_of_readBundle h) hread
    · split at h
      · obtain ⟨⟨z, r⟩, hread, h⟩ := bind_eq_ok_iff.mp h
        cases h
        exact hinto (fun _ _ _ h => between_of_readFields h) hread
      · obtain ⟨u, hcolon, h⟩ := bind_eq_ok_iff.mp h
        obtain ⟨r, hskip, h⟩ := bind_eq_ok_iff.mp h
        cases h
        obtain ⟨b, hb, rfl⟩ := exists_of_readColon hcolon
        exact ⟨b, u, hb, rfl, between_of_skipValue hskip⟩

theorem between_of_readObjectDefinition {x : Definition}
    (h : readObjectDefinition s = .ok (x, r)) :
    Between (fun t => IsObject (Byte.openObject :: t)) s r := by
  obtain ⟨⟨y, u⟩, hfold, h⟩ := bind_eq_ok_iff.mp h
  obtain ⟨v, hend, h⟩ := bind_eq_ok_iff.mp h
  cases h
  obtain ⟨xs, hxs⟩ := between_of_foldMembers (P := fun _ : Unit => IsValue)
    (fun x key s y r h => by
      obtain ⟨b, u, hb, hs, hu⟩ := between_of_readMember h
      exact ⟨b, u, (), hb, hs, hu⟩) hfold hend
  exact hxs.imp fun _ ht => ⟨xs, ht⟩

/-- An item that may be left out is there, or the list ends in front of it. -/
theorem remaining_of_readItemOr {α : Type} {default x : α} {item : Scan α} {n : Nat}
    (hitem : ∀ s x r, item s = .ok (x, r) → Between (Padded IsValue) s r)
    (h : readItemOr default item s = .ok (x, r)) {items : List Unit}
    (hr : Remaining Byte.closeList (fun _ => IsValue) t false items r)
    (hn : items.length ≤ n) :
    ∃ items : List Unit, items.length ≤ n + 1 ∧
      Remaining Byte.closeList (fun _ => IsValue) t false items s := by
  obtain ⟨next, hnext, h⟩ := bind_eq_ok_iff.mp h
  cases next with
  | none =>
    cases h
    exact ⟨items, by omega, hr⟩
  | some u =>
    obtain ⟨lead, hlead, rfl⟩ := of_nextItem_eq_some hnext
    obtain ⟨p, hp, rfl⟩ := hitem u x r h
    exact ⟨() :: items, by simpa using hn, .item hlead hp hr⟩

theorem between_of_readListDefinition {x : Definition} (h : readListDefinition s = .ok (x, r)) :
    Between (fun t => ∃ n, 1 ≤ n ∧ n ≤ 3 ∧ HasItems n (Byte.openList :: t)) s r := by
  obtain ⟨next, hnext, h⟩ := bind_eq_ok_iff.mp h
  cases next with
  | none => cases h
  | some s =>
    obtain ⟨lead, hlead, rfl⟩ := of_nextItem_eq_some hnext
    obtain ⟨⟨id, u⟩, hid, h⟩ := bind_eq_ok_iff.mp h
    obtain ⟨⟨bundle, v⟩, hbundle, h⟩ := bind_eq_ok_iff.mp h
    obtain ⟨⟨fields, w⟩, hfields, h⟩ := bind_eq_ok_iff.mp h
    obtain ⟨r, hend, h⟩ := bind_eq_ok_iff.mp h
    cases h
    have hdone : Remaining Byte.closeList (fun _ : Unit => IsValue) r false [] w :=
      .done (skipBlanks_of_readEnd_listEnd hend)
    obtain ⟨items, hn, hv⟩ :=
      remaining_of_readItemOr (fun _ _ _ h => between_of_readFields h) hfields hdone (Nat.le_refl 0)
    obtain ⟨items, hn, hu⟩ :=
      remaining_of_readItemOr (fun _ _ _ h => between_of_readBundle h) hbundle hv hn
    obtain ⟨p, hp, rfl⟩ := between_of_readId hid
    have hall : Remaining Byte.closeList (fun _ : Unit => IsValue) r true (() :: items) _ :=
      .item hlead hp hu
    exact (hall.enclosed Byte.openList).imp fun _ ht =>
      ⟨items.length + 1, by omega, by omega, () :: items, rfl, ht⟩

/-- What is read as a definition is an object or a short list. -/
theorem between_of_readDefinition {x : Definition} (h : readDefinition s = .ok (x, r)) :
    Between (Padded IsDefinition) s r := by
  obtain ⟨t, hs, h⟩ | ⟨t, hs, h⟩ := readDefinition_eq_ok_iff.mp h
  · exact ((between_of_readObjectDefinition h).imp fun _ ht => .inl ht).of_opening hs
  · exact ((between_of_readListDefinition h).imp fun _ ht => .inr ht).of_opening hs

/-! ### Documents that are read -/

/-- A document that is read is an object, of whose members each has a definition for its value. -/
theorem Document.hasValues_of_read? {d : Document} (h : read? s = .ok d) :
    ∃ values, HasValues values s ∧ ∀ v ∈ values, IsDefinition v := by
  have hdefinition (s : Bytes) (x : Definition) (r : Bytes) (h : readDefinition s = .ok (x, r)) :
      ∃ v, Between (Padded fun t => IsThe v t ∧ IsDefinition v) s r := by
    obtain ⟨_, ⟨ha, ht, hb⟩, rfl⟩ := between_of_readDefinition h
    exact ⟨_, _, .blanks ha ⟨⟨rfl, ht.isValue⟩, ht⟩ hb, rfl⟩
  obtain ⟨r, hread, hr⟩ := readWhole_eq_ok_iff.mp h
  obtain ⟨values, t, ht, rfl⟩ := between_of_readOrdered hdefinition hread
  refine ⟨values, (ht.imp fun u hu => ?_).append_blank hr, fun v hv => ?_⟩
  · exact hu.imp_of_length (n := u.length)
      (fun _ _ _ ⟨hk, ha, hb, hv⟩ => .colon hk ha hb hv.1) (by omega)
  · obtain ⟨-, hu, -⟩ := ht
    obtain ⟨_, -, -, -, hv⟩ := hu.forall_mem v hv
    exact hv.2

namespace Schema

/-- Every text is malformed, or it is an object of which each member has an object or a list of one
to three items for its value. So strings, numbers, truth values and null are refused in the place of
a definition, and the values of a text that is accepted are all objects unless one is a list. -/
theorem values_of_load? (bytes : Bytes) :
    ((∃ e, load? bytes = .error (.malformed memoryPath e)) ∨
      ∃! values, Document.HasValues values bytes) ∧
      ∀ values, Document.HasValues values bytes →
        ((∃ v ∈ values, ¬IsObject v ∧ ∀ n, 1 ≤ n → n ≤ 3 → ¬HasItems n v) →
          ∃ e, load? bytes = .error (.malformed memoryPath e)) ∧
          ∀ s, load? bytes = .ok s →
            ((∀ v ∈ values, IsObject v) ↔ ∀ v ∈ values, ∀ n, ¬HasItems n v) := by
  have hread : (∃ e, load? bytes = .error (.malformed memoryPath e)) ∨
      ∃ values, Document.HasValues values bytes ∧ ∀ v ∈ values, IsDefinition v := by
    unfold load? ofBytes?
    cases h : Document.read? bytes with
    | error e => exact .inl ⟨e, rfl⟩
    | ok d => exact .inr (Document.hasValues_of_read? h)
  refine ⟨hread.imp_right fun ⟨values, h, _⟩ => ⟨values, h, fun _ h' => h'.unique h⟩,
    fun values h => ⟨?_, fun s hs => ?_⟩⟩
  · rintro ⟨v, hv, hobject, hitems⟩
    refine hread.resolve_right ?_
    rintro ⟨others, h', hall⟩
    obtain hv | ⟨n, hlow, hhigh, hn⟩ := hall v (h.unique h' ▸ hv)
    · exact hobject hv
    · exact hitems n hlow hhigh hn
  · constructor
    · exact fun hall v hv n => (hall v hv).not_hasItems n
    · intro hnone v hv
      obtain ⟨e, herror⟩ | ⟨others, h', hall⟩ := hread
      · rw [hs] at herror
        cases herror
      · exact (hall v (h.unique h' ▸ hv)).resolve_right fun ⟨n, _, _, hn⟩ => hnone v hv n hn

/-- The object with one member, under the key `"a"`. -/
theorem hasValues_a {v : Bytes} (hv : IsValue v) :
    Document.HasValues [v] (ascii "\x7b\"a\":" ++ (v ++ ascii "\x7d")) := by
  have hkey : IsString (ascii "\"a\"") := @IsString.parts [ascii "a"] fun p hp => by
    rw [List.mem_singleton.mp hp]
    exact .plain (by decide) (by decide) (by decide)
  have hmembers : Membered (fun v => Member IsString (IsThe v)) [v] _ :=
    .items (.one (.self (.colon hkey .nil .nil ⟨rfl, hv⟩)))
  have hshape : ascii "\x7b\"a\":" = Byte.openObject :: (ascii "\"a\"" ++ [Byte.colon]) := by
    decide +kernel
  have hwhole : Document.HasValues [v] _ := .self hmembers
  rw [hshape]
  simpa [show ascii "\x7d" = [Byte.closeObject] by decide +kernel] using hwhole

/-- The number `1`, and the list of it. -/
theorem isValue_one : IsValue (ascii "1") ∧ HasItems 1 (ascii "[1]") := by
  have hwhole : IsWhole (ascii "1") :=
    .digits ⟨by decide, by decide +kernel⟩ (by decide +kernel)
  have hone : IsValue (ascii "1") :=
    ⟨0, .inr (.inl (@IsNumber.parts [] _ [] [] (by decide) hwhole .none .none))⟩
  have hlist : Listed (fun _ : Unit => IsValue) [()] _ := .items (.one (.self hone))
  exact ⟨hone, [()], rfl, hlist⟩

/-- A member with a number for its value, and one with a list of it. -/
theorem values_of_load?_one :
    let s := ascii "\x7b\"a\":1\x7d"
    let t := ascii "\x7b\"a\":[1]\x7d"
    Document.HasValues [ascii "1"] s ∧ (∃ e, load? s = .error (.malformed memoryPath e)) ∧
      Document.HasValues [ascii "[1]"] t ∧
        ∃ x, load? t = .ok x ∧ ¬∀ v ∈ [ascii "[1]"], IsObject v := by
  intro s t
  obtain ⟨hone, hlist⟩ := isValue_one
  have hs : Document.HasValues [ascii "1"] s := hasValues_a hone
  have ht : Document.HasValues [ascii "[1]"] t := hasValues_a hlist.isValue
  have hload : load? t = .ok ⟨[⟨"a", "A", 1, false, []⟩]⟩ := by decide +kernel
  refine ⟨hs, ((values_of_load? s).2 _ hs).1 ⟨_, List.mem_singleton_self _, fun h => ?_,
    fun n _ _ h => ?_⟩, ht, _, hload, fun hall => ?_⟩
  · exact absurd h.head? (by decide +kernel)
  · exact absurd h.head? (by decide +kernel)
  · exact (((values_of_load? t).2 _ ht).2 _ hload).mp hall _ (List.mem_singleton_self _) 1 hlist

/-- Not only objects are taken for definitions: `[1]` is one, too. -/
theorem not_isObject_of_load? :
    ¬∀ bytes s values, load? bytes = .ok s → Document.HasValues values bytes →
      ∀ v ∈ values, IsObject v := by
  intro h
  have hload : load? (ascii "\x7b\"a\":[1]\x7d") = .ok ⟨[⟨"a", "A", 1, false, []⟩]⟩ := by
    decide +kernel
  have hobject := h _ _ _ hload (hasValues_a isValue_one.2.isValue) _ (List.mem_singleton_self _)
  exact hobject.not_hasItems 1 isValue_one.2

end Schema

end Telemetry
