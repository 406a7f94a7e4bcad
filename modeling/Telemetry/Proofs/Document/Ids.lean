import Telemetry.Proofs.Document.Shape
import Telemetry.Proofs.Document.Spelling
import Telemetry.Proofs.Json.Literals

/-!
# Ids in their places

What is read in front of an id and behind it does not depend on the id. If a text is a document with
one number in the place of an id, it is the same document but for that id with any other number, or
malformed if the number is out of range (`Document.read?_of_upToId`).

In front of the place a reader takes the same way whatever follows (`UpTo`). Behind it two readers
that start with different ids stay alike (`Alike`), as the loops over members do not look at what
they have read but for whether there is an id.
-/

namespace Telemetry

namespace Json

variable {a b s t rest : Bytes} {closing : UInt8}

/-! ### In front of a member -/

/-- Items in front of another one between brackets, with a comma behind each. -/
inductive Preceding {α : Type} (P : α → Bytes → Prop) : List α → Bytes → Prop where
  | nil : Preceding P [] []
  | cons {x : α} {xs : List α} {s t : Bytes} :
    Padded (P x) s → Preceding P xs t → Preceding P (x :: xs) (s ++ Byte.comma :: t)

/-- An object up to the value of a member, behind other members. -/
inductive UpTo {α : Type} (P : α → Bytes → Prop) (xs : List α) (key : String) : Bytes → Prop where
  | colon {s b k a c : Bytes} : Preceding P xs s → Blank b → SpellsString key k → Blank a →
    Blank c → UpTo P xs key (Byte.openObject :: (s ++ (b ++ (k ++ (a ++ Byte.colon :: c)))))

section Loops

variable {σ α : Type} {Begins : Bytes → Prop} {item : σ → Bytes → Except Fault (σ × Bytes)}
  {loop : Bool → σ → Bytes → Except Fault (σ × Bytes)} {P : α → Bytes → Prop}
  {step : σ → α → Except Cause σ} {xs : List α}

/-- A loop takes the items in front of others, or stops at one of them. -/
theorem IsLoop.yields_preceding (h : IsLoop closing Begins item loop)
    (hbegins : ∀ x s, P x s → s ≠ [] ∧ ∀ r, Begins (s ++ r))
    (hitem : ∀ y x s rest, P x s → Follows rest → Yields (step y x) (item y (s ++ rest)) rest)
    (hs : Preceding P xs s) {first : Bool} {lead : Bytes} (hlead : Lead first lead) (y : σ)
    (rest : Bytes) :
    match xs.foldlM step y with
    | .ok z => ∃ first' lead', Lead first' lead' ∧
      loop first y (lead ++ (s ++ rest)) = loop first' z (lead' ++ rest)
    | .error _ => ∃ fault, loop first y (lead ++ (s ++ rest)) = .error fault := by
  induction hs generalizing first lead y with
  | nil => exact ⟨first, lead, hlead, rfl⟩
  | @cons x xs s t hx _ ih =>
    obtain ⟨b, hb, hstep⟩ := h.yields_one hbegins hitem hx hlead y
      (follows_cons (c := Byte.comma) (by decide) (t ++ rest))
    rw [List.foldlM_cons, List.append_assoc, List.cons_append]
    cases hz : step y x with
    | error cause =>
      rw [hz] at hstep
      obtain ⟨fault, hfault, -⟩ := hstep
      exact ⟨fault, hfault⟩
    | ok z =>
      rw [hz] at hstep
      have hnext := ih (lead_comma hb) z
      rw [List.append_assoc, List.singleton_append] at hnext
      rwa [← hstep] at hnext

/-- Behind items that are taken, a loop takes the next one. -/
theorem IsLoop.eq_of_preceding (h : IsLoop closing Begins item loop)
    (hbegins : ∀ x s, P x s → s ≠ [] ∧ ∀ r, Begins (s ++ r))
    (hitem : ∀ y x s rest, P x s → Follows rest → Yields (step y x) (item y (s ++ rest)) rest)
    (hs : Preceding P xs s) (hb : Blank b) {y z : σ} (hz : xs.foldlM step y = .ok z)
    (ht : Begins t) (hlength : ∀ u r, item z t = .ok (u, r) → r.length < t.length) :
    loop true y (s ++ (b ++ t)) = (do
      let (u, r) ← item z t
      loop false u r) := by
  have hreach := h.yields_preceding hbegins hitem hs (show Lead true [] from Blank.nil) y (b ++ t)
  rw [hz] at hreach
  obtain ⟨first, lead, hlead, hloop⟩ := hreach
  rw [List.nil_append, ← List.append_assoc lead] at hloop
  rw [hloop]
  cases hread : item z t with
  | error e => exact h.fault first z (lead ++ b) t e (hlead.append hb) ht hread
  | ok p =>
    exact h.next first z (lead ++ b) t p.1 p.2 (hlead.append hb) ht hread (hlength _ _ hread)

end Loops

/-- Up to the value of a member, the members of an object are taken one by one. If they are not
refused, the member is taken and the loop goes on behind it. -/
theorem foldMembers_of_upTo {σ α : Type} {P : α → Bytes → Prop} {xs : List α}
    (step : σ → α → Except Cause σ) (member : σ → String → Bytes → Except Fault (σ × Bytes))
    {key : α → String}
    (hmember : ∀ y x a b s rest, Blank a → Blank b → P x s → Follows rest →
      Yields (step y x) (member y (key x) (a ++ Byte.colon :: (b ++ (s ++ rest)))) rest)
    (hlength : ∀ y k s z r, member y k s = .ok (z, r) → r.length ≤ s.length) {k : String}
    (hs : UpTo (fun x => Member (SpellsString (key x)) (P x)) xs k s) (y : σ) :
    ∃ t, s = Byte.openObject :: t ∧
      match xs.foldlM step y with
      | .ok z => ∃ a c, Blank a ∧ Blank c ∧ ∀ u, foldMembers member true y (t ++ u) = (do
          let (x, r) ← member z k (a ++ Byte.colon :: (c ++ u))
          foldMembers member false x r)
      | .error _ => ∀ u, ∃ fault, foldMembers member true y (t ++ u) = .error fault := by
  have hbegins (x : α) (s : Bytes) (hx : Member (SpellsString (key x)) (P x) s) :=
    begins_member hx
  have hitem (y : σ) (x : α) (s rest : Bytes) (hx : Member (SpellsString (key x)) (P x) s)
      (hrest : Follows rest) : Yields (step y x) (keyThen member y (s ++ rest)) rest :=
    keyThen_yields (fun a b s ha hb hs => hmember y x a b s rest ha hb hs hrest) hx
  cases hs with
  | @colon s b text a c hs hb hk ha hc =>
    refine ⟨_, rfl, ?_⟩
    cases hz : xs.foldlM step y with
    | error cause =>
      intro u
      have hreach := (isLoop_foldMembers member).yields_preceding hbegins hitem hs
        (show Lead true [] from Blank.nil) y (b ++ (text ++ (a ++ Byte.colon :: c)) ++ u)
      rw [hz] at hreach
      simpa using hreach
    | ok z =>
      refine ⟨a, c, ha, hc, fun u => ?_⟩
      have hthen := keyThen_of_spells member hk z (a ++ Byte.colon :: (c ++ u))
      obtain ⟨v, rfl, -⟩ := readString_of_spells hk []
      have heq := (isLoop_foldMembers member).eq_of_preceding hbegins hitem hs hb hz
        (t := Byte.quote :: v ++ (a ++ Byte.colon :: (c ++ u))) ⟨_, rfl⟩ fun x r hread => by
          rw [hthen] at hread
          have hle := hlength z k _ x r hread
          rw [List.length_append, List.length_cons]
          omega
      rw [hthen] at heq
      rw [← heq]
      simp

/-! ### Behind a member -/

/-- Two readings that go the same way: to the same fault, or to related results in front of the same
bytes. -/
inductive Alike {σ τ : Type} (R : σ → τ → Prop) :
    Except Fault (σ × Bytes) → Except Fault (τ × Bytes) → Prop where
  | ok {x : σ} {y : τ} {r : Bytes} : R x y → Alike R (.ok (x, r)) (.ok (y, r))
  | error {e : Fault} : Alike R (.error e) (.error e)

section Alike

variable {σ τ σ' τ' : Type} {R : σ → τ → Prop} {S : σ' → τ' → Prop}

theorem Alike.bind {f : Except Fault (σ × Bytes)} {g : Except Fault (τ × Bytes)}
    {k : σ × Bytes → Except Fault (σ' × Bytes)} {l : τ × Bytes → Except Fault (τ' × Bytes)}
    (h : Alike R f g) (hkl : ∀ x y r, R x y → Alike S (k (x, r)) (l (y, r))) :
    Alike S (f >>= k) (g >>= l) := by
  cases h with
  | ok hxy => exact hkl _ _ _ hxy
  | error => exact .error

/-- What does not depend on what has been read comes to the same. -/
theorem Alike.read {α : Type} (f : Except Fault α)
    {k : α → Except Fault (σ × Bytes)} {l : α → Except Fault (τ × Bytes)}
    (h : ∀ x, Alike R (k x) (l x)) : Alike R (f >>= k) (f >>= l) := by
  cases f with
  | ok x => exact h x
  | error e => exact .error

/-- Loops over members stay alike if their members do. -/
theorem alike_foldMembers {member : σ → String → Bytes → Except Fault (σ × Bytes)}
    {member' : τ → String → Bytes → Except Fault (τ × Bytes)}
    (h : ∀ x y key s, R x y → Alike R (member x key s) (member' y key s)) (first : Bool) {x : σ}
    {y : τ} (hxy : R x y) (s : Bytes) :
    Alike R (foldMembers member first x s) (foldMembers member' first y s) := by
  induction hn : s.length using Nat.strongRecOn generalizing first x y s with
  | _ n ih =>
    rw [foldMembers, foldMembers]
    split
    · exact .error
    · exact .ok hxy
    · next key t _ =>
      have hone := h x y key t hxy
      generalize member x key t = f, member' y key t = g at hone
      cases hone with
      | error => exact .error
      | @ok x' y' r hxy' =>
        dsimp only
        split
        · next hlt => exact ih r.length (hn ▸ hlt) false hxy' r rfl
        · exact .error

end Alike

end Json

open Json

variable {s rest w : Bytes}

/-! ### Documents with a place for an id -/

/-- The text of a document up to the id of an entry, with so many entries in front of that. -/
inductive Document.UpToId (n : Nat) : Bytes → Prop where
  | entry {written : List (String × List Part)} {name : String} {parts : List Part}
    {a t u : Bytes} : written.length = n → Blank a →
    UpTo (fun w => Member (SpellsString w.1)
      (Membered (fun p => Member (SpellsString p.key) (p.Spells codeDepth)) w.2)) written name t →
    UpTo (fun p => Member (SpellsString p.key) (p.Spells codeDepth)) parts "id" u →
      UpToId n (a ++ (t ++ u))

/-- Reads an entry of a document behind its name. -/
def Document.readEntry (entries : Document) (name : String) (s : Bytes) :
    Except Fault (Document × Bytes) := do
  let s ← readColon s
  let (x, s) ← readDefinition s
  .ok ((name, x) :: entries, s)

/-- Reads the rest of a document behind an id, given the entries in front, which are in reverse
order, and what has been read of the definition. -/
def Document.resume (entries : Document) (name : String) (x : Draft) (id : Option Number)
    (s : Bytes) : Except Fault (Document × Bytes) := do
  let (x, s) ← foldMembers Draft.readMember false { x with id := some id } s
  let s ← readEnd (objectEnd s)
  let (entries, s) ← foldMembers readEntry false ((name, x.definition) :: entries) s
  let s ← readEnd (objectEnd s)
  .ok (entries.reverse, s)

theorem length_le_of_readMember {x y : Draft} {key : String} {r : Bytes}
    (h : x.readMember key s = .ok (y, r)) : r.length ≤ s.length := by
  obtain ⟨b, u, -, rfl, t, -, rfl⟩ := between_of_readMember h
  simp only [List.length_append, List.length_cons]
  omega

theorem length_le_of_readEntry {d e : Document} {name : String} {r : Bytes}
    (h : d.readEntry name s = .ok (e, r)) : r.length ≤ s.length := by
  obtain ⟨u, hcolon, h⟩ := bind_eq_ok_iff.mp h
  obtain ⟨⟨x, r⟩, hread, h⟩ := bind_eq_ok_iff.mp h
  cases h
  obtain ⟨b, -, rfl⟩ := exists_of_readColon hcolon
  obtain ⟨t, -, rfl⟩ := between_of_readDefinition hread
  simp only [List.length_append, List.length_cons]
  omega

theorem readEntry_append (entries : Document) (name : String) {b : Bytes} (hb : Blank b)
    (s : Bytes) : entries.readEntry name (b ++ Byte.colon :: s) =
      (readDefinition s).map fun p => ((name, p.1) :: entries, p.2) := by
  rw [Document.readEntry, readColon_append hb]
  cases h : readDefinition s <;> simp [h, bind, Except.bind, Except.map]

/-- An id is read unless there is one already. -/
theorem readMember_id (x : Draft) {a : Bytes} (ha : Blank a) (s : Bytes) :
    x.readMember "id" (a ++ Byte.colon :: s) =
      match x.id with
      | some _ => .error (faultOfObject (.repeatedMember "id") (a ++ Byte.colon :: s))
      | none => (readId s).map fun p => ({ x with id := some p.1 }, p.2) := by
  rw [Draft.readMember, if_pos rfl]
  cases x.id with
  | some _ => rfl
  | none =>
    rw [Draft.readInto, readColon_append ha]
    cases h : readId s <;> simp [h, bind, Except.bind, Except.map]

/-- A definition is read up to its id and behind it, unless it is refused in front of the id. -/
theorem readDefinition_of_upTo {parts : List Part}
    (h : UpTo (fun p => Member (SpellsString p.key) (p.Spells codeDepth)) parts "id" s) :
    (∃ (x : Draft) (c : Bytes), Blank c ∧ ∀ b u, Blank b → readDefinition (b ++ (s ++ u)) = (do
      let (id, r) ← readId (c ++ u)
      let (y, r) ← foldMembers Draft.readMember false { x with id := some id } r
      let r ← readEnd (objectEnd r)
      .ok (y.definition, r))) ∨
    ∀ b u, Blank b → ∃ e, readDefinition (b ++ (s ++ u)) = .error e := by
  obtain ⟨t, rfl, hfold⟩ := foldMembers_of_upTo Draft.take Draft.readMember
    (fun x p a b s rest ha hb hp hrest => readMember_yields (Nat.le_refl _) x p ha hb hp hrest)
    (fun x k s y r hread => length_le_of_readMember hread) h .empty
  have hread {b : Bytes} (hb : Blank b) (u : Bytes) :
      readDefinition (b ++ (Byte.openObject :: t ++ u)) = readObjectDefinition (t ++ u) := by
    rw [readDefinition, List.cons_append, readFound_object hb]
    rfl
  cases hx : parts.foldlM Draft.take .empty with
  | error cause =>
    rw [hx] at hfold
    refine .inr fun b u hb => ?_
    obtain ⟨fault, hfault⟩ := hfold u
    exact ⟨fault, by rw [hread hb, readObjectDefinition, hfault]; rfl⟩
  | ok x =>
    rw [hx] at hfold
    obtain ⟨a, c, ha, hc, hfold⟩ := hfold
    have hmember (u : Bytes) := readMember_id x ha (c ++ u)
    cases hid : x.id with
    | some id =>
      rw [hid] at hmember
      refine .inr fun b u hb =>
        ⟨faultOfObject (.repeatedMember "id") (a ++ Byte.colon :: (c ++ u)), ?_⟩
      rw [hread hb, readObjectDefinition, hfold, hmember]
      rfl
    | none =>
      rw [hid] at hmember
      refine .inl ⟨x, c, hc, fun b u hb => ?_⟩
      rw [hread hb, readObjectDefinition, hfold, hmember]
      cases readId (c ++ u) <;> rfl

/-- As many things are put in front of a list as there are. -/
theorem length_of_foldlM_cons {α β γ : Type} {f : α → Except Cause β} {g : α → β → γ} {l : List α}
    {zs : List γ} (h : l.foldlM (fun ys x => (f x).map fun y => g x y :: ys) [] = .ok zs) :
    zs.length = l.length := by
  suffices hall : ∀ ys, l.foldlM (fun ys x => (f x).map fun y => g x y :: ys) ys = .ok zs →
      zs.length = l.length + ys.length from hall [] h
  clear h
  induction l with
  | nil =>
    intro ys h
    cases h
    simp
  | cons x l ih =>
    intro ys h
    rw [List.foldlM_cons] at h
    obtain ⟨us, hus, h⟩ := bind_eq_ok_iff.mp h
    cases hx : f x with
    | error cause =>
      rw [hx] at hus
      cases hus
    | ok y =>
      rw [hx] at hus
      cases hus
      rw [ih _ h, List.length_cons, List.length_cons]
      omega

/-- A document is read up to an id and behind it, unless it is refused in front of the id. -/
theorem Document.readOrdered_of_upToId {n : Nat} (h : UpToId n s) :
    (∃ entries name x c, entries.length = n ∧ Blank c ∧
      ∀ u, readOrdered readDefinition (s ++ u) = (do
        let (id, r) ← readId (c ++ u)
        resume entries name x id r)) ∨
    ∀ u, ∃ e, readOrdered readDefinition (s ++ u) = .error e := by
  cases h with
  | @entry written name parts a t v hlength ha ht hv =>
    obtain ⟨t, rfl, hfold⟩ := foldMembers_of_upTo
      (fun (entries : Document) w => (Definition.ofParts w.2).map fun x => (w.1, x) :: entries)
      readEntry (fun entries w a b s rest ha hb hw _ => by
        rw [readEntry, readColon_append ha]
        exact (readDefinition_yields (Nat.le_refl _) hw hb rest).bind _ fun _ => rfl)
      (fun entries k s y r hread => length_le_of_readEntry hread) ht []
    have hread (u : Bytes) : readOrdered readDefinition (a ++ (Byte.openObject :: t ++ v) ++ u) =
        readMembers readDefinition (t ++ (v ++ u)) := by
      rw [List.append_assoc, List.append_assoc, readOrdered, List.cons_append,
        readFound_object ha]
      rfl
    have hmembers (u : Bytes) : readMembers readDefinition u = (do
        let (entries, r) ← foldMembers readEntry true [] u
        let r ← readEnd (objectEnd r)
        .ok (entries.reverse, r)) := rfl
    have hdefinition := readDefinition_of_upTo hv
    cases hentries : written.foldlM (fun (entries : Document) w =>
        (Definition.ofParts w.2).map fun x => (w.1, x) :: entries) [] with
    | error cause =>
      rw [hentries] at hfold
      refine .inr fun u => ?_
      obtain ⟨fault, hfault⟩ := hfold (v ++ u)
      exact ⟨fault, by rw [hread, hmembers, hfault]; rfl⟩
    | ok entries =>
      rw [hentries] at hfold
      obtain ⟨b, c, hb, hc, hfold⟩ := hfold
      have hentry (u : Bytes) := readEntry_append entries name hb (c ++ (v ++ u))
      obtain ⟨x, c', hc', hdefinition⟩ | hdefinition := hdefinition
      · refine .inl ⟨entries, name, x, c', hlength ▸ length_of_foldlM_cons hentries, hc',
          fun u => ?_⟩
        rw [hread, hmembers, hfold, hentry, hdefinition c u hc]
        cases readId (c' ++ u) with
        | error e => rfl
        | ok p =>
          obtain ⟨id, r⟩ := p
          simp only [resume, bind, Except.bind]
          cases foldMembers Draft.readMember false { x with id := some id } r with
          | error e => rfl
          | ok p =>
            dsimp only
            cases readEnd (objectEnd p.2) <;> rfl
      · refine .inr fun u => ?_
        obtain ⟨e, he⟩ := hdefinition c u hc
        exact ⟨e, by rw [hread, hmembers, hfold, hentry, he]; rfl⟩

/-! ### Documents with another id -/

/-- Documents that differ in the id of one entry, which has so many in front of it. -/
def Document.DifferInId (n : Nat) (id id' : Option Number) (d d' : Document) : Prop :=
  ∃ (earlier : Document) (name : String) (x : Definition) (later : Document), earlier.length = n ∧
    d = earlier ++ (name, { x with id := id }) :: later ∧
      d' = earlier ++ (name, { x with id := id' }) :: later

/-- Behind an id a member of a definition is read in the same way whatever the id is. -/
theorem alike_readMember {id id' : Option Number} {x y : Draft}
    (hxy : x.id = some id ∧ y = { x with id := some id' }) (key : String) (s : Bytes) :
    Alike (fun x y : Draft => x.id = some id ∧ y = { x with id := some id' })
      (x.readMember key s) (y.readMember key s) := by
  obtain ⟨hid, rfl⟩ := hxy
  unfold Draft.readMember
  split
  · rw [hid]
    exact .error
  · split
    · exact .read _ fun _ => .ok ⟨hid, rfl⟩
    · split
      · exact .read _ fun _ => .ok ⟨hid, rfl⟩
      · exact .read _ fun _ => .read _ fun _ => .ok ⟨hid, rfl⟩

/-- So is the rest of a document. -/
theorem Document.alike_resume (entries : Document) (name : String) (x : Draft)
    (id id' : Option Number) (s : Bytes) :
    Alike (DifferInId entries.length id id') (resume entries name x id s)
      (resume entries name x id' s) := by
  -- the entries so far, in reverse order
  let R (d d' : Document) : Prop := ∃ (x : Definition) (later : Document),
    d = later ++ (name, { x with id := id }) :: entries ∧
      d' = later ++ (name, { x with id := id' }) :: entries
  have hentry (d d' : Document) (key : String) (s : Bytes) (h : R d d') :
      Alike R (readEntry d key s) (readEntry d' key s) := by
    obtain ⟨x, later, rfl, rfl⟩ := h
    exact .read _ fun _ => .read _ fun p => .ok ⟨x, (key, p.1) :: later, rfl, rfl⟩
  refine (alike_foldMembers (fun x y key s hxy => alike_readMember hxy key s) false
    ⟨rfl, rfl⟩ s).bind ?_
  rintro x y r ⟨hid, rfl⟩
  refine .read _ fun r => (alike_foldMembers hentry false ?_ r).bind ?_
  · exact ⟨x.definition, [], by simp [Draft.definition, hid], by simp [Draft.definition]⟩
  · rintro d d' r ⟨x, later, rfl, rfl⟩
    exact .read _ fun r =>
      .ok ⟨entries.reverse, name, x, later.reverse, by simp, by simp, by simp⟩

/-- A number is found behind blanks. -/
theorem readId_of_isNumber {b : Bytes} {outcome : Except Cause Number} (hw : IsNumber w)
    (hb : Blank b) (h : Yields outcome (readNumber (w ++ rest)) rest) :
    Yields (outcome.map some) (readId (b ++ (w ++ rest))) rest := by
  have hfound : readFound (w ++ rest) =
      (readNumber (w ++ rest)).map fun p => (.number p.1, p.2) := by
    obtain ⟨c, t, rfl, hc⟩ := hw.exists_cons
    rw [List.cons_append, readFound, ofByte?_eq_number hc]
    cases readNumber (c :: (t ++ rest)) <;> simp [bind, Except.bind, Except.map]
  have hbegins := (beginsValue_number hw.exists_cons).append rest
  rw [readId, hbegins.skipBlanks hb, hfound]
  cases outcome with
  | ok n =>
    rw [show readNumber (w ++ rest) = .ok (n, rest) from h]
    rfl
  | error cause =>
    obtain ⟨fault, hfault, hcause⟩ := h
    exact ⟨fault, by rw [hfault]; rfl, hcause⟩

namespace Document

/-- A text that is a document with a zero for the id of an entry is the same document but for that
id with any other number in that place, or it is malformed if the number is out of range. -/
theorem read?_of_upToId {n : Nat} {front : Bytes} {d : Document} (hfront : UpToId n front)
    (hrest : Follows rest)
    (hd : read? (front ++ Byte.zero :: rest) = .ok d) (hw : IsNumber w) :
    (∃ id d', readNumber w = .ok (id, []) ∧ read? (front ++ (w ++ rest)) = .ok d' ∧
      DifferInId n (some (.integer 0)) (some id) d d') ∨
    (∀ id, readNumber w ≠ .ok (id, [])) ∧
      ∃ e, read? (front ++ (w ++ rest)) = .error e ∧ e.cause = .numberOutOfRange := by
  have hzero : IsNumber [Byte.zero] := @IsNumber.parts [] _ [] [] (by decide) .zero .none .none
  obtain ⟨r, hd, hr⟩ := readWhole_eq_ok_iff.mp hd
  obtain ⟨entries, name, x, c, rfl, hc, hread⟩ | hfault := readOrdered_of_upToId hfront
  · have hzeroNumber : Yields (.ok (.integer 0)) (readNumber ([Byte.zero] ++ rest)) rest :=
      readNumber_of_spells ⟨by decide, by decide, by decide +kernel⟩ hrest
    have hzeroRead : readId (c ++ ([Byte.zero] ++ rest)) = .ok (some (.integer 0), rest) :=
      readId_of_isNumber hzero hc hzeroNumber
    obtain ⟨outcome, hcause, hyields⟩ := hw.exists_outcome
    have halone := hyields [] (by simp [Follows])
    rw [List.append_nil] at halone
    have hid := readId_of_isNumber hw hc (hyields rest hrest)
    rw [← List.singleton_append, hread, hzeroRead] at hd
    obtain rfl | ⟨id, rfl⟩ := hcause
    · refine .inr ⟨fun id hid => ?_, ?_⟩
      · obtain ⟨fault, hfault, -⟩ := halone
        rw [hid] at hfault
        cases hfault
      · obtain ⟨fault, hfault, hcause⟩ := hid
        refine ⟨fault.locate (front ++ (w ++ rest)), ?_, hcause⟩
        simp only [read?, readWhole, hread, hfault]
        rfl
    · have halike := alike_resume entries name x (some (.integer 0)) (some id) rest
      rw [show resume entries name x (some (.integer 0)) rest = .ok (d, r) from hd] at halike
      generalize hresume : resume entries name x (some id) rest = resumed at halike
      cases halike with
      | @ok _ d' _ hdiffer =>
        refine .inl ⟨id, d', halone, readWhole_eq_ok_iff.mpr ⟨r, ?_, hr⟩, hdiffer⟩
        rw [hread, show readId (c ++ (w ++ rest)) = .ok (some id, rest) from hid]
        exact hresume
  · obtain ⟨e, he⟩ := hfault (Byte.zero :: rest)
    rw [hd] at he
    cases he

end Document

end Telemetry
