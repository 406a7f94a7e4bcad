import Telemetry.Json.Brackets
import Telemetry.Proofs.Json.Numerals
import Telemetry.Proofs.Json.Strings

/-!
# Reading lists and objects

Items between brackets are read one by one, with the blanks around them, and the closing bracket is
found (`readList_yields`, `readMembers_yields`); the same for brackets that nobody asks for
(`skipBracket_of_enclosed`). The readers of lists and objects are both loops of one kind (`IsLoop`),
so there is one induction on the items for both.

An item may be refused, for the reason that `Yields` names. Then so is the whole.
-/

namespace Telemetry.Json

variable {a b s t rest : Bytes} {c closing : UInt8}

/-! ### Blanks and what follows values -/

theorem isBlank_of_mem : ∀ b ∈ [Byte.space, Byte.tab, Byte.lineFeed, Byte.carriageReturn],
    Byte.isBlank b = true := by
  decide +kernel

theorem Blank.nil : Blank [] := fun _ h => nomatch h

theorem Blank.append (ha : Blank a) (hb : Blank b) : Blank (a ++ b) :=
  List.forall_mem_append.mpr ⟨ha, hb⟩

theorem skipBlanks_append (ha : Blank a) (s : Bytes) : skipBlanks (a ++ s) = skipBlanks s :=
  List.dropWhile_append_of_pos fun b hb => isBlank_of_mem b (ha b hb)

theorem skipBlanks_cons (h : Byte.isBlank c = false) (s : Bytes) : skipBlanks (c :: s) = c :: s :=
  List.dropWhile_cons_of_neg (by simp [h])

/-- Blanks are passed over up to a byte that is none. -/
theorem skipBlanks_append_cons (ha : Blank a) (h : Byte.isBlank c = false) (s : Bytes) :
    skipBlanks (a ++ c :: s) = c :: s := by
  rw [skipBlanks_append ha, skipBlanks_cons h]

theorem follows_cons (h : c ∈ [Byte.comma, Byte.closeList, Byte.closeObject]) (s : Bytes) :
    Follows (c :: s) := by
  intro b hb
  cases hb
  exact List.mem_append_right [Byte.space, Byte.tab, Byte.lineFeed, Byte.carriageReturn] h

theorem Follows.append (ha : Blank a) (h : Follows s) : Follows (a ++ s) := by
  cases a with
  | nil => exact h
  | cons b a =>
    intro b' hb'
    cases hb'
    exact List.mem_append_left [Byte.comma, Byte.closeList, Byte.closeObject]
      (ha b List.mem_cons_self)

/-- Blanks may be left out. -/
theorem Padded.self {P : Bytes → Prop} (h : P s) : Padded P s := by
  simpa using Padded.blanks .nil h .nil

/-! ### What reading comes to -/

/-- Reading comes to what is said: something and what follows it, or a fault for a reason. -/
def Yields {α : Type} (outcome : Except Cause α) (result : Except Fault (α × Bytes))
    (rest : Bytes) : Prop :=
  match outcome with
  | .ok x => result = .ok (x, rest)
  | .error cause => ∃ fault, result = .error fault ∧ fault.cause = cause

/-- Reading goes on behind what has been read, where only one thing can come of it. -/
theorem Yields.bind {α β : Type} {outcome : Except Cause α} {result : Except Fault (α × Bytes)}
    {mid : Bytes} {g : α × Bytes → Except Fault (β × Bytes)} (h : Yields outcome result mid)
    (k : α → β) (hg : ∀ x, g (x, mid) = .ok (k x, rest)) :
    Yields (outcome.map k) (result >>= g) rest := by
  cases outcome with
  | ok x =>
    rw [show result = .ok (x, mid) from h]
    exact hg x
  | error cause =>
    obtain ⟨fault, hresult, hcause⟩ := h
    exact ⟨fault, by rw [hresult]; rfl, hcause⟩

/-! ### Loops over items -/

/-- What stands in front of an item, be it the first or not. -/
def Lead : Bool → Bytes → Prop
  | true, s => Blank s
  | false, s => ∃ a b, Blank a ∧ Blank b ∧ s = a ++ Byte.comma :: b

theorem Lead.append {first : Bool} (h : Lead first s) (ha : Blank a) : Lead first (s ++ a) := by
  cases first with
  | true => exact Blank.append h ha
  | false =>
    obtain ⟨b, b', hb, hb', rfl⟩ := h
    exact ⟨b, b' ++ a, hb, hb'.append ha, by simp⟩

theorem lead_comma (ha : Blank a) : Lead false (a ++ [Byte.comma]) := ⟨a, [], ha, .nil, rfl⟩

/-- A reader that takes item after item into a result, until it finds the closing bracket. -/
structure IsLoop {σ : Type} (closing : UInt8) (Begins : Bytes → Prop)
    (item : σ → Bytes → Except Fault (σ × Bytes))
    (loop : Bool → σ → Bytes → Except Fault (σ × Bytes)) : Prop where
  follows : closing ∈ [Byte.comma, Byte.closeList, Byte.closeObject]
  stop : ∀ first x b rest, Blank b →
    loop first x (b ++ closing :: rest) = .ok (x, b ++ closing :: rest)
  next : ∀ first x lead t y r, Lead first lead → Begins t → item x t = .ok (y, r) →
    r.length < t.length → loop first x (lead ++ t) = loop false y r
  fault : ∀ first x lead t e, Lead first lead → Begins t → item x t = .error e →
    loop first x (lead ++ t) = .error e

section Loops

variable {σ α : Type} {Begins : Bytes → Prop} {item : σ → Bytes → Except Fault (σ × Bytes)}
  {loop : Bool → σ → Bytes → Except Fault (σ × Bytes)} {P : α → Bytes → Prop}
  {step : σ → α → Except Cause σ} {xs : List α}

/-- A loop goes on behind an item that is accepted, and ends with one that is refused. -/
theorem IsLoop.yields_one (h : IsLoop closing Begins item loop)
    (hbegins : ∀ x s, P x s → s ≠ [] ∧ ∀ r, Begins (s ++ r))
    (hitem : ∀ y x s rest, P x s → Follows rest → Yields (step y x) (item y (s ++ rest)) rest)
    {x : α} (hx : Padded (P x) s) {first : Bool} {lead : Bytes} (hlead : Lead first lead) (y : σ)
    (hrest : Follows rest) :
    ∃ b, Blank b ∧
      match step y x with
      | .ok z => loop first y (lead ++ (s ++ rest)) = loop false z (b ++ rest)
      | .error cause =>
        ∃ fault, loop first y (lead ++ (s ++ rest)) = .error fault ∧ fault.cause = cause := by
  cases hx with
  | @blanks a s b ha hs hb =>
    obtain ⟨hne, hbegin⟩ := hbegins x s hs
    have hyields := hitem y x s (b ++ rest) hs (Follows.append hb hrest)
    refine ⟨b, hb, ?_⟩
    rw [show lead ++ (a ++ (s ++ b) ++ rest) = lead ++ a ++ (s ++ (b ++ rest)) by simp]
    cases hstep : step y x with
    | error cause =>
      rw [hstep] at hyields
      obtain ⟨fault, hresult, hcause⟩ := hyields
      exact ⟨fault, h.fault first y _ _ fault (hlead.append ha) (hbegin _) hresult, hcause⟩
    | ok z =>
      rw [hstep] at hyields
      exact h.next first y _ _ z _ (hlead.append ha) (hbegin _) hyields
        (by simpa [List.length_pos_iff] using hne)

/-- A loop over items comes to what taking them one by one comes to, and ends in front of the
closing bracket. -/
theorem IsLoop.yields (h : IsLoop closing Begins item loop)
    (hbegins : ∀ x s, P x s → s ≠ [] ∧ ∀ r, Begins (s ++ r))
    (hitem : ∀ y x s rest, P x s → Follows rest → Yields (step y x) (item y (s ++ rest)) rest)
    (hs : Separated P xs s) {first : Bool} {lead : Bytes} (hlead : Lead first lead) (y : σ)
    (rest : Bytes) :
    ∃ b, Blank b ∧ Yields (xs.foldlM step y) (loop first y (lead ++ (s ++ closing :: rest)))
      (b ++ closing :: rest) := by
  induction hs generalizing first lead y with
  | @one x s hx =>
    obtain ⟨b, hb, hstep⟩ := h.yields_one hbegins hitem hx hlead y (follows_cons h.follows rest)
    refine ⟨b, hb, ?_⟩
    rw [List.foldlM_cons]
    cases hz : step y x with
    | error cause =>
      rw [hz] at hstep
      exact hstep
    | ok z =>
      rw [hz] at hstep
      exact hstep.trans (h.stop false z b rest hb)
  | @more x xs s t hx _ ih =>
    obtain ⟨b, hb, hstep⟩ := h.yields_one hbegins hitem hx hlead y
      (follows_cons (c := Byte.comma) (by decide) (t ++ closing :: rest))
    rw [List.foldlM_cons, List.append_assoc, List.cons_append]
    cases hz : step y x with
    | error cause =>
      rw [hz] at hstep
      exact ⟨b, hb, hstep⟩
    | ok z =>
      rw [hz] at hstep
      have hnext := ih (lead_comma hb) z
      rw [List.append_assoc, List.singleton_append] at hnext
      rwa [← hstep] at hnext

/-- A loop over what stands between brackets. -/
theorem IsLoop.yields_enclosed {opening : UInt8} (h : IsLoop closing Begins item loop)
    (hbegins : ∀ x s, P x s → s ≠ [] ∧ ∀ r, Begins (s ++ r))
    (hitem : ∀ y x s rest, P x s → Follows rest → Yields (step y x) (item y (s ++ rest)) rest)
    (hs : Enclosed opening closing P xs s) (y : σ) :
    ∃ t, s = opening :: t ∧ ∀ rest, ∃ b, Blank b ∧
      Yields (xs.foldlM step y) (loop true y (t ++ rest)) (b ++ closing :: rest) := by
  cases hs with
  | @nothing b hb =>
    refine ⟨_, rfl, fun rest => ⟨b, hb, ?_⟩⟩
    rw [List.append_assoc, List.singleton_append]
    exact h.stop true y b rest hb
  | @items _ s hs =>
    refine ⟨_, rfl, fun rest => ?_⟩
    rw [List.append_assoc, List.singleton_append]
    exact h.yields hbegins hitem hs (show Lead true [] from Blank.nil) y rest

end Loops

/-! ### Lists and objects -/

/-- Bytes that a value can begin with are no blanks and do not stand between values. -/
theorem ne_of_isStart (h : (Start.ofByte? c).isSome = true) : Byte.isBlank c = false ∧
    c ≠ Byte.comma ∧ c ≠ Byte.closeList ∧ c ≠ Byte.closeObject := by
  have hnone : ∀ b ∈ [Byte.space, Byte.tab, Byte.lineFeed, Byte.carriageReturn, Byte.comma,
      Byte.closeList, Byte.closeObject], (Start.ofByte? b).isSome = false := by
    decide +kernel
  have hne : ∀ b ∈ [Byte.space, Byte.tab, Byte.lineFeed, Byte.carriageReturn, Byte.comma,
      Byte.closeList, Byte.closeObject], c ≠ b := by
    rintro b hb rfl
    rw [hnone c hb] at h
    cases h
  simp only [List.forall_mem_cons] at hne
  obtain ⟨hspace, htab, hfeed, hreturn, hcomma, hlist, hobject, -⟩ := hne
  exact ⟨by simp [Byte.isBlank, hspace, htab, hfeed, hreturn], hcomma, hlist, hobject⟩

/-- Bytes that a value can begin with. -/
def BeginsValue (s : Bytes) : Prop := ∃ c t, s = c :: t ∧ (Start.ofByte? c).isSome = true

theorem BeginsValue.ne_nil (h : BeginsValue s) : s ≠ [] := by
  obtain ⟨c, t, rfl, -⟩ := h
  exact List.cons_ne_nil c t

/-- Blanks in front of a value are passed over. -/
theorem BeginsValue.skipBlanks (h : BeginsValue s) (hb : Blank b) : skipBlanks (b ++ s) = s := by
  obtain ⟨c, t, rfl, hc⟩ := h
  exact skipBlanks_append_cons hb (ne_of_isStart hc).1 t

theorem BeginsValue.append (h : BeginsValue s) (r : Bytes) : BeginsValue (s ++ r) := by
  obtain ⟨c, t, rfl, hc⟩ := h
  exact ⟨c, t ++ r, rfl, hc⟩

theorem isLoop_foldItems {σ : Type} (item : σ → Bytes → Except Fault (σ × Bytes)) :
    IsLoop Byte.closeList BeginsValue item (foldItems item) := by
  have hclose : Byte.isBlank Byte.closeList = false := by decide
  have hcomma : Byte.isBlank Byte.comma = false := by decide
  have hne : Byte.comma ≠ Byte.closeList := by decide
  have hnext {first : Bool} {lead t : Bytes} (hlead : Lead first lead) (ht : BeginsValue t) :
      nextItem first (lead ++ t) = .ok (some t) := by
    obtain ⟨c, t, rfl, hc⟩ := ht
    obtain ⟨hblank, -, hlist, -⟩ := ne_of_isStart hc
    cases first with
    | true =>
      rw [nextItem, skipBlanks_append_cons hlead hblank]
      simp [hlist]
    | false =>
      obtain ⟨a, b, ha, hb, rfl⟩ := hlead
      rw [nextItem, List.append_assoc, List.cons_append, skipBlanks_append_cons ha hcomma]
      simp [skipBlanks_append_cons hb hblank, hlist, hne]
  refine ⟨by decide, fun first x b rest hb => ?_, fun first x lead t y r hlead ht hitem hr => ?_,
    fun first x lead t e hlead ht hitem => ?_⟩
  · rw [foldItems, nextItem, skipBlanks_append_cons hb hclose]
    simp
  · rw [foldItems, hnext hlead ht]
    simp only [hitem, List.length_append]
    rw [if_pos (by omega)]
  · rw [foldItems, hnext hlead ht]
    simp only [hitem]

/-- Reads the key of a member at its quote, and then the member. -/
def keyThen {σ : Type} (member : σ → String → Bytes → Except Fault (σ × Bytes)) (x : σ)
    (t : Bytes) : Except Fault (σ × Bytes) := do
  let (key, s) ← readString (t.drop 1)
  member x key s

theorem isLoop_foldMembers {σ : Type} (member : σ → String → Bytes → Except Fault (σ × Bytes)) :
    IsLoop Byte.closeObject (fun t => ∃ s, t = Byte.quote :: s) (keyThen member)
      (foldMembers member) := by
  have hclose : Byte.isBlank Byte.closeObject = false := by decide
  have hcomma : Byte.isBlank Byte.comma = false := by decide
  have hquote : Byte.isBlank Byte.quote = false := by decide
  have hne : Byte.comma ≠ Byte.closeObject ∧ Byte.quote ≠ Byte.closeObject := by decide
  have hnext {first : Bool} {lead s : Bytes} (hlead : Lead first lead) :
      nextKey first (lead ++ Byte.quote :: s) = (readString s).map some := by
    cases first with
    | true =>
      rw [nextKey, skipBlanks_append_cons hlead hquote]
      simp [hne]
    | false =>
      obtain ⟨a, b, ha, hb, rfl⟩ := hlead
      rw [nextKey, List.append_assoc, List.cons_append, skipBlanks_append_cons ha hcomma]
      simp [skipBlanks_append_cons hb hquote, hne]
  refine ⟨by decide, fun first x b rest hb => ?_, ?_, ?_⟩
  · rw [foldMembers, nextKey, skipBlanks_append_cons hb hclose]
    simp
  · rintro first x lead _ y r hlead ⟨s, rfl⟩ hitem hr
    rw [keyThen, List.drop_one, List.tail_cons] at hitem
    obtain ⟨⟨key, s'⟩, hkey, hmember⟩ := bind_eq_ok_iff.mp hitem
    rw [foldMembers, hnext hlead, hkey]
    simp only [Except.map, hmember, List.length_append]
    rw [if_pos (by omega)]
  · rintro first x lead _ e hlead ⟨s, rfl⟩ hitem
    rw [keyThen, List.drop_one, List.tail_cons] at hitem
    rw [foldMembers, hnext hlead]
    cases hkey : readString s with
    | error e' =>
      rw [hkey] at hitem
      cases hitem
      rfl
    | ok p =>
      rw [hkey] at hitem
      simp only [Except.map]
      rw [show member x p.1 p.2 = .error e from hitem]

/-- Behind the items the closing bracket is found. -/
theorem readEnd_listEnd (hb : Blank b) (rest : Bytes) :
    readEnd (listEnd (b ++ Byte.closeList :: rest)) = .ok rest := by
  rw [listEnd, skipBlanks_append_cons hb (by decide)]
  rfl

theorem readEnd_objectEnd (hb : Blank b) (rest : Bytes) :
    readEnd (objectEnd (b ++ Byte.closeObject :: rest)) = .ok rest := by
  rw [objectEnd, skipBlanks_append_cons hb (by decide)]
  rfl

/-- A colon with blanks around it is read up to the blanks behind it. -/
theorem readColon_append (ha : Blank a) (s : Bytes) : readColon (a ++ Byte.colon :: s) = .ok s := by
  rw [readColon, skipBlanks_append_cons ha (by decide)]
  rfl

section Readers

variable {α β : Type} {P : α → Bytes → Prop} {xs : List α}

/-- What is taken one by one into a list comes out in reverse order. -/
theorem reverse_foldlM_cons (f : α → Except Cause β) (xs : List α) :
    (xs.foldlM (fun ys x => (f x).map (· :: ys)) []).map List.reverse = xs.mapM f := by
  have hfold (ys : List β) : xs.foldlM (fun ys x => (f x).map (· :: ys)) ys =
      (xs.mapM f).map fun zs => zs.reverse ++ ys := by
    induction xs generalizing ys with
    | nil => rfl
    | cons x xs ih =>
      rw [List.foldlM_cons, List.mapM_cons]
      cases f x with
      | error cause => rfl
      | ok y =>
        refine (ih (y :: ys)).trans ?_
        cases xs.mapM f with
        | error cause => rfl
        | ok zs => simp [Except.map, bind, Except.bind, pure, Except.pure]
  rw [hfold]
  cases xs.mapM f with
  | error cause => rfl
  | ok zs => simp [Except.map]

/-- What is never refused is all taken. -/
theorem mapM_ok (xs : List β) : xs.mapM (Except.ok : β → Except Cause β) = .ok xs := by
  rw [show (Except.ok : β → Except Cause β) = fun x => pure (id x) from rfl, List.mapM_pure,
    List.map_id]
  rfl

/-- What is never refused keeps its key. -/
theorem mapM_map_ok (ms : List (String × β)) :
    (ms.mapM fun m => (Except.ok m.2 : Except Cause β).map (m.1, ·)) = .ok ms :=
  mapM_ok ms

/-- A list is read item by item. -/
theorem readList_yields (item : Scan β) (f : α → Except Cause β)
    (hbegins : ∀ x s, P x s → BeginsValue s)
    (hitem : ∀ x s rest, P x s → Follows rest → Yields (f x) (item (s ++ rest)) rest)
    (hs : Listed P xs s) :
    ∃ t, s = Byte.openList :: t ∧ ∀ rest, Yields (xs.mapM f) (readList item (t ++ rest)) rest := by
  obtain ⟨t, rfl, hloop⟩ := (isLoop_foldItems fun (ys : List β) s => do
      let p ← item s
      .ok (p.1 :: ys, p.2)).yields_enclosed
    (fun x s hx => ⟨(hbegins x s hx).ne_nil, (hbegins x s hx).append⟩)
    (fun ys x s rest hx hrest => (hitem x s rest hx hrest).bind (· :: ys) fun _ => rfl) hs []
  refine ⟨t, rfl, fun rest => ?_⟩
  obtain ⟨b, hb, hyields⟩ := hloop rest
  rw [← reverse_foldlM_cons]
  exact hyields.bind List.reverse fun ys => by
    simp only [readEnd_listEnd hb rest]
    rfl

/-- A member begins with the quote of its key. -/
theorem begins_member {key : String} {V : Bytes → Prop} (h : Member (SpellsString key) V s) :
    s ≠ [] ∧ ∀ r, ∃ t, s ++ r = Byte.quote :: t := by
  cases h with
  | colon hkey _ _ _ =>
    obtain ⟨t, rfl, -⟩ := readString_of_spells hkey []
    exact ⟨by simp, fun r => ⟨_, rfl⟩⟩

/-- A member is read behind its key. -/
theorem keyThen_of_spells {σ : Type} (member : σ → String → Bytes → Except Fault (σ × Bytes))
    {key : String} {k : Bytes} (hk : SpellsString key k) (y : σ) (s : Bytes) :
    keyThen member y (k ++ s) = member y key s := by
  obtain ⟨t, rfl, htext⟩ := readString_of_spells hk s
  rw [keyThen, List.cons_append, List.drop_one, List.tail_cons, htext]
  rfl

theorem keyThen_yields {σ : Type} {member : σ → String → Bytes → Except Fault (σ × Bytes)}
    {key : String} {V : Bytes → Prop} {outcome : Except Cause σ} {y : σ}
    (hmember : ∀ a b s, Blank a → Blank b → V s →
      Yields outcome (member y key (a ++ Byte.colon :: (b ++ (s ++ rest)))) rest)
    (h : Member (SpellsString key) V s) : Yields outcome (keyThen member y (s ++ rest)) rest := by
  cases h with
  | @colon k a b s hkey ha hb hs =>
    rw [show k ++ (a ++ Byte.colon :: (b ++ s)) ++ rest =
      k ++ (a ++ Byte.colon :: (b ++ (s ++ rest))) by simp, keyThen_of_spells member hkey]
    exact hmember a b s ha hb hs

/-- The members of an object are taken one by one. -/
theorem foldMembers_yields {σ : Type} (step : σ → α → Except Cause σ)
    (member : σ → String → Bytes → Except Fault (σ × Bytes)) {key : α → String}
    (hmember : ∀ y x a b s rest, Blank a → Blank b → P x s → Follows rest →
      Yields (step y x) (member y (key x) (a ++ Byte.colon :: (b ++ (s ++ rest)))) rest)
    (hs : Membered (fun x => Member (SpellsString (key x)) (P x)) xs s) (y : σ) :
    ∃ t, s = Byte.openObject :: t ∧ ∀ rest, ∃ b, Blank b ∧
      Yields (xs.foldlM step y) (foldMembers member true y (t ++ rest))
        (b ++ Byte.closeObject :: rest) :=
  (isLoop_foldMembers member).yields_enclosed (fun _ _ hx => begins_member hx)
    (fun y x _ rest hx hrest => keyThen_yields
      (fun a b s ha hb hs => hmember y x a b s rest ha hb hs hrest) hx) hs y

/-- An object is read member by member. -/
theorem readMembers_yields (value : Scan β) {key : α → String} (f : α → Except Cause β)
    (hvalue : ∀ x b s rest, Blank b → P x s → Follows rest →
      Yields (f x) (value (b ++ (s ++ rest))) rest)
    (hs : Membered (fun x => Member (SpellsString (key x)) (P x)) xs s) :
    ∃ t, s = Byte.openObject :: t ∧ ∀ rest,
      Yields (xs.mapM fun x => (f x).map (key x, ·)) (readMembers value (t ++ rest)) rest := by
  have hmap (ms : List (String × β)) (x : α) :
      ((f x).map (key x, ·)).map (· :: ms) = (f x).map fun y => (key x, y) :: ms := by
    cases f x <;> rfl
  obtain ⟨t, rfl, hloop⟩ := foldMembers_yields
    (fun (ms : List (String × β)) x => ((f x).map (key x, ·)).map (· :: ms))
    (fun ms k s => do
      let s ← readColon s
      let p ← value s
      .ok ((k, p.1) :: ms, p.2))
    (fun ms x a b s rest ha hb hx hrest => by
      rw [hmap, readColon_append ha]
      exact (hvalue x b s rest hb hx hrest).bind _ fun _ => rfl) hs []
  refine ⟨t, rfl, fun rest => ?_⟩
  obtain ⟨b, hb, hyields⟩ := hloop rest
  rw [← reverse_foldlM_cons]
  exact hyields.bind List.reverse fun ys => by
    simp only [readEnd_objectEnd hb rest]
    rfl

end Readers

/-! ### Brackets nobody asked for -/

section Skipping

variable {α : Type} {P : α → Bytes → Prop} {xs : List α} (bracket : Bracket)
  (item : Bytes → Except Fault Bytes)

theorem Bracket.close_spec : Byte.isBlank bracket.close = false ∧
    bracket.close ∈ [Byte.comma, Byte.closeList, Byte.closeObject] ∧
      Byte.comma ≠ bracket.close := by
  cases bracket <;> decide

/-- Items are passed over, and the closing bracket behind them. -/
theorem skipItems_of_separated
    (hitem : ∀ x b s rest, Blank b → P x s → Follows rest → item (b ++ (s ++ rest)) = .ok rest)
    (hs : Separated P xs s) (rest : Bytes) :
    skipItems bracket item (s ++ bracket.close :: rest) = .ok rest := by
  obtain ⟨hblank, hfollows, hcomma⟩ := bracket.close_spec
  have hpadded {x : α} {s r : Bytes} (hx : Padded (P x) s) (hr : Follows r) :
      ∃ b, Blank b ∧ item (s ++ r) = .ok (b ++ r) := by
    cases hx with
    | @blanks a s b ha hs hb =>
      refine ⟨b, hb, ?_⟩
      rw [List.append_assoc, List.append_assoc]
      exact hitem x a s (b ++ r) ha hs (hr.append hb)
  induction hs with
  | one hx =>
    obtain ⟨b, hb, hitem⟩ := hpadded hx (follows_cons hfollows rest)
    rw [skipItems, hitem]
    simp only [skipBlanks_append_cons hb hblank, if_pos]
  | @more _ _ s t hx _ ih =>
    obtain ⟨b, hb, hitem⟩ := hpadded hx
      (follows_cons (c := Byte.comma) (by decide) (t ++ bracket.close :: rest))
    rw [List.append_assoc, List.cons_append, skipItems, hitem]
    simp only [skipBlanks_append_cons hb (show Byte.isBlank Byte.comma = false by decide),
      if_neg hcomma, ne_eq, not_true_eq_false, if_false]
    rw [if_pos (by simp; omega)]
    exact ih

/-- Brackets are passed over with what stands between them. -/
theorem skipBracket_of_enclosed {opening : UInt8}
    (hbegins : ∀ x s, P x s →
      ∃ c t, s = c :: t ∧ Byte.isBlank c = false ∧ c ≠ bracket.close)
    (hitem : ∀ x b s rest, Blank b → P x s → Follows rest → item (b ++ (s ++ rest)) = .ok rest)
    (hs : Enclosed opening bracket.close P xs s) :
    ∃ t, s = opening :: t ∧ ∀ rest, skipBracket bracket item (t ++ rest) = .ok rest := by
  obtain ⟨hblank, -, -⟩ := bracket.close_spec
  cases hs with
  | nothing hb =>
    refine ⟨_, rfl, fun rest => ?_⟩
    rw [List.append_assoc, List.singleton_append, skipBracket, skipBlanks_append_cons hb hblank]
    simp only [if_pos]
  | @items xs s hs =>
    have hpadded {x : α} {s : Bytes} (hx : Padded (P x) s) (r : Bytes) :
        ∃ c t, skipBlanks (s ++ r) = c :: t ∧ c ≠ bracket.close := by
      cases hx with
      | @blanks _ _ b ha hs _ =>
        obtain ⟨c, t, rfl, hc, hne⟩ := hbegins x _ hs
        refine ⟨c, t ++ b ++ r, ?_, hne⟩
        rw [List.append_assoc, skipBlanks_append ha]
        exact skipBlanks_cons hc (t ++ b ++ r)
    have hfirst (r : Bytes) : ∃ c t, skipBlanks (s ++ r) = c :: t ∧ c ≠ bracket.close := by
      cases hs with
      | one hx => exact hpadded hx r
      | more hx _ =>
        rw [List.append_assoc]
        exact hpadded hx _
    refine ⟨_, rfl, fun rest => ?_⟩
    rw [List.append_assoc, List.singleton_append, skipBracket]
    obtain ⟨c, t, hskip, hne⟩ := hfirst (bracket.close :: rest)
    rw [hskip]
    simp only [if_neg hne]
    exact skipItems_of_separated bracket item hitem hs rest

end Skipping

end Telemetry.Json
