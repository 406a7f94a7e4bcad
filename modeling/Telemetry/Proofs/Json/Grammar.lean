import Telemetry.Proofs.Json.Tokens
import Telemetry.Proofs.Json.Values

/-!
# What is read is JSON

The converse of reading every spelling: whatever is read or passed over as a value is one, with
blanks in front of it (`between_of_readValue`, `between_of_skipNested`), and whatever is read
between brackets is items with commas between them.

Both loops over items take one more item or find the closing bracket (`Unrolls`), so one induction
on the bytes that are left serves both. Values go by induction on how deep brackets may be nested.
-/

namespace Telemetry.Json

variable {a b s t r rest : Bytes} {c opening closing : UInt8}

/-! ### Blanks -/

/-- What is passed over as blanks is blanks. -/
theorem exists_blank (s : Bytes) : ∃ b, Blank b ∧ s = b ++ skipBlanks s := by
  refine ⟨s.takeWhile Byte.isBlank, fun c hc => ?_, List.takeWhile_append_dropWhile.symm⟩
  have hblank : Byte.isBlank c = true := List.mem_takeWhile_imp hc
  simpa [Byte.isBlank, or_assoc] using hblank

theorem skipBlanks_eq_cons_iff :
    skipBlanks s = c :: r ↔ Byte.isBlank c = false ∧ ∃ b, Blank b ∧ s = b ++ c :: r := by
  constructor
  · intro h
    obtain ⟨b, hb, hs⟩ := exists_blank s
    rw [h] at hs
    refine ⟨?_, b, hb, hs⟩
    by_contra hblank
    -- a blank would have been passed over
    have hagain := skipBlanks_skipBlanks s
    rw [h, skipBlanks, List.dropWhile_cons_of_pos (by simpa using hblank)] at hagain
    have hlength := (List.dropWhile_suffix Byte.isBlank (l := r)).length_le
    rw [hagain] at hlength
    simp at hlength
  · rintro ⟨hc, b, hb, rfl⟩
    exact skipBlanks_append_cons hb hc r

theorem Padded.blank_append {P : Bytes → Prop} (hb : Blank b) (h : Padded P s) :
    Padded P (b ++ s) := by
  cases h with
  | blanks ha hs hr =>
    rw [← List.append_assoc]
    exact .blanks (hb.append ha) hs hr

theorem Padded.append_blank {P : Bytes → Prop} (h : Padded P s) (hb : Blank b) :
    Padded P (s ++ b) := by
  cases h with
  | blanks ha hs hr =>
    rw [List.append_assoc, List.append_assoc]
    exact .blanks ha hs (hr.append hb)

theorem Padded.imp {P Q : Bytes → Prop} (h : Padded P s) (hPQ : ∀ s, P s → Q s) : Padded Q s := by
  cases h with
  | blanks ha hs hb => exact .blanks ha (hPQ _ hs) hb

theorem Between.imp {P Q : Bytes → Prop} (h : Between P s r) (hPQ : ∀ t, P t → Q t) :
    Between Q s r := by
  obtain ⟨t, ht, rfl⟩ := h
  exact ⟨t, hPQ t ht, rfl⟩

/-- Blanks are passed over with what stands behind them. -/
theorem Between.of_skipBlanks {P : Bytes → Prop} (h : Between P (skipBlanks s) r) :
    Between (Padded P) s r := by
  obtain ⟨b, hb, hs⟩ := exists_blank s
  obtain ⟨t, ht, heq⟩ := h
  exact ⟨b ++ t, .blank_append hb (.self ht), by rw [hs, heq, List.append_assoc]⟩

theorem Separated.blank_append {α : Type} {P : α → Bytes → Prop} {xs : List α} (hb : Blank b)
    (h : Separated P xs s) : Separated P xs (b ++ s) := by
  cases h with
  | one hx => exact .one (hx.blank_append hb)
  | more hx hrest =>
    rw [← List.append_assoc]
    exact .more (hx.blank_append hb) hrest

/-- Every item that stands between brackets does so in some way. -/
theorem Enclosed.forall_mem {α : Type} {P : α → Bytes → Prop} {xs : List α}
    (h : Enclosed opening closing P xs s) : ∀ x ∈ xs, ∃ t, P x t := by
  have hpadded {x : α} {s : Bytes} (hx : Padded (P x) s) : ∃ t, P x t := by
    obtain ⟨-, ht, -⟩ := hx
    exact ⟨_, ht⟩
  cases h with
  | nothing _ => exact fun _ hx => nomatch hx
  | items h =>
    induction h with
    | one hx => simpa using hpadded hx
    | more hx _ ih => exact List.forall_mem_cons.mpr ⟨hpadded hx, ih⟩

/-! ### Loops over items -/

/-- What a reader of items has in front of it: one more item behind a comma, unless it is the first,
or the closing bracket, behind which reading goes on at `rest`. -/
inductive Remaining {α : Type} (closing : UInt8) (P : α → Bytes → Prop) (rest : Bytes) :
    Bool → List α → Bytes → Prop where
  | done {first : Bool} {s : Bytes} : skipBlanks s = closing :: rest →
    Remaining closing P rest first [] s
  | item {first : Bool} {lead p s : Bytes} {x : α} {xs : List α} : Lead first lead →
    Padded (P x) p → Remaining closing P rest false xs s →
      Remaining closing P rest first (x :: xs) (lead ++ (p ++ s))

/-- A reader that takes item after item stops in front of the closing bracket, or takes one and goes
on. -/
def Unrolls {σ : Type} (closing : UInt8) (Begins : Bytes → Prop)
    (item : σ → Bytes → Except Fault (σ × Bytes))
    (loop : Bool → σ → Bytes → Except Fault (σ × Bytes)) : Prop :=
  ∀ first x s y r, loop first x s = .ok (y, r) →
    (r = s ∧ ∃ t, skipBlanks s = closing :: t) ∨
      ∃ lead t z u, Lead first lead ∧ s = lead ++ t ∧ Begins t ∧ item x t = .ok (z, u) ∧
        u.length < s.length ∧ loop false z u = .ok (y, r)

section Loops

variable {σ α : Type} {Begins : Bytes → Prop} {item : σ → Bytes → Except Fault (σ × Bytes)}
  {loop : Bool → σ → Bytes → Except Fault (σ × Bytes)} {P : α → Bytes → Prop} {xs : List α}

/-- The items that remain have commas between them. -/
theorem Remaining.separated {first : Bool} (h : Remaining closing P rest first xs s) :
    ∃ body, s = body ++ closing :: rest ∧
      ((xs = [] ∧ Blank body) ∨
        ∃ lead t, Lead first lead ∧ Separated P xs t ∧ body = lead ++ t) := by
  induction h with
  | done hs =>
    obtain ⟨-, b, hb, rfl⟩ := skipBlanks_eq_cons_iff.mp hs
    exact ⟨b, rfl, .inl ⟨rfl, hb⟩⟩
  | @item _ lead p _ _ _ hlead hp _ ih =>
    obtain ⟨body, rfl, hbody⟩ := ih
    refine ⟨lead ++ (p ++ body), by simp, .inr ⟨lead, p ++ body, hlead, ?_, rfl⟩⟩
    obtain ⟨rfl, hb⟩ | ⟨_, t, ⟨b, b', hb, hb', rfl⟩, ht, rfl⟩ := hbody
    · exact .one (hp.append_blank hb)
    · rw [← List.append_assoc, ← List.append_assoc, List.append_assoc (p ++ b)]
      exact .more (hp.append_blank hb) (ht.blank_append hb')

/-- What remains behind an opening bracket stands between brackets with it. -/
theorem Remaining.enclosed (h : Remaining closing P rest true xs s) (opening : UInt8) :
    Between (fun t => Enclosed opening closing P xs (opening :: t)) s rest := by
  obtain ⟨body, rfl, ⟨rfl, hb⟩ | ⟨lead, t, hlead, ht, rfl⟩⟩ := h.separated
  · exact ⟨body ++ [closing], .nothing hb, by simp⟩
  · exact ⟨lead ++ t ++ [closing], .items (ht.blank_append hlead), by simp⟩

/-- A loop reads the items that remain. -/
theorem Unrolls.remaining (h : Unrolls closing Begins item loop)
    (hitem : ∀ x s y r, Begins s → item x s = .ok (y, r) → ∃ a, Between (Padded (P a)) s r)
    {first : Bool} {x y : σ} (hloop : loop first x s = .ok (y, r))
    (hrest : skipBlanks r = closing :: rest) : ∃ xs, Remaining closing P rest first xs s := by
  induction hn : s.length using Nat.strongRecOn generalizing first x s with
  | _ n ih =>
    obtain ⟨rfl, -⟩ | ⟨lead, t, z, u, hlead, rfl, hbegins, hone, hlt, hmore⟩ :=
      h first x s y r hloop
    · exact ⟨[], .done hrest⟩
    · obtain ⟨a, p, hp, rfl⟩ := hitem x t z u hbegins hone
      obtain ⟨xs, hxs⟩ := ih u.length (hn ▸ hlt) hmore rfl
      exact ⟨a :: xs, .item hlead hp hxs⟩

end Loops

/-! ### Items and members that are next -/

theorem of_nextItem_eq_none {first : Bool} (h : nextItem first s = .ok none) :
    ∃ t, skipBlanks s = Byte.closeList :: t := by
  unfold nextItem at h
  split at h
  · cases h
  · next b t hs =>
    split at h
    · next hb => exact ⟨t, hb ▸ hs⟩
    · split at h
      · cases h
      · split at h
        · cases h
        · split at h
          · cases h
          · split at h <;> cases h

theorem of_nextItem_eq_some {first : Bool} (h : nextItem first s = .ok (some t)) :
    ∃ lead, Lead first lead ∧ s = lead ++ t := by
  unfold nextItem at h
  split at h
  · cases h
  · next b t' hs =>
    obtain ⟨-, lead, hlead, rfl⟩ := skipBlanks_eq_cons_iff.mp hs
    split at h
    · cases h
    · cases first with
      | true =>
        cases h
        exact ⟨lead, hlead, rfl⟩
      | false =>
        rw [if_neg Bool.false_ne_true] at h
        split at h
        · cases h
        · next hcomma =>
          split at h
          · cases h
          · next hs' =>
            obtain ⟨-, lead', hlead', rfl⟩ := skipBlanks_eq_cons_iff.mp hs'
            split at h
            · cases h
            · cases h
              exact ⟨lead ++ Byte.comma :: lead', ⟨lead, lead', hlead, hlead', rfl⟩,
                by simp [not_not.mp hcomma]⟩

theorem map_some_ne_none {α : Type} {x : Except Fault α} : x.map some ≠ .ok none := by
  cases x <;> simp [Except.map]

theorem map_some_eq_iff {α : Type} {x : Except Fault α} {y : α} :
    x.map some = .ok (some y) ↔ x = .ok y := by
  cases x <;> simp [Except.map]

theorem of_nextKey_eq_none {first : Bool} (h : nextKey first s = .ok none) :
    ∃ t, skipBlanks s = Byte.closeObject :: t := by
  unfold nextKey at h
  split at h
  · cases h
  · next b t hs =>
    split at h
    · next hb => exact ⟨t, hb ▸ hs⟩
    · split at h
      · split at h
        · exact absurd h map_some_ne_none
        · cases h
      · split at h
        · cases h
        · split at h
          · cases h
          · split at h
            · cases h
            · split at h
              · exact absurd h map_some_ne_none
              · cases h

theorem of_nextKey_eq_some {first : Bool} {key : String}
    (h : nextKey first s = .ok (some (key, r))) :
    ∃ lead t, Lead first lead ∧ s = lead ++ Byte.quote :: t ∧ readString t = .ok (key, r) := by
  unfold nextKey at h
  split at h
  · cases h
  · next b t hs =>
    obtain ⟨-, lead, hlead, rfl⟩ := skipBlanks_eq_cons_iff.mp hs
    split at h
    · cases h
    · cases first with
      | true =>
        rw [if_pos rfl] at h
        split at h
        · next hquote => exact ⟨lead, t, hlead, by rw [hquote], map_some_eq_iff.mp h⟩
        · cases h
      | false =>
        rw [if_neg Bool.false_ne_true] at h
        split at h
        · cases h
        · next hcomma =>
          split at h
          · cases h
          · next b' t' hs' =>
            obtain ⟨-, lead', hlead', rfl⟩ := skipBlanks_eq_cons_iff.mp hs'
            split at h
            · cases h
            · split at h
              · next hquote =>
                exact ⟨lead ++ Byte.comma :: lead', t', ⟨lead, lead', hlead, hlead', rfl⟩,
                  by simp [not_not.mp hcomma, hquote], map_some_eq_iff.mp h⟩
              · cases h

section Loops

variable {σ α : Type} {P : α → Bytes → Prop}

theorem unrolls_foldItems (item : σ → Bytes → Except Fault (σ × Bytes)) :
    Unrolls Byte.closeList (fun _ => True) item (foldItems item) := by
  intro first x s y r h
  rw [foldItems] at h
  split at h
  · cases h
  · next hnext =>
    cases h
    exact .inl ⟨rfl, of_nextItem_eq_none hnext⟩
  · next t hnext =>
    split at h
    · cases h
    · next z u hone =>
      split at h
      · next hlt =>
        obtain ⟨lead, hlead, hs⟩ := of_nextItem_eq_some hnext
        exact .inr ⟨lead, t, z, u, hlead, hs, trivial, hone, hlt, h⟩
      · cases h

theorem unrolls_foldMembers (member : σ → String → Bytes → Except Fault (σ × Bytes)) :
    Unrolls Byte.closeObject (fun t => ∃ s, t = Byte.quote :: s) (keyThen member)
      (foldMembers member) := by
  intro first x s y r h
  rw [foldMembers] at h
  split at h
  · cases h
  · next hnext =>
    cases h
    exact .inl ⟨rfl, of_nextKey_eq_none hnext⟩
  · next key t hnext =>
    split at h
    · cases h
    · next z u hone =>
      split at h
      · next hlt =>
        obtain ⟨lead, t', hlead, hs, hkey⟩ := of_nextKey_eq_some hnext
        refine .inr ⟨lead, _, z, u, hlead, hs, ⟨t', rfl⟩, ?_, hlt, h⟩
        rw [keyThen, List.drop_one, List.tail_cons, hkey]
        exact hone
      · cases h

theorem skipBlanks_of_readEnd_listEnd (h : readEnd (listEnd s) = .ok r) :
    skipBlanks s = Byte.closeList :: r := by
  unfold listEnd at h
  split at h
  · cases h
  · next b t hs =>
    split at h
    · next hb =>
      cases h
      rw [hs, hb]
    · split at h
      · dsimp only at h
        split at h <;> cases h
      · cases h

theorem skipBlanks_of_readEnd_objectEnd (h : readEnd (objectEnd s) = .ok r) :
    skipBlanks s = Byte.closeObject :: r := by
  unfold objectEnd at h
  split at h
  · cases h
  · next b t hs =>
    split at h
    · next hb =>
      cases h
      rw [hs, hb]
    · split at h <;> cases h

/-- A colon that is read has nothing but blanks in front of it. -/
theorem exists_of_readColon (h : readColon s = .ok r) :
    ∃ b, Blank b ∧ s = b ++ Byte.colon :: r := by
  unfold readColon at h
  split at h
  · cases h
  · next c t hs =>
    split at h
    · next hc =>
      cases h
      obtain ⟨-, b, hb, rfl⟩ := skipBlanks_eq_cons_iff.mp hs
      exact ⟨b, hb, by rw [hc]⟩
    · cases h

/-- A key, a colon and a value are a member. -/
theorem padded_member {V : Bytes → Prop} {k p : Bytes} (hk : IsString k) (ha : Blank a)
    (hp : Padded V p) : Padded (Member IsString V) (k ++ (a ++ Byte.colon :: p)) := by
  cases hp with
  | @blanks b s b' hb hs hb' =>
    have hmember : Padded (Member IsString V) (k ++ (a ++ Byte.colon :: (b ++ s))) :=
      .self (.colon hk ha hb hs)
    simpa using hmember.append_blank hb'

/-- The members that are read are keys, colons and values, up to the closing bracket. -/
theorem between_of_foldMembers {member : σ → String → Bytes → Except Fault (σ × Bytes)}
    (hmember : ∀ x key s y r, member x key s = .ok (y, r) →
      ∃ b u a, Blank b ∧ s = b ++ Byte.colon :: u ∧ Between (Padded (P a)) u r)
    {x y : σ} (h : foldMembers member true x s = .ok (y, t))
    (hend : readEnd (objectEnd t) = .ok r) :
    ∃ xs, Between (fun t => Membered (fun a => Member IsString (P a)) xs (Byte.openObject :: t))
      s r := by
  have hitem (x : σ) (s : Bytes) (y : σ) (r : Bytes) (hbegins : ∃ t, s = Byte.quote :: t)
      (h : keyThen member x s = .ok (y, r)) :
      ∃ a, Between (Padded (Member IsString (P a))) s r := by
    obtain ⟨s, rfl⟩ := hbegins
    obtain ⟨⟨key, u⟩, hkey, hone⟩ := bind_eq_ok_iff.mp h
    obtain ⟨k, hk, rfl⟩ := between_of_skipString (skipString_of_readString hkey)
    obtain ⟨b, u, a, hb, rfl, p, hp, rfl⟩ := hmember x key _ y r hone
    exact ⟨a, Byte.quote :: k ++ (b ++ Byte.colon :: p), padded_member hk hb hp, by simp⟩
  obtain ⟨xs, hxs⟩ := (unrolls_foldMembers member).remaining hitem h
    (skipBlanks_of_readEnd_objectEnd hend)
  exact ⟨xs, hxs.enclosed Byte.openObject⟩

/-- The items that are read stand between brackets, but for the opening one. -/
theorem between_of_readList {β : Type} {item : Scan β} {xs : List β}
    (hitem : ∀ s x r, item s = .ok (x, r) → ∃ a, Between (Padded (P a)) s r)
    (h : readList item s = .ok (xs, r)) :
    ∃ xs, Between (fun t => Listed P xs (Byte.openList :: t)) s r := by
  obtain ⟨⟨ys, u⟩, hfold, h⟩ := bind_eq_ok_iff.mp h
  obtain ⟨v, hend, h⟩ := bind_eq_ok_iff.mp h
  cases h
  have hclosed := skipBlanks_of_readEnd_listEnd hend
  refine ((unrolls_foldItems _).remaining (fun ys s zs r _ h => ?_) hfold hclosed).imp
    fun xs hxs => hxs.enclosed Byte.openList
  obtain ⟨⟨x, r⟩, hread, h⟩ := bind_eq_ok_iff.mp h
  cases h
  exact hitem s x r hread

theorem between_of_readMembers {β : Type} {value : Scan β} {ms : List (String × β)}
    (hvalue : ∀ s x r, value s = .ok (x, r) → ∃ a, Between (Padded (P a)) s r)
    (h : readMembers value s = .ok (ms, r)) :
    ∃ xs, Between (fun t => Membered (fun a => Member IsString (P a)) xs (Byte.openObject :: t))
      s r := by
  obtain ⟨⟨ys, u⟩, hfold, h⟩ := bind_eq_ok_iff.mp h
  obtain ⟨v, hend, h⟩ := bind_eq_ok_iff.mp h
  cases h
  refine between_of_foldMembers (fun x key s y r h => ?_) hfold hend
  obtain ⟨u, hcolon, h⟩ := bind_eq_ok_iff.mp h
  obtain ⟨⟨x, r⟩, hone, h⟩ := bind_eq_ok_iff.mp h
  cases h
  obtain ⟨b, hb, rfl⟩ := exists_of_readColon hcolon
  obtain ⟨a, ha⟩ := hvalue u x r hone
  exact ⟨b, u, a, hb, rfl, ha⟩

end Loops

/-! ### Brackets nobody asked for -/

/-- The items that are passed over have commas between them, up to the closing bracket. -/
theorem separated_of_skipItems {α : Type} {P : α → Bytes → Prop} {bracket : Bracket}
    {item : Bytes → Except Fault Bytes}
    (hitem : ∀ s r, item s = .ok r → ∃ a, Between (Padded (P a)) s r)
    (h : skipItems bracket item s = .ok r) :
    ∃ xs t, Separated P xs t ∧ s = t ++ bracket.close :: r := by
  fun_induction skipItems bracket item s with
  | case1 => cases h
  | case2 => cases h
  | case3 s u hone t hu =>
    cases h
    obtain ⟨a, p, hp, rfl⟩ := hitem _ _ hone
    obtain ⟨-, b, hb, rfl⟩ := skipBlanks_eq_cons_iff.mp hu
    exact ⟨[a], p ++ b, .one (hp.append_blank hb), by simp⟩
  | case4 => cases h
  | case5 s u hone c t hu hclose hcomma hlt ih =>
    obtain ⟨xs, t, ht, rfl⟩ := ih h
    obtain ⟨a, p, hp, rfl⟩ := hitem _ _ hone
    obtain ⟨-, b, hb, rfl⟩ := skipBlanks_eq_cons_iff.mp hu
    exact ⟨a :: xs, (p ++ b) ++ Byte.comma :: t, .more (hp.append_blank hb) ht,
      by simp [not_not.mp hcomma]⟩
  | case6 => cases h

theorem between_of_skipBracket {α : Type} {P : α → Bytes → Prop} {bracket : Bracket}
    {item : Bytes → Except Fault Bytes}
    (hitem : ∀ s r, item s = .ok r → ∃ a, Between (Padded (P a)) s r)
    (h : skipBracket bracket item s = .ok r) (opening : UInt8) :
    ∃ xs, Between (fun t => Enclosed opening bracket.close P xs (opening :: t)) s r := by
  unfold skipBracket at h
  split at h
  · cases h
  · next c t hs =>
    split at h
    · next hclose =>
      cases h
      obtain ⟨-, b, hb, rfl⟩ := skipBlanks_eq_cons_iff.mp hs
      exact ⟨[], b ++ [bracket.close], .nothing hb, by simp [hclose]⟩
    · obtain ⟨xs, t, ht, rfl⟩ := separated_of_skipItems hitem h
      exact ⟨xs, t ++ [bracket.close], .items ht, by simp⟩

/-! ### Values -/

/-- A JSON value, however deep brackets are nested in it. -/
def IsValue (s : Bytes) : Prop := ∃ depth, IsJson depth s

/-- What a value is, by its first byte. -/
theorem ofByte?_eq_some {start : Start} (h : Start.ofByte? c = some start) :
    match start with
    | .null => c = Byte.ofAscii 'n'
    | .true => c = Byte.ofAscii 't'
    | .false => c = Byte.ofAscii 'f'
    | .number => c = Byte.minus ∨ Byte.isDigit c = true
    | .string => c = Byte.quote
    | .list => c = Byte.openList
    | .object => c = Byte.openObject := by
  unfold Start.ofByte? at h
  repeat' split at h
  all_goals cases h
  all_goals assumption

/-- A value without brackets. -/
def IsPlain (s : Bytes) : Prop :=
  s ∈ [ascii "null", ascii "true", ascii "false"] ∨ IsNumber s ∨ IsString s

theorem IsPlain.isJson (h : IsPlain s) (depth : Nat) : IsJson depth s := by
  unfold IsJson
  exact h.imp id (Or.imp id .inl)

theorem between_of_readWord {word : Bytes}
    (hword : c :: word ∈ [ascii "null", ascii "true", ascii "false"])
    (h : readWord word s = .ok r) : Between IsPlain (c :: s) r :=
  ⟨c :: word, .inl hword, by rw [eq_append_of_readWord h, List.cons_append]⟩

theorem between_of_quote (h : skipString s = .ok r) : Between IsPlain (Byte.quote :: s) r := by
  obtain ⟨t, ht, rfl⟩ := between_of_skipString h
  exact ⟨Byte.quote :: t, .inr (.inr ht), rfl⟩

/-- What is passed over as a value is one without brackets, or begins with a bracket. -/
theorem skipNested_cases {depth : Nat} (h : skipNested depth s = .ok r) :
    Between IsPlain (skipBlanks s) r ∨
    (∃ d t, depth = d + 1 ∧ skipBlanks s = Byte.openList :: t ∧
      skipBracket .list (skipNested d) t = .ok r) ∨
    (∃ d t, depth = d + 1 ∧ skipBlanks s = Byte.openObject :: t ∧
      skipBracket .object (fun s => do skipNested d (← skipKey s)) t = .ok r) := by
  rw [skipNested.eq_def] at h
  split at h
  · cases h
  · next c t hs =>
    rw [hs]
    split at h
    case h_1 => cases h
    case h_2 hc => exact .inl (ofByte?_eq_some hc ▸ between_of_readWord (by decide) h)
    case h_3 hc => exact .inl (ofByte?_eq_some hc ▸ between_of_readWord (by decide) h)
    case h_4 hc => exact .inl (ofByte?_eq_some hc ▸ between_of_readWord (by decide) h)
    case h_5 => exact .inl ((between_of_skipNumeral h).imp fun _ ht => .inr (.inl ht))
    case h_6 hc => exact .inl (ofByte?_eq_some hc ▸ between_of_quote h)
    case h_7 hc =>
      split at h
      · cases h
      · exact .inr (.inl ⟨_, t, rfl, by rw [ofByte?_eq_some hc], h⟩)
    case h_8 hc =>
      split at h
      · cases h
      · exact .inr (.inr ⟨_, t, rfl, by rw [ofByte?_eq_some hc], h⟩)

/-- A key that is passed over is a string, with a colon behind it. -/
theorem exists_of_skipKey (h : skipKey s = .ok r) :
    ∃ b k a, Blank b ∧ IsString k ∧ Blank a ∧ s = b ++ (k ++ (a ++ Byte.colon :: r)) := by
  unfold skipKey at h
  split at h
  · cases h
  · next c t hs =>
    split at h
    · next hc =>
      obtain ⟨u, hkey, hcolon⟩ := bind_eq_ok_iff.mp h
      obtain ⟨-, b, hb, rfl⟩ := skipBlanks_eq_cons_iff.mp hs
      obtain ⟨k, hk, rfl⟩ := between_of_skipString hkey
      obtain ⟨a, ha, rfl⟩ := exists_of_readColon hcolon
      exact ⟨b, Byte.quote :: k, a, hb, hk, ha, by rw [hc, List.cons_append]⟩
    · cases h

/-- An opening bracket stands in front of what is passed over behind it. -/
theorem Between.of_opening {P : Bytes → Prop} (h : Between (fun t => P (opening :: t)) t r)
    (hs : skipBlanks s = opening :: t) : Between (Padded P) s r := by
  refine .of_skipBlanks ?_
  obtain ⟨u, hu, rfl⟩ := h
  exact ⟨opening :: u, hu, by rw [hs, List.cons_append]⟩

theorem isJson_of_listed {depth : Nat} {items : List Unit}
    (h : Listed (fun _ => IsJson depth) items s) : IsJson (depth + 1) s := by
  rw [IsJson]
  exact .inr (.inr (.inr (.inl ⟨items, h⟩)))

theorem isJson_of_membered {depth : Nat} {members : List Unit}
    (h : Membered (fun _ => Member IsString (IsJson depth)) members s) : IsJson (depth + 1) s := by
  rw [IsJson]
  exact .inr (.inr (.inr (.inr ⟨members, h⟩)))

/-- What is passed over as a value is one, with blanks in front of it. -/
theorem between_of_skipNested {depth : Nat} (h : skipNested depth s = .ok r) :
    Between (Padded (IsJson depth)) s r := by
  induction depth generalizing s r with
  | zero =>
    obtain h | ⟨d, t, hd, -⟩ | ⟨d, t, hd, -⟩ := skipNested_cases h
    · exact .of_skipBlanks (h.imp fun _ ht => ht.isJson 0)
    · omega
    · omega
  | succ depth ih =>
    obtain h | ⟨_, t, ⟨rfl⟩, hs, h⟩ | ⟨_, t, ⟨rfl⟩, hs, h⟩ := skipNested_cases h
    · exact .of_skipBlanks (h.imp fun _ ht => ht.isJson _)
    · obtain ⟨xs, hxs⟩ := between_of_skipBracket (P := fun _ : Unit => IsJson depth)
        (fun s r h => ⟨(), ih h⟩) h Byte.openList
      exact (hxs.imp fun _ ht => isJson_of_listed ht).of_opening hs
    · have hmember (s r : Bytes) (h : (do skipNested depth (← skipKey s)) = .ok r) :
          Between (Padded (Member IsString (IsJson depth))) s r := by
        obtain ⟨u, hkey, hvalue⟩ := bind_eq_ok_iff.mp h
        obtain ⟨b, k, a, hb, hk, ha, rfl⟩ := exists_of_skipKey hkey
        obtain ⟨p, hp, rfl⟩ := ih hvalue
        exact ⟨b ++ (k ++ (a ++ Byte.colon :: p)), (padded_member hk ha hp).blank_append hb,
          by simp⟩
      obtain ⟨xs, hxs⟩ := between_of_skipBracket
        (P := fun _ : Unit => Member IsString (IsJson depth))
        (fun s r h => ⟨(), hmember s r h⟩) h Byte.openObject
      exact (hxs.imp fun _ ht => isJson_of_membered ht).of_opening hs

theorem between_of_skipValue (h : skipValue s = .ok r) : Between (Padded IsValue) s r :=
  (between_of_skipNested h).imp fun _ ht => ht.imp fun _ ht => ⟨_, ht⟩

/-- What is found is a value without brackets, or it is a bracket in front of which nothing has been
read. -/
theorem readFound_cases {found : Found} (h : readFound s = .ok (found, r)) :
    (∃ x, found.value? = some x ∧ Between IsPlain s r) ∨
    (found = .list ∧ r = s ∧ ∃ t, s = Byte.openList :: t) ∨
    (found = .object ∧ r = s ∧ ∃ t, s = Byte.openObject :: t) := by
  unfold readFound at h
  split at h
  · cases h
  · next c t =>
    split at h
    case h_1 => cases h
    case h_2 hc =>
      obtain ⟨u, h, hu⟩ := bind_eq_ok_iff.mp h
      cases hu
      exact .inl ⟨_, rfl, ofByte?_eq_some hc ▸ between_of_readWord (by decide) h⟩
    case h_3 hc =>
      obtain ⟨u, h, hu⟩ := bind_eq_ok_iff.mp h
      cases hu
      exact .inl ⟨_, rfl, ofByte?_eq_some hc ▸ between_of_readWord (by decide) h⟩
    case h_4 hc =>
      obtain ⟨u, h, hu⟩ := bind_eq_ok_iff.mp h
      cases hu
      exact .inl ⟨_, rfl, ofByte?_eq_some hc ▸ between_of_readWord (by decide) h⟩
    case h_5 =>
      obtain ⟨⟨n, u⟩, h, hu⟩ := bind_eq_ok_iff.mp h
      cases hu
      exact .inl ⟨_, rfl,
        (between_of_skipNumeral (skipNumeral_of_readNumber h)).imp fun _ ht => .inr (.inl ht)⟩
    case h_6 hc =>
      obtain ⟨⟨x, u⟩, h, hu⟩ := bind_eq_ok_iff.mp h
      cases hu
      exact .inl ⟨_, rfl,
        ofByte?_eq_some hc ▸ between_of_quote (skipString_of_readString h)⟩
    case h_7 hc =>
      cases h
      exact .inr (.inl ⟨rfl, rfl, t, by rw [ofByte?_eq_some hc]⟩)
    case h_8 hc =>
      cases h
      exact .inr (.inr ⟨rfl, rfl, t, by rw [ofByte?_eq_some hc]⟩)

/-- What is read as a value is what is found, or what is read behind an opening bracket. -/
theorem readValue_cases {depth : Nat} {x : Value} (h : readValue depth s = .ok (x, r)) :
    (∃ found : Found, found.value? = some x ∧ readFound (skipBlanks s) = .ok (found, r) ∧
      Between IsPlain (skipBlanks s) r) ∨
    (∃ d t items, depth = d + 1 ∧ x = .array items ∧ skipBlanks s = Byte.openList :: t ∧
      readList (readValue d) t = .ok (items, r)) ∨
    (∃ d t ms, depth = d + 1 ∧ x = .object (sortMembers ms) ∧
      skipBlanks s = Byte.openObject :: t ∧ readMembers (readValue d) t = .ok (ms, r)) := by
  have hread := h
  rw [readValue.eq_def] at h
  obtain ⟨⟨found, u⟩, hfound, h⟩ := bind_eq_ok_iff.mp h
  obtain ⟨y, hvalue, hu⟩ | ⟨rfl, rfl, t, hs⟩ | ⟨rfl, rfl, t, hs⟩ := readFound_cases hfound
  · rw [readValue_of_value? hvalue hfound] at hread
    cases hread
    exact .inl ⟨found, hvalue, hfound, hu⟩
  · cases depth with
    | zero => cases h
    | succ d =>
      obtain ⟨⟨items, v⟩, hlist, h⟩ := bind_eq_ok_iff.mp h
      cases h
      rw [hs, List.drop_one, List.tail_cons] at hlist
      exact .inr (.inl ⟨d, t, items, rfl, rfl, hs, hlist⟩)
  · cases depth with
    | zero => cases h
    | succ d =>
      obtain ⟨⟨ms, v⟩, hobject, h⟩ := bind_eq_ok_iff.mp h
      cases h
      rw [hs, List.drop_one, List.tail_cons] at hobject
      exact .inr (.inr ⟨d, t, ms, rfl, rfl, hs, hobject⟩)

/-- What is read as a value is one, with blanks in front of it. -/
theorem between_of_readValue {depth : Nat} {x : Value} (h : readValue depth s = .ok (x, r)) :
    Between (Padded (IsJson depth)) s r := by
  induction depth generalizing s x r with
  | zero =>
    obtain ⟨found, -, -, hu⟩ | ⟨d, t, items, hd, -⟩ | ⟨d, t, ms, hd, -⟩ := readValue_cases h
    · exact .of_skipBlanks (hu.imp fun _ ht => ht.isJson 0)
    · omega
    · omega
  | succ depth ih =>
    obtain ⟨found, -, -, hu⟩ | ⟨_, t, items, ⟨rfl⟩, -, hs, hlist⟩ |
      ⟨_, t, ms, ⟨rfl⟩, -, hs, hobject⟩ := readValue_cases h
    · exact .of_skipBlanks (hu.imp fun _ ht => ht.isJson _)
    · obtain ⟨xs, hxs⟩ := between_of_readList (P := fun _ : Unit => IsJson depth)
        (fun s x r h => ⟨(), ih h⟩) hlist
      exact (hxs.imp fun _ ht => isJson_of_listed ht).of_opening hs
    · obtain ⟨xs, hxs⟩ := between_of_readMembers (P := fun _ : Unit => IsJson depth)
        (fun s x r h => ⟨(), ih h⟩) hobject
      exact (hxs.imp fun _ ht => isJson_of_membered ht).of_opening hs

/-! ### Whole documents -/

/-- A document is read exactly if what it holds is, with nothing but blanks behind it. -/
theorem readWhole_eq_ok_iff {α : Type} {value : Scan α} {x : α} :
    readWhole value s = .ok x ↔ ∃ r, value s = .ok (x, r) ∧ Blank r := by
  have hend (r : Bytes) : skipBlanks r = [] ↔ Blank r := by
    simp only [skipBlanks, List.dropWhile_eq_nil_iff, Blank]
    simp [Byte.isBlank, or_assoc]
  unfold readWhole
  cases value s with
  | error e => simp [bind, Except.bind, Except.mapError]
  | ok p =>
    obtain ⟨y, r⟩ := p
    simp only [bind, Except.bind, Except.ok.injEq, Prod.mk.injEq]
    split
    · next hr =>
      simp only [Except.mapError, Except.ok.injEq]
      constructor
      · intro h
        exact ⟨r, ⟨h, rfl⟩, (hend r).mp hr⟩
      · rintro ⟨_, ⟨h, -⟩, -⟩
        exact h
    · next hr =>
      simp only [Except.mapError, reduceCtorEq, false_iff]
      rintro ⟨_, ⟨-, rfl⟩, h⟩
      exact hr ((hend r).mpr h)

end Telemetry.Json
