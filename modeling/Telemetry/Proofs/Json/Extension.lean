import Telemetry.Proofs.Json.Literals
import Telemetry.Proofs.Json.Unique

/-!
# More bytes at the end

A reader looks no further than to the byte behind what it reads. So whatever it has read it reads
again if there are more bytes at the end, and these are then left over with the others: if `f s` is
`(x, r)`, then `f (s ++ t)` is `(x, r ++ t)`.

What has an end of its own, as a string or what stands between brackets, needs nothing for that. A
number goes on as long as it can. There `r ++ t` has to be something that may follow a value, which
is what `Extends` asks for, and between brackets it always is: a loop over items has found a comma
or the closing bracket there (`Unrolls.follows`).
-/

namespace Telemetry.Json

variable {s r t u : Bytes} {c : UInt8}

/-! ### What follows -/

/-- What may follow a value may do so without the bytes at its end. -/
theorem Follows.of_append (h : Follows (r ++ t)) : Follows r := by
  cases r with
  | nil => exact fun _ hb => nomatch hb
  | cons b r => exact h

/-- A reader of values reads the same with more bytes at the end, unless these go on with it. -/
def Extends {α : Type} (f : Scan α) : Prop :=
  ∀ s x r t, f s = .ok (x, r) → Follows (r ++ t) → f (s ++ t) = .ok (x, r ++ t)

theorem skipBlanks_extend (h : skipBlanks s = c :: r) (t : Bytes) :
    skipBlanks (s ++ t) = c :: (r ++ t) := by
  obtain ⟨hc, b, hb, rfl⟩ := skipBlanks_eq_cons_iff.mp h
  rw [List.append_assoc, List.cons_append, skipBlanks_append_cons hb hc]

/-! ### Words, strings and numbers -/

theorem readWord_extend {word : Bytes} (h : readWord word s = .ok r) (t : Bytes) :
    readWord word (s ++ t) = .ok (r ++ t) := by
  rw [eq_append_of_readWord h, List.append_assoc, readWord_append]

theorem readHex_extend {n : Nat} (h : readHex s = .ok (n, r)) (t : Bytes) :
    readHex (s ++ t) = .ok (n, r ++ t) := by
  obtain ⟨ds, hds, rfl⟩ := between_of_readHex h
  rw [List.append_assoc, readHex_of_spells hds]

theorem readPairMark_extend (h : readPairMark s = .ok r) (t : Bytes) :
    readPairMark (s ++ t) = .ok (r ++ t) := by
  unfold readPairMark at h
  split at h
  · cases h
  · split at h
    · cases h
    · next hb =>
      split at h
      · cases h
      · split at h
        · next hu =>
          cases h
          rw [not_not.mp hb, hu]
          rfl
        · cases h

theorem readNumberEscape_extend {x : Char} (h : readNumberEscape s = .ok (x, r)) (t : Bytes) :
    readNumberEscape (s ++ t) = .ok (x, r ++ t) := by
  unfold readNumberEscape at h ⊢
  obtain ⟨⟨n, u⟩, hhigh, h⟩ := bind_eq_ok_iff.mp h
  refine bind_eq_ok_iff.mpr ⟨(n, u ++ t), readHex_extend hhigh t, ?_⟩
  dsimp only at h ⊢
  split at h
  · cases h
  · next hlow =>
    rw [if_neg hlow]
    split at h
    · next hpair =>
      rw [if_pos hpair]
      obtain ⟨v, hmark, h⟩ := bind_eq_ok_iff.mp h
      obtain ⟨⟨m, w⟩, hlast, h⟩ := bind_eq_ok_iff.mp h
      refine bind_eq_ok_iff.mpr ⟨v ++ t, readPairMark_extend hmark t,
        bind_eq_ok_iff.mpr ⟨(m, w ++ t), readHex_extend hlast t, ?_⟩⟩
      dsimp only at h ⊢
      split at h
      · next hm =>
        obtain ⟨rfl, rfl⟩ := Prod.mk.inj (Except.ok.inj h)
        rw [if_pos hm]
      · cases h
    · next hpair =>
      cases h
      rw [if_neg hpair]

theorem readEscape_extend {bs : Bytes} (h : readEscape s = .ok (bs, r)) (t : Bytes) :
    readEscape (s ++ t) = .ok (bs, r ++ t) := by
  unfold readEscape at h
  split at h
  · cases h
  · next b s =>
    rw [List.cons_append, readEscape]
    split at h
    · next hb =>
      rw [if_pos hb]
      split at h
      · cases h
      · next hnumber =>
        cases h
        rw [readNumberEscape_extend hnumber t]
    · next hb =>
      rw [if_neg hb]
      split at h
      · cases h
        rfl
      · cases h

/-- The bytes of a string are read up to its closing quote. -/
theorem readStringBytes_extend {bs : Bytes} (h : readStringBytes s = .ok (bs, r)) (t : Bytes) :
    readStringBytes (s ++ t) = .ok (bs, r ++ t) := by
  have hmap {x : Except Fault (Bytes × Bytes)} {p bs : Bytes}
      (h : x.map (fun q => (p ++ q.1, q.2)) = .ok (bs, r)) :
      ∃ cs, x = .ok (cs, r) ∧ bs = p ++ cs := by
    cases x with
    | error e => cases h
    | ok q =>
      cases h
      exact ⟨q.1, rfl, rfl⟩
  fun_induction readStringBytes s generalizing bs with
  | case1 => cases h
  | case2 s =>
    cases h
    rw [List.cons_append, readStringBytes, if_pos rfl]
  | case3 => cases h
  | case4 s bs' u hescape _ _ ih =>
    obtain ⟨cs, hcs, rfl⟩ := hmap h
    rw [List.cons_append, readStringBytes_escape (readEscape_extend hescape t), ih hcs]
    rfl
  | case5 => cases h
  | case6 b s hquote hbackslash hcontrol ih =>
    obtain ⟨cs, hcs, rfl⟩ := hmap (p := [b]) h
    rw [List.cons_append, readStringBytes, if_neg hquote, if_neg hbackslash, if_neg hcontrol,
      ih hcs]
    rfl

theorem readString_extend {text : String} (h : readString s = .ok (text, r)) (t : Bytes) :
    readString (s ++ t) = .ok (text, r ++ t) := by
  unfold readString at h
  split at h
  · cases h
  · next bs u hbytes =>
    split at h
    · next cs hdecode =>
      cases h
      rw [readString, readStringBytes_extend hbytes t]
      simp only [hdecode]
    · cases h

theorem extends_readNumber : Extends readNumber := by
  intro s n r t h ht
  obtain ⟨w, hw, rfl⟩ := between_of_skipNumeral (skipNumeral_of_readNumber h)
  -- what comes of a numeral does not depend on what stands behind it
  obtain ⟨outcome, -, hyields⟩ := hw.exists_outcome
  have hbefore := hyields r ht.of_append
  rw [h] at hbefore
  rw [List.append_assoc]
  cases outcome with
  | error cause =>
    obtain ⟨_, hfault, -⟩ := hbefore
    cases hfault
  | ok m =>
    cases hbefore
    exact hyields (r ++ t) ht

/-! ### What is found -/

/-- What is found in front of more bytes is the same, a bracket in any case. -/
theorem readFound_extend {found : Found} (h : readFound (skipBlanks s) = .ok (found, r))
    (ht : found.value?.isSome = true → Follows (r ++ t)) :
    readFound (skipBlanks (s ++ t)) = .ok (found, r ++ t) := by
  cases hs : skipBlanks s with
  | nil =>
    rw [hs] at h
    cases h
  | cons c u =>
    rw [skipBlanks_extend hs]
    rw [hs] at h
    unfold readFound at h ⊢
    dsimp only at h ⊢
    split at h
    case h_1 => cases h
    -- words, then numbers and strings; in front of a bracket nothing is read
    case h_2 | h_3 | h_4 =>
      obtain ⟨v, hword, h⟩ := bind_eq_ok_iff.mp h
      cases h
      exact bind_eq_ok_iff.mpr ⟨_, readWord_extend hword t, rfl⟩
    case h_5 =>
      obtain ⟨⟨n, v⟩, hnumber, h⟩ := bind_eq_ok_iff.mp h
      cases h
      exact bind_eq_ok_iff.mpr ⟨_, extends_readNumber _ n _ t hnumber (ht rfl), rfl⟩
    case h_6 =>
      obtain ⟨⟨x, v⟩, hstring, h⟩ := bind_eq_ok_iff.mp h
      cases h
      exact bind_eq_ok_iff.mpr ⟨_, readString_extend hstring t, rfl⟩
    case h_7 | h_8 =>
      cases h
      rfl

/-! ### Between brackets -/

theorem readColon_extend (h : readColon s = .ok r) (t : Bytes) :
    readColon (s ++ t) = .ok (r ++ t) := by
  obtain ⟨b, hb, rfl⟩ := exists_of_readColon h
  rw [List.append_assoc, List.cons_append, readColon_append hb]

theorem readEnd_listEnd_extend (h : readEnd (listEnd s) = .ok r) (t : Bytes) :
    readEnd (listEnd (s ++ t)) = .ok (r ++ t) := by
  rw [listEnd, skipBlanks_extend (skipBlanks_of_readEnd_listEnd h)]
  rfl

theorem readEnd_objectEnd_extend (h : readEnd (objectEnd s) = .ok r) (t : Bytes) :
    readEnd (objectEnd (s ++ t)) = .ok (r ++ t) := by
  rw [objectEnd, skipBlanks_extend (skipBlanks_of_readEnd_objectEnd h)]
  rfl

theorem nextItem_extend {first : Bool} {next : Option Bytes} (h : nextItem first s = .ok next)
    (t : Bytes) : nextItem first (s ++ t) = .ok (next.map (· ++ t)) := by
  unfold nextItem at h ⊢
  split at h
  · cases h
  · next b u hs =>
    rw [skipBlanks_extend hs]
    dsimp only
    split_ifs at h ⊢ with hclose hfirst hcomma
    · cases h
      rfl
    · cases h
      rfl
    · split at h
      · cases h
      · next b' u' hs' =>
        rw [skipBlanks_extend hs']
        dsimp only
        split_ifs at h ⊢
        cases h
        rfl

theorem nextKey_extend {first : Bool} {next : Option (String × Bytes)}
    (h : nextKey first s = .ok next) (t : Bytes) :
    nextKey first (s ++ t) = .ok (next.map fun p => (p.1, p.2 ++ t)) := by
  have hkey {u : Bytes} (h : (readString u).map some = .ok next) :
      (readString (u ++ t)).map some = .ok (next.map fun p => (p.1, p.2 ++ t)) := by
    cases hread : readString u with
    | error e =>
      rw [hread] at h
      cases h
    | ok p =>
      rw [hread] at h
      cases h
      rw [readString_extend hread t]
      rfl
  unfold nextKey at h ⊢
  split at h
  · cases h
  · next b u hs =>
    rw [skipBlanks_extend hs]
    dsimp only
    split_ifs at h ⊢ with hclose hfirst hquote hcomma
    · cases h
      rfl
    · exact hkey h
    · split at h
      · cases h
      · next b' u' hs' =>
        rw [skipBlanks_extend hs']
        dsimp only
        split_ifs at h ⊢
        exact hkey h

/-- In front of a comma or a closing bracket a value may end, with blanks behind it or none. -/
theorem follows_of_skipBlanks (h : skipBlanks s = c :: r)
    (hc : c ∈ [Byte.comma, Byte.closeList, Byte.closeObject]) (t : Bytes) : Follows (s ++ t) := by
  obtain ⟨-, b, hb, rfl⟩ := skipBlanks_eq_cons_iff.mp h
  rw [List.append_assoc]
  exact (follows_cons hc (r ++ t)).append hb

theorem Lead.follows (h : Lead false s) (t : Bytes) : Follows (s ++ t) := by
  obtain ⟨a, b, ha, -, rfl⟩ := h
  rw [List.append_assoc]
  exact (follows_cons (c := Byte.comma) (by decide) (b ++ t)).append ha

/-- Where a loop over items goes on, the item in front of that may end. -/
theorem Unrolls.follows {σ : Type} {closing : UInt8} {Begins : Bytes → Prop}
    {item : σ → Bytes → Except Fault (σ × Bytes)}
    {loop : Bool → σ → Bytes → Except Fault (σ × Bytes)} (h : Unrolls closing Begins item loop)
    (hclosing : closing ∈ [Byte.comma, Byte.closeList, Byte.closeObject]) {x y : σ}
    (hloop : loop false x s = .ok (y, r)) (t : Bytes) : Follows (s ++ t) := by
  obtain ⟨rfl, u, hu⟩ | ⟨lead, u, -, -, hlead, rfl, -⟩ := h false x s y r hloop
  · exact follows_of_skipBlanks hu hclosing t
  · rw [List.append_assoc]
    exact hlead.follows (u ++ t)

section Loops

variable {σ α : Type}

theorem foldItems_extend {item : σ → Bytes → Except Fault (σ × Bytes)}
    (hitem : ∀ x, Extends (item x)) {first : Bool} {x y : σ}
    (h : foldItems item first x s = .ok (y, r)) (t : Bytes) :
    foldItems item first x (s ++ t) = .ok (y, r ++ t) := by
  fun_induction foldItems item first x s with
  | case1 => cases h
  | case2 first x s hnext =>
    cases h
    rw [foldItems, nextItem_extend hnext]
    rfl
  | case3 => cases h
  | case4 first x s u hnext z v hone hlt ih =>
    -- the loop goes on behind the item at a comma or at the closing bracket
    have hfollows := (unrolls_foldItems item).follows (by decide) h t
    rw [foldItems, nextItem_extend hnext]
    simp only [Option.map_some, hitem x u z _ t hone hfollows, List.length_append]
    rw [if_pos (by omega)]
    exact ih h
  | case5 => cases h

theorem foldMembers_extend {member : σ → String → Bytes → Except Fault (σ × Bytes)}
    (hmember : ∀ x key, Extends (member x key)) {first : Bool} {x y : σ}
    (h : foldMembers member first x s = .ok (y, r)) (t : Bytes) :
    foldMembers member first x (s ++ t) = .ok (y, r ++ t) := by
  fun_induction foldMembers member first x s with
  | case1 => cases h
  | case2 first x s hnext =>
    cases h
    rw [foldMembers, nextKey_extend hnext]
    rfl
  | case3 => cases h
  | case4 first x s key u hnext z v hone hlt ih =>
    have hfollows := (unrolls_foldMembers member).follows (by decide) h t
    rw [foldMembers, nextKey_extend hnext]
    simp only [Option.map_some, hmember x key u z _ t hone hfollows, List.length_append]
    rw [if_pos (by omega)]
    exact ih h
  | case5 => cases h

/-- A list ends with its bracket, whatever stands behind it. -/
theorem readList_extend {item : Scan α} (hitem : Extends item) {xs : List α}
    (h : readList item s = .ok (xs, r)) (t : Bytes) :
    readList item (s ++ t) = .ok (xs, r ++ t) := by
  obtain ⟨⟨ys, u⟩, hfold, h⟩ := bind_eq_ok_iff.mp h
  obtain ⟨v, hend, h⟩ := bind_eq_ok_iff.mp h
  cases h
  refine bind_eq_ok_iff.mpr ⟨(ys, u ++ t), foldItems_extend (fun xs s ys r t h ht => ?_) hfold t,
    bind_eq_ok_iff.mpr ⟨r ++ t, readEnd_listEnd_extend hend t, rfl⟩⟩
  obtain ⟨⟨x, w⟩, hone, h⟩ := bind_eq_ok_iff.mp h
  cases h
  exact bind_eq_ok_iff.mpr ⟨(x, r ++ t), hitem s x r t hone ht, rfl⟩

theorem readMembers_extend {value : Scan α} (hvalue : Extends value) {ms : List (String × α)}
    (h : readMembers value s = .ok (ms, r)) (t : Bytes) :
    readMembers value (s ++ t) = .ok (ms, r ++ t) := by
  obtain ⟨⟨ns, u⟩, hfold, h⟩ := bind_eq_ok_iff.mp h
  obtain ⟨v, hend, h⟩ := bind_eq_ok_iff.mp h
  cases h
  refine bind_eq_ok_iff.mpr ⟨(ns, u ++ t),
    foldMembers_extend (fun ms key s ns r t h ht => ?_) hfold t,
    bind_eq_ok_iff.mpr ⟨r ++ t, readEnd_objectEnd_extend hend t, rfl⟩⟩
  obtain ⟨w, hcolon, h⟩ := bind_eq_ok_iff.mp h
  obtain ⟨⟨x, w'⟩, hone, h⟩ := bind_eq_ok_iff.mp h
  cases h
  exact bind_eq_ok_iff.mpr ⟨w ++ t, readColon_extend hcolon t,
    bind_eq_ok_iff.mpr ⟨(x, r ++ t), hvalue w x r t hone ht, rfl⟩⟩

end Loops

/-! ### Values -/

theorem extends_readValue (depth : Nat) : Extends (readValue depth) := by
  induction depth with
  | zero =>
    intro s x r t h ht
    obtain ⟨found, hvalue, hfound, -⟩ | ⟨d, u, items, hd, -⟩ | ⟨d, u, ms, hd, -⟩ :=
      readValue_cases h
    · exact readValue_of_value? hvalue (readFound_extend hfound fun _ => ht) 0
    · omega
    · omega
  | succ depth ih =>
    intro s x r t h ht
    obtain ⟨found, hvalue, hfound, -⟩ | ⟨_, u, items, ⟨rfl⟩, rfl, hs, hlist⟩ |
      ⟨_, u, ms, ⟨rfl⟩, rfl, hs, hobject⟩ := readValue_cases h
    · exact readValue_of_value? hvalue (readFound_extend hfound fun _ => ht) _
    · exact readValue_of_list (skipBlanks_extend hs t) (readList_extend ih hlist t)
    · exact readValue_of_object (skipBlanks_extend hs t) (readMembers_extend ih hobject t)

/-- A value that is passed over ends where it did. -/
theorem skipValue_extend (h : skipValue s = .ok r) (ht : Follows (r ++ t)) :
    skipValue (s ++ t) = .ok (r ++ t) := by
  obtain ⟨_, ⟨ha, ⟨depth, hv⟩, hb⟩, rfl⟩ := between_of_skipValue h
  have hagain (rest : Bytes) (hrest : Follows rest) := skipValue_of_isJson hv ha (hrest.append hb)
  have hbefore := hagain r ht.of_append
  simp only [List.append_assoc] at h hbefore ⊢
  rw [hbefore] at h
  -- blanks behind the value are not passed over with it, so there are none
  have hblank := List.self_eq_append_left.mp (Except.ok.inj h).symm
  rw [hagain (r ++ t) ht, hblank]
  rfl

end Telemetry.Json
