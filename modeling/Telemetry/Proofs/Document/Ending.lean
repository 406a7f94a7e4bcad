import Telemetry.Proofs.Document.Shape
import Telemetry.Proofs.Json.Extension

/-!
# Where documents end

A document ends with the closing bracket of its object. Behind that stand blanks and nothing else
(`Document.read?_append_iff`): a text that is cut off before that is malformed, wherever it is cut,
and so is one that goes on with anything else.

Reading the text with more at its end takes the same way up to the closing bracket, in each of the
readers for the parts of a definition. At the bracket nothing has been seen of what follows.
-/

namespace Telemetry

open Json

variable {s t r u : Bytes}

/-! ### Members of definitions -/

theorem extends_readId : Extends readId := by
  intro s x r t h ht
  obtain ⟨rfl, hfound⟩ | ⟨n, rfl, hfound⟩ := readId_eq_ok_iff.mp h
  · exact readId_eq_ok_iff.mpr (.inl ⟨rfl, readFound_extend hfound fun _ => ht⟩)
  · exact readId_eq_ok_iff.mpr (.inr ⟨n, rfl, readFound_extend hfound fun _ => ht⟩)

theorem extends_readBundle : Extends readBundle := fun _ _ _ _ h ht =>
  readBundle_eq_ok_iff.mpr (readFound_extend (readBundle_eq_ok_iff.mp h) fun _ => ht)

/-- An object is read up to its closing bracket, whatever stands behind that. -/
theorem readOrdered_extend {α : Type} {value : Scan α} (hvalue : Extends value)
    {ms : List (String × α)} (h : readOrdered value s = .ok (ms, r)) (t : Bytes) :
    readOrdered value (s ++ t) = .ok (ms, r ++ t) := by
  obtain ⟨u, hs, h⟩ := readOrdered_eq_ok_iff.mp h
  exact readOrdered_eq_ok_iff.mpr
    ⟨u ++ t, skipBlanks_extend hs t, readMembers_extend hvalue h t⟩

theorem extends_readFields : Extends readFields := fun _ _ _ t h _ =>
  readOrdered_extend (extends_readValue codeDepth) h t

theorem extends_readInto {α : Type} (key : String) (place : Option α) {value : Scan α}
    (hvalue : Extends value) : Extends (Draft.readInto key place value) := by
  intro s x r t h ht
  cases place with
  | some _ => cases h
  | none =>
    obtain ⟨u, hcolon, h⟩ := bind_eq_ok_iff.mp h
    exact bind_eq_ok_iff.mpr ⟨u ++ t, readColon_extend hcolon t, hvalue u x r t h ht⟩

theorem extends_readMember (x : Draft) (key : String) : Extends (x.readMember key) := by
  intro s y r t h ht
  unfold Draft.readMember at h ⊢
  split_ifs at h ⊢
  · obtain ⟨⟨z, u⟩, hinto, h⟩ := bind_eq_ok_iff.mp h
    cases h
    exact bind_eq_ok_iff.mpr
      ⟨(z, r ++ t), extends_readInto _ _ extends_readId s z r t hinto ht, rfl⟩
  · obtain ⟨⟨z, u⟩, hinto, h⟩ := bind_eq_ok_iff.mp h
    cases h
    exact bind_eq_ok_iff.mpr
      ⟨(z, r ++ t), extends_readInto _ _ extends_readBundle s z r t hinto ht, rfl⟩
  · obtain ⟨⟨z, u⟩, hinto, h⟩ := bind_eq_ok_iff.mp h
    cases h
    exact bind_eq_ok_iff.mpr
      ⟨(z, r ++ t), extends_readInto _ _ extends_readFields s z r t hinto ht, rfl⟩
  · obtain ⟨u, hcolon, h⟩ := bind_eq_ok_iff.mp h
    obtain ⟨v, hskip, h⟩ := bind_eq_ok_iff.mp h
    cases h
    exact bind_eq_ok_iff.mpr ⟨u ++ t, readColon_extend hcolon t,
      bind_eq_ok_iff.mpr ⟨r ++ t, skipValue_extend hskip ht, rfl⟩⟩

/-! ### Definitions -/

theorem readObjectDefinition_extend {x : Definition} (h : readObjectDefinition s = .ok (x, r))
    (t : Bytes) : readObjectDefinition (s ++ t) = .ok (x, r ++ t) := by
  obtain ⟨⟨y, u⟩, hfold, h⟩ := bind_eq_ok_iff.mp h
  obtain ⟨v, hend, h⟩ := bind_eq_ok_iff.mp h
  cases h
  exact bind_eq_ok_iff.mpr ⟨(y, u ++ t), foldMembers_extend extends_readMember hfold t,
    bind_eq_ok_iff.mpr ⟨r ++ t, readEnd_objectEnd_extend hend t, rfl⟩⟩

/-- What stands in front of another item, or of the end of a list, may follow a value. -/
theorem follows_of_nextItem {next : Option Bytes} (h : nextItem false s = .ok next) (t : Bytes) :
    Follows (s ++ t) := by
  cases next with
  | none =>
    obtain ⟨u, hu⟩ := of_nextItem_eq_none h
    exact follows_of_skipBlanks hu (by decide) t
  | some u =>
    obtain ⟨lead, hlead, rfl⟩ := of_nextItem_eq_some h
    rw [List.append_assoc]
    exact hlead.follows (u ++ t)

/-- An item that may be left out is read again, and so is that there is none. -/
theorem readItemOr_extend {α : Type} {default x : α} {item : Scan α} (hitem : Extends item)
    (h : readItemOr default item s = .ok (x, r)) (ht : Follows (r ++ t)) :
    Follows (s ++ t) ∧ readItemOr default item (s ++ t) = .ok (x, r ++ t) := by
  obtain ⟨next, hnext, h⟩ := bind_eq_ok_iff.mp h
  refine ⟨follows_of_nextItem hnext t, bind_eq_ok_iff.mpr ⟨_, nextItem_extend hnext t, ?_⟩⟩
  cases next with
  | none =>
    cases h
    rfl
  | some u => exact hitem u x r t h ht

theorem readListDefinition_extend {x : Definition} (h : readListDefinition s = .ok (x, r))
    (t : Bytes) : readListDefinition (s ++ t) = .ok (x, r ++ t) := by
  obtain ⟨next, hnext, h⟩ := bind_eq_ok_iff.mp h
  refine bind_eq_ok_iff.mpr ⟨_, nextItem_extend hnext t, ?_⟩
  cases next with
  | none => cases h
  | some s =>
    obtain ⟨⟨id, u⟩, hid, h⟩ := bind_eq_ok_iff.mp h
    obtain ⟨⟨bundle, v⟩, hbundle, h⟩ := bind_eq_ok_iff.mp h
    obtain ⟨⟨fields, w⟩, hfields, h⟩ := bind_eq_ok_iff.mp h
    obtain ⟨r, hend, h⟩ := bind_eq_ok_iff.mp h
    cases h
    have hw := follows_of_skipBlanks (skipBlanks_of_readEnd_listEnd hend) (by decide) t
    obtain ⟨hv, hfields⟩ := readItemOr_extend extends_readFields hfields hw
    obtain ⟨hu, hbundle⟩ := readItemOr_extend extends_readBundle hbundle hv
    exact bind_eq_ok_iff.mpr ⟨_, extends_readId s id u t hid hu, bind_eq_ok_iff.mpr ⟨_, hbundle,
      bind_eq_ok_iff.mpr ⟨_, hfields, bind_eq_ok_iff.mpr
        ⟨_, readEnd_listEnd_extend hend t, rfl⟩⟩⟩⟩

theorem extends_readDefinition : Extends readDefinition := by
  intro s x r t h _
  obtain ⟨u, hs, h⟩ | ⟨u, hs, h⟩ := readDefinition_eq_ok_iff.mp h
  · exact readDefinition_eq_ok_iff.mpr
      (.inl ⟨u ++ t, skipBlanks_extend hs t, readObjectDefinition_extend h t⟩)
  · exact readDefinition_eq_ok_iff.mpr
      (.inr ⟨u ++ t, skipBlanks_extend hs t, readListDefinition_extend h t⟩)

/-! ### Objects -/

section Items

variable {α β : Type} {P : α → Bytes → Prop} {Q : β → Bytes → Prop} {xs : List α}

theorem Json.Separated.exists_imp (h : Separated P xs s) (hPQ : ∀ x t, P x t → ∃ y, Q y t) :
    ∃ ys, Separated Q ys s := by
  have hpadded {x : α} {s : Bytes} (hx : Padded (P x) s) : ∃ y, Padded (Q y) s := by
    obtain ⟨ha, ht, hb⟩ := hx
    obtain ⟨y, hy⟩ := hPQ x _ ht
    exact ⟨y, .blanks ha hy hb⟩
  induction h with
  | one hx =>
    obtain ⟨y, hy⟩ := hpadded hx
    exact ⟨[y], .one hy⟩
  | more hx _ ih =>
    obtain ⟨y, hy⟩ := hpadded hx
    obtain ⟨ys, hys⟩ := ih
    exact ⟨y :: ys, .more hy hys⟩

/-- Items between brackets are items of another kind if each is one of those. -/
theorem Json.Enclosed.exists_imp {opening closing : UInt8} (h : Enclosed opening closing P xs s)
    (hPQ : ∀ x t, P x t → ∃ y, Q y t) : ∃ ys, Enclosed opening closing Q ys s := by
  cases h with
  | nothing hs => exact ⟨[], .nothing hs⟩
  | items hs =>
    obtain ⟨ys, hys⟩ := hs.exists_imp hPQ
    exact ⟨ys, .items hys⟩

end Items

/-- An object is told from its bytes: it ends where it does, whatever stands behind it. -/
theorem IsObject.append_inj (hs : IsObject s) (ht : IsObject t) (h : s ++ r = t ++ u) :
    s = t ∧ r = u := by
  have hvalues {s : Bytes} (hs : IsObject s) :
      ∃ values, Membered (fun v => Member IsString (IsThe v)) values s := by
    obtain ⟨members, hs⟩ := hs
    refine hs.exists_imp fun _ t ht => ?_
    obtain ⟨hk, ha, hb, hv⟩ := ht
    exact ⟨_, .colon hk ha hb ⟨rfl, hv⟩⟩
  obtain ⟨vs, hvs⟩ := hvalues hs
  obtain ⟨ws, hws⟩ := hvalues ht
  obtain ⟨-, rfl⟩ := values_inj hvs hws h
  exact ⟨List.append_cancel_right h, rfl⟩

namespace Document

theorem isObject_of_read? {d : Document} (h : read? s = .ok d) : Padded IsObject s := by
  obtain ⟨values, hvalues, -⟩ := hasValues_of_read? h
  refine hvalues.imp fun t ht => ?_
  obtain ⟨members, hmembers⟩ := ht.exists_imp (Q := fun _ : Unit => Member IsString IsValue)
    fun v u hu => by
      obtain ⟨hk, ha, hb, hv⟩ := hu
      exact ⟨(), .colon hk ha hb hv.2⟩
  exact ⟨members, hmembers⟩

/-- A text that is a document is the same document with blanks at its end, and it is malformed with
anything else there. So nothing but blanks may be cut off from a document, and nothing but blanks
may stand behind the closing bracket of its object. -/
theorem read?_append_iff :
    (∀ s d, read? s = .ok d → ∀ t e, read? (s ++ t) = .ok e ↔ Blank t ∧ e = d) ∧
    (∀ s t d, read? (s ++ t) = .ok d → ¬Blank t → ∃ e, read? s = .error e) ∧
    ∀ s d, read? s = .ok d → Padded IsObject s ∧
      ∀ b u t, Blank b → IsObject u → s = b ++ (u ++ t) → Blank t := by
  have hiff (s : Bytes) (d : Document) (h : read? s = .ok d) (t : Bytes) (e : Document) :
      read? (s ++ t) = .ok e ↔ Blank t ∧ e = d := by
    obtain ⟨r, hread, hr⟩ := readWhole_eq_ok_iff.mp h
    have hmore := readOrdered_extend extends_readDefinition hread t
    rw [read?, readWhole_eq_ok_iff, hmore]
    constructor
    · rintro ⟨_, heq, hblank⟩
      cases heq
      exact ⟨fun c hc => hblank c (List.mem_append_right r hc), rfl⟩
    · rintro ⟨ht, rfl⟩
      exact ⟨r ++ t, rfl, hr.append ht⟩
  refine ⟨hiff, fun s t d h ht => ?_, fun s d h => ⟨isObject_of_read? h, ?_⟩⟩
  · cases hs : read? s with
    | error e => exact ⟨e, rfl⟩
    | ok e => exact absurd ((hiff s e hs t d).mp h).1 ht
  · rintro b u t hb hu rfl
    have hskip {u : Bytes} (hu : IsObject u) (r : Bytes) : skipBlanks (u ++ r) = u ++ r :=
      (hu.isValue.begins.append r).skipBlanks .nil
    have hobject := isObject_of_read? h
    generalize hs : b ++ (u ++ t) = s at hobject
    obtain ⟨ha, hu', hb'⟩ := hobject
    obtain ⟨-, rfl⟩ := hu.append_inj hu' (hb.append_inj ha (hskip hu _) (hskip hu' _) hs)
    exact hb'

/-- A document with a line feed and with a comma behind it, and without its last byte. -/
theorem read?_append_iff_comma :
    let s := ascii "\x7b\"a\":\x7b\"id\":1\x7d\x7d"
    ∃ d, read? s = .ok d ∧ read? (s ++ [Byte.lineFeed]) = .ok d ∧
      (∀ e, read? (s ++ [Byte.comma]) ≠ .ok e) ∧
        (∃ e, read? (ascii "\x7b\"a\":\x7b\"id\":1\x7d") = .error e) ∧
          ∀ b u t, Blank b → IsObject u → s = b ++ (u ++ t) → Blank t := by
  intro s
  obtain ⟨d, hd⟩ : ∃ d, read? s = .ok d := by
    have hok : (read? s).isOk = true := by decide +kernel
    cases h : read? s with
    | ok d => exact ⟨d, rfl⟩
    | error e =>
      rw [h] at hok
      cases hok
  have hcut : s = ascii "\x7b\"a\":\x7b\"id\":1\x7d" ++ [Byte.closeObject] := by decide +kernel
  refine ⟨d, hd, (read?_append_iff.1 s d hd _ d).mpr ⟨by decide, rfl⟩, fun e he => ?_,
    read?_append_iff.2.1 _ [Byte.closeObject] d (hcut ▸ hd) (by decide),
    (read?_append_iff.2.2 s d hd).2⟩
  exact absurd ((read?_append_iff.1 s d hd _ e).mp he).1 (by decide)

end Document

end Telemetry
