import Telemetry.Proofs.Json.Grammar

/-!
# Where values end

A text has one structure. What starts at a place is told from its bytes alone, since no string and
no value goes on where another one may end (`IsString.append_inj`, `IsValue.append_inj`); so the
values of the members of an object are determined by its bytes (`values_inj`).

This is proved by reading: what is passed over at a place is the same whatever is said to stand
there.
-/

namespace Telemetry.Json

variable {a b p q s t r r' : Bytes} {c d : UInt8} {v w : Bytes} {vs ws : List Bytes}

theorem IsString.append_inj (hs : IsString s) (ht : IsString t) (h : s ++ r = t ++ r') :
    s = t ∧ r = r' := by
  obtain ⟨u, rfl, hu⟩ := skipString_of_isString hs r
  obtain ⟨u', rfl, hu'⟩ := skipString_of_isString ht r'
  rw [List.cons_append, List.cons_append, List.cons.injEq] at h
  rw [h.2, hu'] at hu
  cases hu
  rw [List.append_cancel_right h.2]
  exact ⟨rfl, rfl⟩

theorem IsValue.append_inj (hs : IsValue s) (ht : IsValue t) (hr : Follows r) (hr' : Follows r')
    (h : s ++ r = t ++ r') : s = t ∧ r = r' := by
  obtain ⟨_, hs⟩ := hs
  obtain ⟨_, ht⟩ := ht
  have hskip := skipValue_of_isJson hs .nil hr
  rw [List.nil_append, h, ← List.nil_append (t ++ r'), skipValue_of_isJson ht .nil hr'] at hskip
  cases hskip
  exact ⟨List.append_cancel_right h, rfl⟩

theorem IsValue.begins (h : IsValue s) : BeginsValue s := by
  obtain ⟨_, h⟩ := h
  exact h.begins

/-- What stands behind blanks is the same if it does not start with one. -/
theorem Blank.append_inj (ha : Blank a) (hb : Blank b) (hs : skipBlanks s = s)
    (ht : skipBlanks t = t) (h : a ++ s = b ++ t) : s = t := by
  rw [← hs, ← skipBlanks_append ha s, h, skipBlanks_append hb, ht]

/-- A bracket or a comma is no blank. -/
theorem skipBlanks_cons_of_mem (h : c ∈ [Byte.comma, Byte.closeList, Byte.closeObject])
    (s : Bytes) : skipBlanks (c :: s) = c :: s := by
  have hall : ∀ c ∈ [Byte.comma, Byte.closeList, Byte.closeObject], Byte.isBlank c = false := by
    decide +kernel
  exact skipBlanks_cons (hall c h) s

/-! ### Members -/

/-- A value that is a given one. -/
def IsThe (v s : Bytes) : Prop := s = v ∧ IsValue s

/-- What a member is that stands in front of a comma or a closing bracket. -/
theorem member_inj (hp : Padded (Member IsString (IsThe v)) p)
    (hq : Padded (Member IsString (IsThe w)) q)
    (hc : c ∈ [Byte.comma, Byte.closeList, Byte.closeObject])
    (hd : d ∈ [Byte.comma, Byte.closeList, Byte.closeObject]) (h : p ++ c :: r = q ++ d :: r') :
    v = w ∧ c = d ∧ r = r' := by
  have hstring {k : Bytes} (hk : IsString k) (s : Bytes) : skipBlanks (k ++ s) = k ++ s := by
    obtain ⟨t, rfl, -⟩ := skipString_of_isString hk s
    exact skipBlanks_cons (by decide) (t ++ s)
  have hcolon (s : Bytes) : skipBlanks (Byte.colon :: s) = Byte.colon :: s :=
    skipBlanks_cons (by decide) s
  have hvalue {v : Bytes} (hv : IsValue v) (s : Bytes) : skipBlanks (v ++ s) = v ++ s :=
    (hv.begins.append s).skipBlanks .nil
  obtain ⟨ha, ⟨hk, ha', hb, rfl, hv⟩, hb'⟩ := hp
  obtain ⟨he, ⟨hl, he', hf, rfl, hw⟩, hf'⟩ := hq
  simp only [List.append_assoc, List.cons_append] at h
  obtain ⟨-, h⟩ := hk.append_inj hl (ha.append_inj he (hstring hk _) (hstring hl _) h)
  have hvalues := List.tail_eq_of_cons_eq (ha'.append_inj he' (hcolon _) (hcolon _) h)
  obtain ⟨rfl, hrest⟩ := hv.append_inj hw ((follows_cons hc r).append hb')
    ((follows_cons hd r').append hf') (hb.append_inj hf (hvalue hv _) (hvalue hw _) hvalues)
  cases hb'.append_inj hf' (skipBlanks_cons_of_mem hc r) (skipBlanks_cons_of_mem hd r') hrest
  exact ⟨rfl, rfl, rfl⟩

/-- The members that stand in front of a closing bracket. -/
theorem separated_inj (hs : Separated (fun v => Member IsString (IsThe v)) vs s)
    (ht : Separated (fun v => Member IsString (IsThe v)) ws t)
    (h : s ++ Byte.closeObject :: r = t ++ Byte.closeObject :: r') : vs = ws ∧ r = r' := by
  have hne : Byte.closeObject ≠ Byte.comma := by decide
  induction hs generalizing ws t with
  | one hv =>
    cases ht with
    | one hw =>
      obtain ⟨rfl, -, rfl⟩ := member_inj hv hw (by decide) (by decide) h
      exact ⟨rfl, rfl⟩
    | more hw _ =>
      rw [List.append_assoc, List.cons_append] at h
      exact absurd (member_inj hv hw (by decide) (by decide) h).2.1 hne
  | more hv _ ih =>
    rw [List.append_assoc, List.cons_append] at h
    cases ht with
    | one hw => exact absurd (member_inj hv hw (by decide) (by decide) h).2.1 hne.symm
    | more hw ht =>
      rw [List.append_assoc, List.cons_append] at h
      obtain ⟨rfl, -, h⟩ := member_inj hv hw (by decide) (by decide) h
      obtain ⟨rfl, rfl⟩ := ih ht h
      exact ⟨rfl, rfl⟩

/-- The first of some members begins with a quote. -/
theorem exists_skipBlanks_separated {V : Bytes → Bytes → Prop}
    (hs : Separated (fun v => Member IsString (V v)) vs s) (r : Bytes) :
    ∃ t, skipBlanks (s ++ r) = Byte.quote :: t := by
  have hmember {v p : Bytes} (hp : Padded (Member IsString (V v)) p) (r : Bytes) :
      ∃ t, skipBlanks (p ++ r) = Byte.quote :: t := by
    obtain ⟨ha, ⟨hk, -, -, -⟩, -⟩ := hp
    obtain ⟨t, rfl, -⟩ := skipString_of_isString hk []
    simp only [List.append_assoc, List.cons_append]
    exact ⟨_, skipBlanks_append_cons ha (by decide) _⟩
  cases hs with
  | one hp => exact hmember hp r
  | more hp _ =>
    rw [List.append_assoc]
    exact hmember hp _

/-- The values of the members of an object are determined by its bytes, and so is its end. -/
theorem values_inj (hs : Membered (fun v => Member IsString (IsThe v)) vs s)
    (ht : Membered (fun v => Member IsString (IsThe v)) ws t) (h : s ++ r = t ++ r') :
    vs = ws ∧ r = r' := by
  have hnot {vs : List Bytes} {b s r r' : Bytes} (hb : Blank b)
      (hs : Separated (fun v => Member IsString (IsThe v)) vs s) :
      b ++ Byte.closeObject :: r ≠ s ++ Byte.closeObject :: r' := by
    intro h
    obtain ⟨t, hquote⟩ := exists_skipBlanks_separated hs (Byte.closeObject :: r')
    rw [← h, skipBlanks_append_cons hb (by decide)] at hquote
    cases hquote
  cases hs with
  | nothing hb =>
    cases ht with
    | nothing hb' =>
      have hclose := hb.append_inj hb'
        (skipBlanks_cons_of_mem (c := Byte.closeObject) (by decide) r)
        (skipBlanks_cons_of_mem (c := Byte.closeObject) (by decide) r') (by simpa using h)
      exact ⟨rfl, List.tail_eq_of_cons_eq hclose⟩
    | items ht => exact absurd (by simpa using h) (hnot hb ht)
  | items hs =>
    cases ht with
    | nothing hb => exact absurd (by simpa using h.symm) (hnot hb hs)
    | items ht => exact separated_inj hs ht (by simpa using h)

end Telemetry.Json
