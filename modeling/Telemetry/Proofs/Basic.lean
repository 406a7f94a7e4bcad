import Mathlib

/-!
# Computations that may fail, and lists

Facts about `Except`, `Option` and lists that the theory of schemas, headers and files rests on.
-/

namespace Telemetry

/-- A computation that may fail succeeds with a second step exactly if both steps succeed. -/
theorem bind_eq_ok_iff {ε α β : Type} {x : Except ε α} {next : α → Except ε β} {y : β} :
    (x >>= next) = .ok y ↔ ∃ a, x = .ok a ∧ next a = .ok y := by
  cases x with
  | error e => simp [bind, Except.bind]
  | ok a => simp [bind, Except.bind]

/-- It fails exactly if the first step fails, or the second step does. -/
theorem bind_eq_error_iff {ε α β : Type} {x : Except ε α} {next : α → Except ε β} {e : ε} :
    (x >>= next) = .error e ↔ x = .error e ∨ ∃ a, x = .ok a ∧ next a = .error e := by
  cases x with
  | error e' => simp [bind, Except.bind]
  | ok a => simp [bind, Except.bind]

/-- A loop that may fail fails at one item, behind others that it takes. -/
theorem foldlM_eq_error_iff {ε α β : Type} {f : β → α → Except ε β} {l : List α} {b : β} {e : ε} :
    l.foldlM f b = .error e ↔
      ∃ before a after c, l = before ++ a :: after ∧ before.foldlM f b = .ok c ∧
        f c a = .error e := by
  induction l generalizing b with
  | nil => exact iff_of_false (by simp [pure, Except.pure]) (by simp)
  | cons x l ih =>
    rw [List.foldlM_cons, bind_eq_error_iff]
    constructor
    · rintro (hx | ⟨c, hc, hl⟩)
      · exact ⟨[], x, l, b, rfl, rfl, hx⟩
      · obtain ⟨before, a, after, c', rfl, hbefore, ha⟩ := ih.mp hl
        exact ⟨x :: before, a, after, c', rfl, bind_eq_ok_iff.mpr ⟨c, hc, hbefore⟩, ha⟩
    · rintro ⟨before, a, after, c, hl, hbefore, ha⟩
      cases before with
      | nil =>
        cases hl
        cases hbefore
        exact .inl ha
      | cons y before =>
        cases hl
        obtain ⟨c', hy, hbefore⟩ := bind_eq_ok_iff.mp hbefore
        exact .inr ⟨c', hy, ih.mpr ⟨before, a, after, c, rfl, hbefore, ha⟩⟩

/-- A list that does not pass goes wrong at one place: what stands in front passes, and with what
stands there it does not. -/
theorem existsUnique_split {α : Type} {P : List α → Prop} (hnil : P [])
    (hinitial : ∀ l r, P (l ++ r) → P l) {l : List α} (hl : ¬P l) :
    ∃! x : List α × α × List α, l = x.1 ++ x.2.1 :: x.2.2 ∧ P x.1 ∧ ¬P (x.1 ++ [x.2.1]) := by
  obtain ⟨before, a, after, rfl, hbefore, ha⟩ :
      ∃ before a after, l = before ++ a :: after ∧ P before ∧ ¬P (before ++ [a]) := by
    induction l using List.reverseRecOn with
    | nil => exact absurd hnil hl
    | append_singleton l a ih =>
      by_cases h : P l
      · exact ⟨l, a, [], rfl, h, hl⟩
      · obtain ⟨before, b, after, rfl, hbefore, hb⟩ := ih h
        exact ⟨before, b, after ++ [a], by simp, hbefore, hb⟩
  -- what passes does not reach beyond a place where the list goes wrong
  have hle {x y : List α} {c d : α} {r r' : List α} (hx : ¬P (x ++ [c])) (hy : P y)
      (h : y ++ d :: r' = x ++ c :: r) : y.length ≤ x.length := by
    by_contra hlt
    have htake : y.take (x.length + 1) = x ++ [c] := by
      have hfront : (y ++ d :: r').take (x.length + 1) = y.take (x.length + 1) :=
        List.take_append_of_le_length (by omega)
      rw [← hfront, h, List.take_append]
      simp
    rw [← List.take_append_drop (x.length + 1) y, htake] at hy
    exact hx (hinitial _ _ hy)
  refine ⟨⟨before, a, after⟩, ⟨rfl, hbefore, ha⟩, ?_⟩
  rintro ⟨before', a', after'⟩ ⟨h, hbefore', ha'⟩
  obtain ⟨rfl, hrest⟩ :=
    List.append_inj h.symm (Nat.le_antisymm (hle ha hbefore' h.symm) (hle ha' hbefore h))
  cases hrest
  rfl

/-- If each item leads somewhere, so does the list. -/
theorem mapM_eq_some {α β : Type} {f : α → Option β} {g : α → β} {l : List α}
    (h : ∀ x ∈ l, f x = some (g x)) : l.mapM f = some (l.map g) := by
  induction l with
  | nil => rfl
  | cons x xs ih =>
    rw [List.mapM_cons, h x List.mem_cons_self, ih fun y hy => h y (List.mem_cons_of_mem x hy)]
    rfl

/-- If each thing is read back from what is made of it, so is a list of them. -/
theorem mapM_map_eq_some {α β : Type} {f : β → Option α} {g : α → β} {l : List α}
    (h : ∀ x ∈ l, f (g x) = some x) : (l.map g).mapM f = some l := by
  rw [List.mapM_map]
  exact (mapM_eq_some h).trans (by rw [List.map_id'])

/-- Values stay pairwise distinct when one more is added that is none of them. -/
theorem nodup_map_concat {α β : Type} {f : α → β} {l : List α} {a : α} (h : (l.map f).Nodup)
    (hnew : ∀ x ∈ l, f x ≠ f a) : ((l ++ [a]).map f).Nodup := by
  rw [List.map_append, List.nodup_append]
  refine ⟨h, by simp, ?_⟩
  rintro y hy z hz rfl
  obtain ⟨x, hx, rfl⟩ := List.mem_map.mp hy
  exact hnew x hx (by simpa using hz)

/-- The value of what was added differs from those in front of it, if values are pairwise distinct.
-/
theorem ne_of_nodup_map {α β : Type} {f : α → β} {l r : List α} {a : α}
    (h : ((l ++ a :: r).map f).Nodup) : ∀ x ∈ l, f x ≠ f a := by
  rw [List.map_append, List.nodup_append] at h
  exact fun x hx => h.2.2 (f x) (List.mem_map_of_mem hx) (f a) (by simp)

/-- If related things have the same value, so have related lists. -/
theorem map_eq_map_of_forall₂ {α β γ : Type} {R : α → β → Prop} {f : α → γ} {g : β → γ}
    {l : List α} {l' : List β} (h : List.Forall₂ R l l') (hfg : ∀ a b, R a b → f a = g b) :
    l.map f = l'.map g := by
  induction h with
  | nil => rfl
  | cons hab _ ih => rw [List.map_cons, List.map_cons, hfg _ _ hab, ih]

/-- There is a list related to another exactly if there is something related to each thing in it. -/
theorem exists_forall₂_iff {α β : Type} {R : α → β → Prop} {l : List β} :
    (∃ l', List.Forall₂ R l' l) ↔ ∀ b ∈ l, ∃ a, R a b := by
  induction l with
  | nil => simp
  | cons b l ih => simp [List.forall₂_cons_right_iff, ← ih]

/-- The first digit of a positive number is not zero. -/
theorem head?_toDigits_ne {n : Nat} (h : 0 < n) : (Nat.toDigits 10 n).head? ≠ some '0' := by
  induction n using Nat.strongRecOn with
  | _ n ih =>
    by_cases hlt : n < 10
    · rw [Nat.toDigits_of_lt_base hlt]
      have : ∀ d < 10, 0 < d → [Nat.digitChar d].head? ≠ some '0' := by decide
      exact this n hlt h
    · rw [Nat.toDigits_of_base_le (by decide) (by omega), List.head?_append]
      have hrest := ih (n / 10) (by omega) (by omega)
      cases hd : (Nat.toDigits 10 (n / 10)).head? with
      | none => exact absurd (List.head?_eq_none_iff.mp hd) Nat.toDigits_ne_nil
      | some c =>
        rw [hd] at hrest
        exact hrest

end Telemetry
