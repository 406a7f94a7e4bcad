import Telemetry.Proofs.C.Declaration

/-!
# Names and their uses

What a declaration of C makes known and what it refers to, by name and by what the name stands for.
A name that is not given from outside may be used only behind its declaration (`DeclaredBeforeUse`).
That is so if every such name is declared, and no declaration refers to anything that is declared
there or further on (`declaredBeforeUse_of_pairwise`).
-/

namespace Telemetry.C

/-- What a name stands for. -/
inductive Role where
  | type
  /-- A constant, an array, a table or a function. -/
  | value
deriving DecidableEq, Repr

/-- The words among tokens. -/
def words : List Token → List String :=
  List.filterMap fun
    | .word w => some w
    | _ => none

/-- The names that an expression refers to: a type is asked for its size or stands in a cast. -/
def expressionUses : List Token → List (Role × String)
  | .word w :: .mark '(' :: .word v :: ts =>
    if w = "sizeof" then (.type, v) :: expressionUses ts
    else (.value, w) :: expressionUses (.mark '(' :: .word v :: ts)
  | .mark '(' :: .word w :: .mark '*' :: .mark ')' :: ts => (.type, w) :: expressionUses ts
  | .word w :: ts => (.value, w) :: expressionUses ts
  | _ :: ts => expressionUses ts
  | [] => []

namespace Declaration

/-- The names that a declaration makes known outside it. -/
def introduces : Declaration → List (Role × String)
  | enumeration constants name => constants.map (fun c => (.value, c.1)) ++ [(.type, name)]
  | record _ name => [(.type, name)]
  | constant _ name _ | array _ name _ | table _ name _ | function _ name _ _ => [(.value, name)]

/-- The names that a declaration refers to. Of parameters every word counts as a type. -/
def uses : Declaration → List (Role × String)
  | enumeration constants _ => constants.map fun c => (.value, c.2)
  | record members _ => members.map fun m => (.type, m.1)
  | constant type _ value => [(.type, type), (.value, value)]
  | array type _ items => (.type, type) :: items.map (.value, ·)
  | table type _ rows =>
    (.type, type) :: rows.flatMap fun row => row.flatMap fun f => expressionUses f.2
  | function result _ parameters body =>
    (.type, result) :: (words parameters).map (.type, ·) ++ expressionUses body

/-- A declaration refers to nothing that another one makes known. -/
def Avoids (x y : Declaration) : Prop := ∀ n ∈ x.uses, n ∉ y.introduces

end Declaration

/-- Whatever a declaration of the text refers to is declared in front of it, or it is a name that is
given from outside and the text does not declare it at all. -/
def DeclaredBeforeUse (given : Role × String → Prop) (u : TranslationUnit) : Prop :=
  ∀ before x after, TranslationUnit.declarations u = before ++ x :: after → ∀ n ∈ x.uses,
    n ∈ before.flatMap Declaration.introduces ∨
      given n ∧ n ∉ (TranslationUnit.declarations u).flatMap Declaration.introduces

/-- It is enough that every name that is not given is declared somewhere, and that no declaration
refers to itself or to one behind it. -/
theorem declaredBeforeUse_of_pairwise {given : Role × String → Prop} {u : TranslationUnit}
    (hknown : ∀ x ∈ TranslationUnit.declarations u, ∀ n ∈ x.uses,
      given n ∨ n ∈ (TranslationUnit.declarations u).flatMap Declaration.introduces)
    (hself : ∀ x ∈ TranslationUnit.declarations u, x.Avoids x)
    (hlater : (TranslationUnit.declarations u).Pairwise Declaration.Avoids) :
    DeclaredBeforeUse given u := by
  intro before x after hsplit n hn
  have hx : x ∈ TranslationUnit.declarations u := by simp [hsplit]
  by_cases hmem : n ∈ (TranslationUnit.declarations u).flatMap Declaration.introduces
  · left
    rw [hsplit] at hlater hmem
    obtain ⟨-, hpivot, -⟩ := List.pairwise_append.mp hlater
    obtain ⟨hafter, -⟩ := List.pairwise_cons.mp hpivot
    obtain ⟨y, hy, hny⟩ := List.mem_flatMap.mp hmem
    -- the declaration of the name is none of those that are ruled out
    rcases List.mem_append.mp hy with hy | hy
    · exact List.mem_flatMap.mpr ⟨y, hy, hny⟩
    · rcases List.mem_cons.mp hy with rfl | hy
      · exact absurd hny (hself y hx n hn)
      · exact absurd hny (hafter y hy n hn)
  · exact .inr ⟨(hknown x hx n hn).resolve_right hmem, hmem⟩

end Telemetry.C
