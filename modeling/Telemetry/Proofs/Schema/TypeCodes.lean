import Telemetry.Proofs.Json.Integers
import Telemetry.Proofs.Schema.Consistent

/-!
# Type codes as written

Each wire type is written in one way only: as the digit that is its code. Other numerals of the same
value are doubles, and integers are not reduced to the range of the codes.
-/

namespace Telemetry.WireType

open Json

/-- The codes are the numbers up to seven. -/
theorem exists_code_eq_iff {k : Nat} : (∃ t : WireType, t.code.toNat = k) ↔ k ≤ 7 := by
  constructor
  · rintro ⟨t, rfl⟩
    cases t <;> decide
  · intro hk
    obtain ⟨t, ht⟩ : ∃ t, ofCode? k = some t := by
      interval_cases k <;> exact ⟨_, rfl⟩
    exact ⟨t, (ofCode?_eq_some_iff.mp ht).symm⟩

/-- The numeral of a code is a single digit. -/
theorem spellsInteger_code_iff {t : WireType} {s : Bytes} :
    SpellsInteger t.code.toNat s ↔ s = [Byte.zero + t.code] := by
  have hdigit : ascii (toString (t.code.toNat : Int)) = [Byte.zero + t.code] := by
    cases t <;> decide +kernel
  have hlt := t.code.toNat_lt
  rw [SpellsInteger, hdigit]
  exact ⟨fun h => h.2.2, fun h => ⟨by omega, by omega, h⟩⟩

/-- A text stands for a wire type exactly if, without the blanks around it, it is the digit that is
the code of the type. The codes are the digits up to seven. -/
theorem exists_read?_ofValue?_iff (bytes : Bytes) (t : WireType) :
    ((∃ x, Value.read? bytes = .ok x ∧ ofValue? x = some t) ↔
      Padded (· = [Byte.zero + t.code]) bytes) ∧
        ∀ k, (∃ t : WireType, t.code.toNat = k) ↔ k ≤ 7 := by
  have hpadded : Padded (SpellsInteger t.code.toNat) bytes ↔
      Padded (· = [Byte.zero + t.code]) bytes :=
    ⟨fun h => h.imp fun _ => spellsInteger_code_iff.mp,
      fun h => h.imp fun _ => spellsInteger_code_iff.mpr⟩
  refine ⟨?_, fun k => exists_code_eq_iff⟩
  simp only [ofValue?_eq_some_iff, exists_eq_right, Value.read?_eq_integer_iff, hpadded]

/-- Other ways to write a code, and integers that leave the same remainder. -/
example : ∀ text ∈ ["-0", "6.0", "6e0", "0.6e1", "\"6\"", "[6]", "06", "262", "4294967302",
    "18446744073709551622"], (Value.read? (ascii text)).toOption.bind ofValue? = none := by
  decide +kernel

end Telemetry.WireType
