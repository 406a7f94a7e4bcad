import Telemetry.Header.Text
import Telemetry.Proofs.Basic
import Telemetry.Proofs.C.Token

/-!
# Numerals of C

The value of an integer constant in C: decimal, octal behind a zero and hexadecimal behind `0x`. The
numbers that headers hold are words and have the values they were made from, in decimal
(`numeral?_toString`) and, up to sixteen bits, as hexadecimal words (`numeral?_hexWord`).
-/

namespace Telemetry.C

/-- The value of a digit, of either case. -/
def digit? (c : Char) : Option Nat :=
  if '0' ≤ c ∧ c ≤ '9' then some (c.toNat - '0'.toNat)
  else if 'a' ≤ c ∧ c ≤ 'f' then some (c.toNat - 'a'.toNat + 10)
  else if 'A' ≤ c ∧ c ≤ 'F' then some (c.toNat - 'A'.toNat + 10)
  else none

/-- A number with one more digit. -/
def extend? (base n : Nat) (c : Char) : Option Nat := do
  let d ← digit? c
  if d < base then some (base * n + d) else none

/-- The number that digits stand for. -/
def ofDigits? (base : Nat) (digits : List Char) : Option Nat := digits.foldlM (extend? base) 0

/-- The value of an integer constant. -/
def numeral? (text : String) : Option Nat :=
  match text.toList with
  | [] => none
  | '0' :: 'x' :: digits => if digits = [] then none else ofDigits? 16 digits
  | '0' :: digits => ofDigits? 8 digits
  | digits => ofDigits? 10 digits

@[simp] theorem ofDigits?_nil (base : Nat) : ofDigits? base [] = some 0 := rfl

theorem ofDigits?_concat (base : Nat) (digits : List Char) (c : Char) :
    ofDigits? base (digits ++ [c]) = (ofDigits? base digits).bind fun n => extend? base n c := by
  simp [ofDigits?]

/-! ### Decimal numerals -/

theorem digit?_digitChar : ∀ d < 16, digit? (Nat.digitChar d) = some d := by decide

theorem extend?_digitChar {base n d : Nat} (hbase : base ≤ 16) (h : d < base) :
    extend? base n (Nat.digitChar d) = some (base * n + d) := by
  rw [extend?, digit?_digitChar d (by omega)]
  exact if_pos h

/-- A number is read back from its digits. -/
theorem ofDigits?_toDigits (n : Nat) : ofDigits? 10 (Nat.toDigits 10 n) = some n := by
  induction n using Nat.strongRecOn with
  | _ n ih =>
    by_cases h : n < 10
    · rw [Nat.toDigits_of_lt_base h, ← List.nil_append [_], ofDigits?_concat, ofDigits?_nil,
        Option.bind_some, extend?_digitChar (by decide) h]
      simp
    · rw [Nat.toDigits_of_base_le (by decide) (by omega), ofDigits?_concat, ih (n / 10) (by omega),
        Option.bind_some, extend?_digitChar (by decide) (by omega), Nat.div_add_mod]

/-- A number is read back from its decimal numeral. -/
theorem numeral?_toString (n : Nat) : numeral? (toString n) = some n := by
  rcases Nat.eq_zero_or_pos n with rfl | hpos
  · rfl
  have hlist : (toString n).toList = Nat.toDigits 10 n := Nat.toList_repr
  have hhead := head?_toDigits_ne hpos
  rw [numeral?, hlist]
  split
  · next h => exact absurd h Nat.toDigits_ne_nil
  · next digits h => simp [h] at hhead
  · next digits _ h => simp [h] at hhead
  · exact ofDigits?_toDigits n

/-- A decimal numeral is a word. -/
theorem isWord_toString (n : Nat) : IsWord (toString n) where
  ne_nil := by
    rw [show (toString n).toList = Nat.toDigits 10 n from Nat.toList_repr]
    exact Nat.toDigits_ne_nil
  wordChar := by
    intro c hc
    rw [show (toString n).toList = Nat.toDigits 10 n from Nat.toList_repr] at hc
    have hdigit : c.isDigit = true := Nat.isDigit_of_mem_toDigits (by decide) (by decide) hc
    simp [isWordChar, Char.isAlphanum, hdigit]

/-- Different numbers have different numerals. -/
theorem toString_injective {m n : Nat} (h : toString m = toString n) : m = n := by
  have hm := numeral?_toString m
  rw [h, numeral?_toString n] at hm
  exact (Option.some.inj hm).symm

/-! ### Hexadecimal words -/

theorem toList_hexWord (n : Nat) :
    (hexWord n).toList =
      '0' :: 'x' :: [n / 4096, n / 256, n / 16, n].map fun k => Nat.digitChar (k % 16) := by
  simp [hexWord]

/-- A word of sixteen bits is read back from its hexadecimal numeral. -/
theorem numeral?_hexWord {n : Nat} (h : n < 65536) : numeral? (hexWord n) = some n := by
  have hone (m k : Nat) : extend? 16 m (Nat.digitChar (k % 16)) = some (16 * m + k % 16) :=
    extend?_digitChar (by decide) (Nat.mod_lt k (by decide))
  have hvalue : ofDigits? 16 ([n / 4096, n / 256, n / 16, n].map fun k => Nat.digitChar (k % 16)) =
      some (16 * (16 * (16 * (n / 4096 % 16) + n / 256 % 16) + n / 16 % 16) + n % 16) := by
    simp [ofDigits?, hone]
  rw [numeral?, toList_hexWord]
  change ofDigits? 16 _ = _
  rw [hvalue]
  congr 1
  omega

/-- A hexadecimal word is a word. -/
theorem isWord_hexWord (n : Nat) : IsWord (hexWord n) where
  ne_nil := by
    rw [toList_hexWord]
    exact List.cons_ne_nil _ _
  wordChar := by
    have hdigit : ∀ k < 16, isWordChar (Nat.digitChar k) = true := by decide
    intro c hc
    rw [toList_hexWord] at hc
    simp only [List.mem_cons, List.mem_map] at hc
    rcases hc with rfl | rfl | ⟨k, -, rfl⟩
    · decide
    · decide
    · exact hdigit (k % 16) (by omega)

end Telemetry.C
