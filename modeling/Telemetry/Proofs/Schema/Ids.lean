import Telemetry.Proofs.Document.Ids
import Telemetry.Proofs.Schema.Refusal

/-!
# Ids as written

What becomes of a number in the place of an id, whatever its size. Up to 255 it is the id. Larger
numerals are out of range, by their value also where that is known only as a double; a minus, a
fraction or an exponent makes a number that is no id (`Schema.load?_of_number`).

Only the entry with the id matters for that. The entries in front of it make sense, so the document
is refused for it if it is refused for the id, and whatever stands behind it is not looked at.
-/

namespace Telemetry

open Json

variable {earlier later : Document} {m : String × Definition} {e : SchemaError} {w : Bytes}

/-! ### Entries behind others -/

/-- An entry that makes sense by itself has the id or the name of another one. -/
inductive Collision (earlier : Document) (m : String × Definition) (id : UInt8) :
    SchemaError → Prop where
  | sameId {y : String × Definition} : y ∈ earlier → y.2.id = m.2.id →
    Collision earlier m id (.duplicateId id y.1 m.1)
  | sameName {y : String × Definition} : y ∈ earlier → SameLetters y.1 m.1 →
    Collision earlier m id (.duplicateName (m.1.map Char.toUpper) y.1 m.1)

/-- An entry that makes sense by itself is only refused for a collision. -/
theorem EntryProblem.collision {id : UInt8} (h : EntryProblem earlier m e) (hname : IsName m.1)
    (hm : m.2.Consistent) (hid : m.2.id = some (.integer id.toNat)) : Collision earlier m id e := by
  cases h with
  | alone h =>
    obtain ⟨x, hx⟩ := exists_checkMessage_eq_ok_iff.mpr ⟨hname, hm⟩
    rw [← checkMessage_eq_error_iff, hx] at h
    cases h
  | @sameId _ _ y id' _ _ hid' hsplit hy _ =>
    have hbyte : id' = id := by simpa [UInt8.toNat_inj] using hid'.symm.trans hid
    exact hbyte ▸ .sameId (by simp [hsplit]) hy
  | sameName _ _ _ hsplit hy _ => exact .sameName (by simp [hsplit]) hy

namespace Schema

/-- An entry that makes sense by itself has its id in the schema. The document is refused only if
the entry collides with one in front of it, or for what stands behind it. -/
theorem ofDocument?_of_consistent {id : UInt8} (hearlier : earlier.Accepted) (hname : IsName m.1)
    (hm : m.2.Consistent) (hid : m.2.id = some (.integer id.toNat)) (later : Document) :
    (∀ s, ofDocument? (earlier ++ m :: later) = .ok s →
      ∃ x, s.messages[earlier.length]? = some x ∧ x.name = m.1 ∧ x.id = id) ∧
      ∀ e, ofDocument? (earlier ++ m :: later) = .error e →
        (earlier ++ [m]).Accepted ∨ Collision earlier m id e := by
  constructor
  · intro s hs
    obtain ⟨-, hdescribed, -⟩ := ofDocument?_eq_ok_iff.mp hs
    have hlength := hdescribed.length_eq
    rw [List.length_append, List.length_cons] at hlength
    have hlt : earlier.length < s.messages.length := by omega
    have hdescribes := (List.forall₂_iff_get.mp hdescribed).2 earlier.length hlt (by simp)
    simp only [List.get_eq_getElem, List.getElem_append_right (Nat.le_refl _), Nat.sub_self,
      List.getElem_cons_zero] at hdescribes
    have hbyte : s.messages[earlier.length].id = id := by
      simpa [UInt8.toNat_inj] using hdescribes.id.symm.trans hid
    exact ⟨_, List.getElem?_eq_getElem hlt, hdescribes.name, hbyte⟩
  · intro e he
    cases h : ofDocument? (earlier ++ [m]) with
    | ok s => exact .inl (.inr ⟨s, h⟩)
    | error e' =>
      have hproblem := (ofDocument?_concat_eq_error_iff hearlier).mp h
      rw [ofDocument?_of_entryProblem hearlier hproblem] at he
      cases he
      exact .inr (hproblem.collision hname hm hid)

theorem load?_of_read? {d : Document} (h : Document.read? w = .ok d) :
    load? w = (ofDocument? d).mapError .invalid := by
  rw [load?, ofBytes?, h]

theorem load?_of_entryProblem (hw : Document.read? w = .ok (earlier ++ m :: later))
    (hearlier : earlier.Accepted) (h : EntryProblem earlier m e) :
    load? w = .error (.invalid e) := by
  rw [load?_of_read? hw, ofDocument?_of_entryProblem hearlier h]
  rfl

theorem load?_of_consistent {id : UInt8} (hw : Document.read? w = .ok (earlier ++ m :: later))
    (hearlier : earlier.Accepted) (hname : IsName m.1) (hm : m.2.Consistent)
    (hid : m.2.id = some (.integer id.toNat)) :
    (∀ s, load? w = .ok s →
      ∃ x, s.messages[earlier.length]? = some x ∧ x.name = m.1 ∧ x.id = id) ∧
      ∀ e, load? w = .error e →
        ∃ e', e = .invalid e' ∧ ((earlier ++ [m]).Accepted ∨ Collision earlier m id e') := by
  obtain ⟨hok, herror⟩ := ofDocument?_of_consistent hearlier hname hm hid later
  rw [load?_of_read? hw]
  constructor
  · intro s hs
    cases h : ofDocument? (earlier ++ m :: later) with
    | ok s' =>
      rw [h] at hs
      cases hs
      exact hok s h
    | error e' =>
      rw [h] at hs
      cases hs
  · intro e he
    cases h : ofDocument? (earlier ++ m :: later) with
    | ok s' =>
      rw [h] at he
      cases he
    | error e' =>
      rw [h] at he
      cases he
      exact ⟨e', rfl, herror e' h⟩

end Schema

/-! ### Numbers that are no ids -/

/-- A numeral begins with a minus, or it is digits. -/
theorem head?_of_spellsInteger {i : Int} (h : SpellsInteger i w) :
    (i < 0 → w.head? = some Byte.minus) ∧ (0 ≤ i → ∀ b ∈ w, Byte.isDigit b = true) := by
  obtain ⟨-, -, rfl⟩ := h
  cases i with
  | ofNat n =>
    obtain ⟨b, ds, heq, hdigits, -, -⟩ := exists_decimal n
    refine ⟨fun h => absurd h (by simp), fun _ => ?_⟩
    rw [show toString (Int.ofNat n) = toString n from rfl, heq]
    exact hdigits
  | negSucc n =>
    rw [ascii_toString_negSucc]
    exact ⟨fun _ => rfl, fun h => absurd h (by simp)⟩

theorem head?_ne_minus (h : ∀ b ∈ w, Byte.isDigit b = true) : w.head? ≠ some Byte.minus := by
  intro hminus
  obtain ⟨r, rfl⟩ := List.head?_eq_some_iff.mp hminus
  exact absurd (h Byte.minus List.mem_cons_self) (by decide)

/-- A number that begins with a minus is no id. -/
theorem idProblem_of_minus {n : Number} (hw : w.head? = some Byte.minus)
    (h : readNumber w = .ok (n, [])) (name : String) :
    IdProblem name (some n) (.missingId name (some n.text)) := by
  obtain ⟨i, rfl, hi⟩ | ⟨z, rfl⟩ := readNumber_cases h
  · refine .negative (lt_of_not_ge fun hge => ?_)
    exact head?_ne_minus ((head?_of_spellsInteger hi).2 hge) hw
  · exact .double (.inl (by simpa using hw))

/-- Neither is a number with a fraction or an exponent. -/
theorem idProblem_of_not_isDigit {n : Number} (hw : w.head? ≠ some Byte.minus)
    (hdigits : ∃ b ∈ w, Byte.isDigit b = false) (h : readNumber w = .ok (n, [])) (name : String) :
    ∃ z, n = .double false z ∧ IdProblem name (some n)
      (if z.atLeast integerBound then .idOutOfRange name n.text
        else .missingId name (some n.text)) := by
  obtain ⟨i, rfl, hi⟩ | ⟨z, rfl⟩ := readNumber_cases h
  · obtain ⟨hnegative, hdigit⟩ := head?_of_spellsInteger hi
    obtain ⟨b, hb, hb'⟩ := hdigits
    refine absurd (hnegative (lt_of_not_ge fun hge => ?_)) hw
    rw [hdigit hge b hb] at hb'
    cases hb'
  · rw [decide_eq_false hw]
    refine ⟨z, rfl, ?_⟩
    split
    · next hz => exact .huge hz
    · next hz => exact .double (.inr (by simpa using hz))

/-- Digits that make up more than 255 are too large for an id, however many they are. -/
theorem idProblem_of_large {n : Number} (hw : IsWhole w) (hv : 255 < valueFrom 0 w)
    (h : readNumber w = .ok (n, [])) (name : String) :
    IdProblem name (some n) (.idOutOfRange name n.text) ∧
      (valueFrom 0 w < 2 ^ 64 → ascii n.text = w) := by
  obtain ⟨hsmall, hlarge⟩ := readNumber_of_isWhole hw
  obtain hlt | hge := Nat.lt_or_ge (valueFrom 0 w) (2 ^ 64)
  · rw [hsmall hlt] at h
    cases h
    exact ⟨.large (by omega), fun _ => hw.eq_ascii.symm⟩
  · obtain ⟨z, rfl, hz⟩ := (hlarge hge).1 n h
    have hbound : integerBound = 2 ^ 64 := by decide
    refine ⟨.huge (Binary64.atLeast_iff.mpr ?_), fun hlt => absurd hlt (Nat.not_lt.mpr hge)⟩
    rw [hbound]
    exact_mod_cast hz

namespace Schema

/-- Ids are classified by their values, at any magnitude. Where the text of a document has a number
for the id of an entry, in front of which all makes sense and in which all else does, digits up to
255 are the id, and the document is refused only for a collision or for what stands behind. More
digits are out of range, and those below `2 ^ 64` are shown as they are written. A number with a
minus is no id. One with a fraction or an exponent is never one, and out of range only as a double
of at least `2 ^ 64`. The document is malformed if the number is too large for a double, which takes
more than 308 digits if there are only digits.

That the text is a document with a zero for the number (`hzero`) gives it the shape of one. It also
leaves out texts that are refused for other reasons, whatever the number is: brackets nested more
deeply than `codeDepth` in a type code, half a surrogate pair in a string behind the id, or another
number that is too large. -/
theorem load?_of_number {front rest : Bytes} {name : String} {x : Definition}
    (hfront : Document.UpToId earlier.length front) (hrest : Follows rest)
    (hzero : Document.read? (front ++ Byte.zero :: rest) = .ok (earlier ++ (name, x) :: later))
    (hearlier : earlier.Accepted) (hname : IsName name) (hx : x.Consistent) (hw : IsNumber w) :
    let v := valueFrom 0 w
    let outcome := load? (front ++ (w ++ rest))
    let malformed := (∀ n, readNumber w ≠ .ok (n, [])) ∧
      ∃ e, outcome = .error (.malformed memoryPath e) ∧ e.cause = .numberOutOfRange
    ((∀ b ∈ w, Byte.isDigit b = true) →
      (v ≤ 255 →
        let m : String × Definition := (name, { x with id := some (.integer v) })
        Document.read? (front ++ (w ++ rest)) = .ok (earlier ++ m :: later) ∧
          ∃ id : UInt8, id.toNat = v ∧ checkId name m.2.id = .ok id ∧
            (∀ s, outcome = .ok s →
              ∃ x, s.messages[earlier.length]? = some x ∧ x.name = name ∧ x.id = id) ∧
              ∀ e, outcome = .error e →
                ∃ e', e = .invalid e' ∧ ((earlier ++ [m]).Accepted ∨ Collision earlier m id e')) ∧
        (255 < v →
          (∃ text, outcome = .error (.invalid (.idOutOfRange name text)) ∧
            (v < 2 ^ 64 → ascii text = w)) ∨ 308 < w.length ∧ malformed)) ∧
      (w.head? = some Byte.minus →
        (∃ text, outcome = .error (.invalid (.missingId name (some text)))) ∨ malformed) ∧
        (w.head? ≠ some Byte.minus → (∃ b ∈ w, Byte.isDigit b = false) →
          (∃ z, readNumber w = .ok (.double false z, []) ∧ outcome = .error (.invalid
            (if z.atLeast integerBound then .idOutOfRange name (Number.double false z).text
              else .missingId name (some (Number.double false z).text)))) ∨ malformed) := by
  intro v outcome malformed
  obtain ⟨n, d, hn, hd, earlier', name', x', later', hlength, heq, rfl⟩ | ⟨hnone, e, he, hcause⟩ :=
    Document.read?_of_upToId hfront hrest hzero hw
  · -- the other document has the same entries but for the id
    obtain ⟨rfl, hrest⟩ := List.append_inj heq hlength.symm
    cases hrest
    have hrefused {e : SchemaError} (h : IdProblem name (some n) e) :
        outcome = .error (.invalid e) :=
      load?_of_entryProblem hd hearlier (.alone (.id hname h))
    refine ⟨fun hdigits => ⟨fun hv => ?_, fun hv => .inl ?_⟩, fun hminus => .inl ?_,
      fun hminus hdigits => .inl ?_⟩
    · intro m
      have hinteger := (readNumber_of_isWhole (hw.isWhole hdigits)).1 (by omega)
      rw [hinteger] at hn
      cases hn
      have hbyte : v.toUInt8.toNat = v := by
        simp only [Nat.toUInt8, UInt8.toNat_ofNat']
        omega
      have hid : m.2.id = some (.integer v.toUInt8.toNat) := by rw [hbyte]
      have hm : m.2.Consistent := ⟨⟨v, hv, rfl⟩, hx.names, hx.distinct, hx.codes⟩
      exact ⟨hd, v.toUInt8, hbyte, checkId_eq_ok_iff.mpr hid,
        load?_of_consistent hd hearlier hname hm hid⟩
    · obtain ⟨hproblem, htext⟩ := idProblem_of_large (hw.isWhole hdigits) hv hn name
      exact ⟨n.text, hrefused hproblem, htext⟩
    · exact ⟨n.text, hrefused (idProblem_of_minus hminus hn name)⟩
    · obtain ⟨z, rfl, hproblem⟩ := idProblem_of_not_isDigit hminus hdigits hn name
      exact ⟨z, hn, hrefused hproblem⟩
  · have hmalformed : malformed := by
      refine ⟨hnone, e, ?_, hcause⟩
      show load? _ = _
      rw [load?, ofBytes?, he]
    refine ⟨fun hdigits => ?_, fun _ => .inr hmalformed, fun _ _ => .inr hmalformed⟩
    obtain ⟨hsmall, hlarge⟩ := readNumber_of_isWhole (hw.isWhole hdigits)
    have hv : 2 ^ 64 ≤ v := Nat.le_of_not_lt fun hlt => hnone _ (hsmall hlt)
    refine ⟨fun hle => by omega, fun _ => .inr ⟨?_, hmalformed⟩⟩
    by_contra hlength
    obtain ⟨n, hn⟩ := (hlarge hv).2 (Nat.le_of_not_lt hlength)
    exact hnone n hn

/-- Behind an entry, the id of another one with a bundle flag in front. -/
theorem upToId_bundle :
    Document.UpToId 1 (ascii "\x7b\"a\":\x7b\"id\":1\x7d,\"b\":\x7b\"bundle\":true,\"id\":") := by
  have hkey (key : String) (h : ∀ c ∈ key.toList, 0x20 ≤ c.toNat ∧ c ≠ '"' ∧ c ≠ '\\') :=
    spellsString_encode h
  have hid : (Part.id (some 1)).Spells codeDepth (ascii "1") :=
    ⟨by decide, by decide, by decide +kernel⟩
  have hbundle : (Part.bundle true).Spells codeDepth (ascii "true") := by rfl
  have hentry : Member (SpellsString "a") (Membered (fun p : Part =>
      Member (SpellsString p.key) (p.Spells codeDepth)) [.id (some 1)]) _ :=
    .colon (hkey "a" (by simp)) .nil .nil
      (.items (.one (.self (.colon (hkey "id" (by simp)) .nil .nil hid))))
  have hflag : Member (SpellsString "bundle") ((Part.bundle true).Spells codeDepth) _ :=
    .colon (hkey "bundle" (by simp)) .nil .nil hbundle
  have hdocument : UpTo (fun w : String × List Part => Member (SpellsString w.1)
      (Membered (fun p => Member (SpellsString p.key) (p.Spells codeDepth)) w.2))
      [("a", [.id (some 1)])] "b" _ :=
    .colon (.cons (.self hentry) .nil) .nil (hkey "b" (by simp)) .nil .nil
  have hdefinition : UpTo (fun p : Part => Member (SpellsString p.key) (p.Spells codeDepth))
      [.bundle true] "id" _ :=
    .colon (.cons (.self hflag) .nil) .nil (hkey "id" (by simp)) .nil .nil
  refine Eq.mp (congrArg _ ?_) (Document.UpToId.entry rfl .nil hdocument hdefinition)
  decide +kernel

/-- A document with an id at this place. -/
theorem read?_bundle :
    Document.read? (ascii "\x7b\"a\":\x7b\"id\":1\x7d,\"b\":\x7b\"bundle\":true,\"id\":" ++
      Byte.zero :: ascii "\x7d,\"c\":\x7b\x7d\x7d") = .ok [("a", ⟨some (.integer 1), false, []⟩),
        ("b", ⟨some (.integer 0), true, []⟩), ("c", ⟨none, false, []⟩)] := by
  cbv

/-- The least integer that does not fit into 64 bits, and a zero with a minus, between two other
entries. -/
theorem load?_of_number_large :
    let front := ascii "\x7b\"a\":\x7b\"id\":1\x7d,\"b\":\x7b\"bundle\":true,\"id\":"
    let rest := ascii "\x7d,\"c\":\x7b\x7d\x7d"
    Document.read? (front ++ Byte.zero :: rest) = .ok [("a", ⟨some (.integer 1), false, []⟩),
      ("b", ⟨some (.integer 0), true, []⟩), ("c", ⟨none, false, []⟩)] ∧
    (∃ text, load? (front ++ (ascii "18446744073709551616" ++ rest)) =
      .error (.invalid (.idOutOfRange "b" text))) ∧
    ∃ text, load? (front ++ (ascii "-0" ++ rest)) =
      .error (.invalid (.missingId "b" (some text))) := by
  have hfront : Document.UpToId (List.length (α := String × Definition)
      [("a", ⟨some (.integer 1), false, []⟩)]) _ := upToId_bundle
  have hearlier : Document.Accepted [("a", ⟨some (.integer 1), false, []⟩)] :=
    .inr ⟨⟨[⟨"a", "A", 1, false, []⟩]⟩, by decide +kernel⟩
  have hname : IsName "b" := isIdentifier_iff.mp (by decide +kernel)
  have hx : Definition.Consistent ⟨some (.integer 0), true, []⟩ :=
    ⟨⟨0, by decide, rfl⟩, by simp, by simp, by simp⟩
  have hrest : Follows (ascii "\x7d,\"c\":\x7b\x7d\x7d") := by
    intro b hb
    cases hb
    decide
  have hdigits : ∀ b ∈ ascii "18446744073709551616", Byte.isDigit b = true := by decide +kernel
  have hlarge : IsNumber (ascii "18446744073709551616") := by
    have hwhole : IsWhole (ascii "18446744073709551616") :=
      .digits ⟨by decide, hdigits⟩ (by decide +kernel)
    exact @IsNumber.parts [] _ [] [] (by decide) hwhole .none .none
  have hminus : IsNumber (ascii "-0") :=
    @IsNumber.parts [Byte.minus] _ [] [] (by decide) .zero .none .none
  refine ⟨read?_bundle, ?_, ?_⟩
  · obtain ⟨hclassified, -⟩ :=
      load?_of_number hfront hrest read?_bundle hearlier hname hx hlarge
    obtain ⟨text, h, -⟩ | ⟨hlength, -⟩ := (hclassified hdigits).2 (by decide +kernel)
    · exact ⟨text, h⟩
    · exact absurd hlength (by decide +kernel)
  · obtain ⟨-, hclassified, -⟩ :=
      load?_of_number hfront hrest read?_bundle hearlier hname hx hminus
    obtain h | ⟨hnone, -⟩ := hclassified (by decide +kernel)
    · exact h
    · exact absurd (by decide +kernel) (hnone (.double true Binary64.zero))

end Schema

end Telemetry
