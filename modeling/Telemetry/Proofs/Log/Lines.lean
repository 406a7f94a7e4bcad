import Telemetry.Event
import Telemetry.Proofs.Schema.Consistent

/-!
# Lines of the log

How events read in the log (`Event.Reads`): every kind of event has a line of its own, in which only
names, numbers and paths vary. That the lines made for events read so (`Event.Reads.line`) needs two
facts on text. Messages hold no character that a terminal would obey, and the name of a message type
is an identifier, so quoting it only puts it between quotes.
-/

namespace Telemetry

/-! ### Names in quotes -/

/-- A number is in none of the ranges if each ends below it or begins above it. -/
theorem inRanges_eq_false {ranges : List (Nat × Nat)} {n : Nat}
    (h : ∀ r ∈ ranges, r.2 < n ∨ n < r.1) : Text.inRanges ranges n = false := by
  refine List.any_eq_false.mpr fun r hr => ?_
  have hr := h r hr
  simp only [Bool.and_eq_true, decide_eq_true_eq]
  omega

/-- What is visible in ASCII is shown as itself. -/
theorem isShown_of_lt {c : Char} (h : 0x20 < c.toNat) (h' : c.toNat < 0x7f) :
    Text.isShown c = true := by
  have hunprintable : ∀ r ∈ Text.unprintableRanges, r.2 ≤ 0x20 ∨ 0x7f ≤ r.1 := by decide +kernel
  have hattached : ∀ r ∈ Text.graphemeExtendRanges, 0x7f ≤ r.1 := by decide +kernel
  have hvisible : Text.isUnprintable c = false := inRanges_eq_false fun r hr => by
    have hr := hunprintable r hr
    omega
  have hranges : Text.inRanges Text.graphemeExtendRanges c.toNat = false :=
    inRanges_eq_false fun r hr => .inr (Nat.lt_of_lt_of_le h' (hattached r hr))
  simp [Text.isShown, Text.isAttached, hvisible, hranges]

/-- The characters of names stand for themselves in quoted text. -/
theorem quotedChar_of_isNameChar {c : Char} (h : IsLetter c ∨ IsDigit c ∨ c = '_') :
    Text.quotedChar c = String.singleton c := by
  have hbetween {a b : Char} (ha : 0x20 < a.toNat) (hb : b.toNat < 0x7f) (h : a ≤ c ∧ c ≤ b) :
      0x20 < c.toNat ∧ c.toNat < 0x7f :=
    ⟨Nat.lt_of_lt_of_le ha h.1, Nat.lt_of_le_of_lt h.2 hb⟩
  have hc : 0x20 < c.toNat ∧ c.toNat < 0x7f := by
    obtain (h | h) | h | rfl := h
    · exact hbetween (by decide) (by decide) h
    · exact hbetween (by decide) (by decide) h
    · exact hbetween (by decide) (by decide) h
    · decide
  unfold Text.quotedChar
  split
  case h_7 => rw [if_pos (isShown_of_lt hc.1 hc.2)]
  -- the characters with an escape of their own are in no name
  all_goals exact absurd h (by unfold IsLetter IsDigit; decide)

/-- A name in quotes is the name between quotes. -/
theorem IsName.quoted {name : String} (h : IsName name) :
    Text.quoted name = "\"" ++ name ++ "\"" := by
  have hmap : name.toList.map Text.quotedChar = name.toList.map String.singleton :=
    List.map_congr_left fun c hc => quotedChar_of_isNameChar (h.char c hc)
  have hjoin : String.join (name.toList.map String.singleton) = name := by
    rw [← String.toList_inj]
    simp [List.flatMap_map]
  rw [Text.quoted, hmap, hjoin]

/-! ### Lines -/

/-- The stages in which sections of the header are made, and their names. -/
def sectionNames : List (Stage × String) :=
  [(.enumeration, "enumeration"), (.layouts, "layouts"), (.senders, "send stubs"),
    (.formats, "format descriptors"), (.registrationTable, "registration table"),
    (.registrationFunction, "registration function")]

namespace Event

/-- How an event reads in the log: how important it is, the part of the program it belongs to, what
happens, the name of the stage if one begins, and what else is known. -/
inductive Reads : Event → String → Prop where
  | reading (path : String) : Reads (.reading path)
    ("DEBUG msgspec_codegen::compose: reading spec stage=load path=" ++ path)
  | validating (messages : Nat) : Reads (.validating messages)
    ("DEBUG msgspec_codegen::compose: validating spec stage=validate message_types="
      ++ toString messages)
  | accepted {name : String} (id : UInt8) (fields : Nat) : IsName name →
    Reads (.accepted name id fields)
      ("TRACE msgspec_codegen::repr: validated message type name=\"" ++ name ++ "\""
        ++ " id=" ++ toString id.toNat ++ " fields=" ++ toString fields)
  | emitting {stage : Stage} {name : String} : (stage, name) ∈ sectionNames →
    Reads (.emitting stage) ("DEBUG msgspec_codegen::codegen: emitting stage=" ++ name)
  | closing : Reads .closing
    "DEBUG msgspec_codegen::compose: closing include guard stage=finalize"
  | committing (path : String) : Reads (.committing path)
    ("DEBUG msgspec_codegen::compose: committing stage=write path=" ++ path)
  | composed (path : String) (messages : Nat) : Reads (.composed path messages)
    ("INFO msgspec_codegen::compose: message spec composition done path=" ++ path
      ++ " message_types=" ++ toString messages)
  | noOutput (path : String) : Reads (.noOutput path)
    ("DEBUG msgspec_codegen::compose: no existing output path=" ++ path)

/-- Messages stand in the log as they are. -/
theorem join_message (e : Event) : String.join (e.message.toList.map logChar) = e.message := by
  cases e <;> rw [message] <;> decide +kernel

/-- The line of an event is what it reads. -/
theorem Reads.line {e : Event} {text : String} (h : e.Reads text) : e.Reads e.line := by
  have hnames : ∀ p ∈ sectionNames, p.1.text = p.2 := by decide
  have htext : text = e.line := by
    rw [Event.line, logLine, join_message]
    -- bracketed to the left, what is fixed comes together in front of what is not
    cases h with
    | @emitting stage name hname =>
      have hname : stage.text = name := hnames _ hname
      simp [stage?, details, level, message, source, Level.text, hname, ← String.append_assoc]
    | accepted id fields hname =>
      simp [stage?, details, level, message, source, Level.text, hname.quoted,
        ← String.append_assoc]
    | _ =>
      simp [stage?, details, level, message, source, Level.text, Stage.text,
        ← String.append_assoc]
  exact htext ▸ h

end Event

end Telemetry
