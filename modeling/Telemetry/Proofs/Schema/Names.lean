import Telemetry.Proofs.Schema.WellFormed

/-!
# Names of message types

Which names the declarations for a message type get, and when two of them are the same: within one
kind of declaration only for message types of the same name, of which a well-formed schema has no
two.
-/

namespace Telemetry

/-- There are no small letters in upper case. -/
theorem isLower_toUpper (c : Char) : c.toUpper.isLower = false := by
  simp only [Char.isLower, Char.toUpper]
  grind

namespace Message

variable {m n : Message}

theorem layoutName_injective (h : m.layoutName = n.layoutName) : m.name = n.name :=
  (String.append_right_inj _).mp ((String.append_left_inj _).mp h)

theorem formatName_injective (h : m.formatName = n.formatName) : m.name = n.name :=
  (String.append_right_inj _).mp h

theorem senderName_injective (h : m.senderName = n.senderName) : m.name = n.name :=
  (String.append_right_inj _).mp h

/-- When a layout has the name of a format array. -/
theorem layoutName_eq_formatName_iff :
    m.layoutName = n.formatName ↔ m.name ++ "_t" = "binary_" ++ n.name := by
  have hlayout : m.layoutName = "msgspec_" ++ (m.name ++ "_t") := String.append_assoc ..
  have hformat : n.formatName = "msgspec_" ++ ("binary_" ++ n.name) := by
    rw [formatName, ← String.append_assoc]
    rfl
  rw [hlayout, hformat, String.append_right_inj]

/-- The constant of a message type is none of the names with a small letter. -/
theorem WellFormed.ident_ne (h : m.WellFormed) {name : String} {c : Char} (hc : c ∈ name.toList)
    (hlower : c.isLower = true) : m.ident ≠ name := by
  rintro rfl
  simp only [h.ident_eq, constantOf, String.toList_map, List.mem_map] at hc
  obtain ⟨d, -, rfl⟩ := hc
  rw [isLower_toUpper] at hlower
  cases hlower

end Message

/-- Names that are made from those of the message types are pairwise distinct. -/
theorem MessagesWellFormed.nodup_map {messages : List Message} (h : MessagesWellFormed messages)
    {f : Message → String} (hf : ∀ m n, f m = f n → m.name = n.name) :
    (messages.map f).Nodup := by
  have hidents := List.pairwise_map.mp h.idents
  refine List.pairwise_map.mpr (hidents.imp_of_mem fun {m n} hm hn hne heq => hne ?_)
  rw [(h.each m hm).ident_eq, (h.each n hn).ident_eq, hf m n heq]

end Telemetry
