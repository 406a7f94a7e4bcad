/-!
# Wire types

The closed set of types that a field of a message can have. Each has a code, which is what documents
and format arrays hold, a C type for the generated layouts, and a width in bytes on the wire.
-/

namespace Telemetry

/-- The type of a field on the wire. -/
inductive WireType where
  /-- A time difference in whole seconds. -/
  | seconds
  /-- A time difference of seconds and milliseconds, packed into 32 bits. -/
  | milliseconds
  | uint8
  | int8
  | uint16
  | int16
  | uint32
  | int32
deriving DecidableEq, Repr

namespace WireType

/-- All wire types, in the order of their codes. -/
def all : List WireType :=
  [seconds, milliseconds, uint8, int8, uint16, int16, uint32, int32]

/-- The code that stands for the type in documents and format arrays. -/
def code : WireType → UInt8
  | seconds => 0
  | milliseconds => 1
  | uint8 => 2
  | int8 => 3
  | uint16 => 4
  | int16 => 5
  | uint32 => 6
  | int32 => 7

/-- The type that a code stands for. -/
def ofCode? : Nat → Option WireType
  | 0 => some seconds
  | 1 => some milliseconds
  | 2 => some uint8
  | 3 => some int8
  | 4 => some uint16
  | 5 => some int16
  | 6 => some uint32
  | 7 => some int32
  | _ => none

/-- The name of the type in a generated layout. -/
def cType : WireType → String
  | seconds => "timediff_s"
  | milliseconds => "timediff_ms"
  | uint8 => "uint8_t"
  | int8 => "int8_t"
  | uint16 => "uint16_t"
  | int16 => "int16_t"
  | uint32 => "uint32_t"
  | int32 => "int32_t"

/-- The number of bytes that a field of the type takes on the wire. -/
def width : WireType → Nat
  | uint8 | int8 => 1
  | uint16 | int16 => 2
  | seconds | milliseconds | uint32 | int32 => 4

/-- Reading a code back gives the type that has it. -/
@[simp] theorem ofCode?_code (t : WireType) : ofCode? t.code.toNat = some t := by
  cases t <;> rfl

/-- A number is the code of a type exactly if it is that type's code. -/
theorem ofCode?_eq_some_iff {n : Nat} {t : WireType} : ofCode? n = some t ↔ n = t.code.toNat := by
  constructor
  · intro h
    unfold ofCode? at h
    split at h <;> simp_all [code] <;> subst t <;> rfl
  · rintro rfl
    exact ofCode?_code t

end WireType

end Telemetry
