import Telemetry.Bytes

/-!
# The schema checksum

The runtime compares schemas by a cyclic redundancy check of sixteen bits, the CCITT one: the
remainder of division by `x¹⁶ + x¹² + x⁵ + 1`, bits taken from the most significant end, with the
register full of ones at the start. `Checksum.absorb` takes in one byte, as eight single steps of
the shift register (`Checksum.shift`), and `Checksum.absorbAll` a sequence of them.
-/

namespace Telemetry

/-- The contents of the shift register, bit `i` being the coefficient of `xⁱ`. -/
abbrev Checksum := BitVec 16

namespace Checksum

/-- The low sixteen bits of the generator `x¹⁶ + x¹² + x⁵ + 1`. -/
def polynomial : Checksum := 0x1021

/-- The register before anything has been taken in. -/
def initial : Checksum := 0xffff

/-- One step of the shift register: multiply by `x` and reduce. -/
def shift (crc : Checksum) : Checksum :=
  if crc.msb then (crc <<< 1) ^^^ polynomial else crc <<< 1

/-- Takes in one byte, most significant bit first. -/
def absorb (crc : Checksum) (byte : UInt8) : Checksum :=
  Nat.repeat shift 8 (crc ^^^ (byte.toBitVec.setWidth 16 <<< 8))

/-- Takes in a sequence of bytes, in order. -/
def absorbAll (crc : Checksum) (bytes : Bytes) : Checksum :=
  bytes.foldl absorb crc

/-- The checksum of a sequence of bytes. -/
def ofBytes (bytes : Bytes) : Checksum :=
  initial.absorbAll bytes

@[simp] theorem absorbAll_nil (crc : Checksum) : crc.absorbAll [] = crc := rfl

@[simp] theorem absorbAll_cons (crc : Checksum) (b : UInt8) (bytes : Bytes) :
    crc.absorbAll (b :: bytes) = (crc.absorb b).absorbAll bytes := rfl

/-- Taking in two sequences one after the other is taking in the whole. -/
theorem absorbAll_append (crc : Checksum) (xs ys : Bytes) :
    crc.absorbAll (xs ++ ys) = (crc.absorbAll xs).absorbAll ys := by
  simp [absorbAll, List.foldl_append]

end Checksum

end Telemetry
