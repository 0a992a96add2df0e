import Iamf.Bits.Reader

/-!
# `Iamf.SequenceHeader`: the start of a sequence

The body of a sequence header is four bytes of magic and the two profiles of
the stream.
-/

set_option autoImplicit false

namespace Iamf

/-- What a sequence header says. -/
structure SequenceHeader where
  /-- The profile that the stream conforms to. -/
  primaryProfile : UInt8
  /-- A profile that a more capable reader can use. -/
  additionalProfile : UInt8
  deriving DecidableEq, Repr

namespace SequenceHeader

/-- The bytes that start a sequence header, `iamf`. -/
def magic : Bytes := [0x69, 0x61, 0x6D, 0x66]

/-- Reads a sequence header body. -/
def read (strict : Bool) : Read SequenceHeader := do
  let found ← Read.bytes magic.length
  ensure (found = magic) (.badMagic found)
  let primaryProfile ← Read.byte
  let additionalProfile ← Read.byte
  Read.finish .sequenceHeader strict
  return { primaryProfile, additionalProfile }

/-- The sequence header of an OBU body. -/
def parse (strict : Bool) (body : Bytes) : Except Error SequenceHeader :=
  (read strict).parse "sequence header" body

/-- The OBU body of a sequence header. -/
def encode (header : SequenceHeader) : Bytes :=
  magic ++ [header.primaryProfile, header.additionalProfile]

end SequenceHeader

end Iamf
