import Iamf.Leb128

/-!
# `Iamf.Bits.Field`: writing a sequence of fields

A record of the format is a sequence of fields. Bit fields follow one another
without gaps; a variable length number and a byte string start at a byte
boundary, zero bits filling the byte before them. `pack` gives the bytes of a
sequence, filled up to a whole byte at the end, and `Field.read` is the reading
program that matches a field.
-/

set_option autoImplicit false

namespace Iamf

/-- One field of a record. -/
inductive Field where
  /-- The low `width` bits of a number. -/
  | bits (width value : Nat)
  /-- A variable length number. -/
  | leb128 (value : UInt32)
  /-- A byte string. -/
  | bytes (value : Bytes)
  deriving DecidableEq, Repr

namespace Field

/-- A byte, at any bit. -/
def byte (value : UInt8) : Field :=
  .bits 8 value.toNat

/-- A 16 bit word. -/
def uint16 (value : UInt16) : Field :=
  .bits 16 value.toNat

/-- A two's complement 16 bit word. -/
def int16 (value : Int16) : Field :=
  .bits 16 value.toUInt16.toNat

/-- The low 24 bits of a word. -/
def uint24 (value : UInt32) : Field :=
  .bits 24 value.toNat

/-- A 32 bit word. -/
def uint32 (value : UInt32) : Field :=
  .bits 32 value.toNat

/-- The bits written so far, with a field behind them. -/
def append (written : List Bool) : Field → List Bool
  | bits width value => written ++ Bits.ofNat width value
  | leb128 value => Bits.pad written ++ Bits.ofBytes (Leb128.encode value)
  | bytes value => Bits.pad written ++ Bits.ofBytes value

/-- The bytes of a sequence of fields. -/
def pack (fields : List Field) : Bytes :=
  Bits.toBytes (Bits.pad (fields.foldl append []))

/-- Reads a field of the same shape back. -/
def read : Field → Read Field
  | bits width _ => do return bits width (← Read.bits width)
  | leb128 _ => do return leb128 (← Leb128.read)
  | bytes value => do return bytes (← Read.bytes value.length)

end Field

end Iamf
