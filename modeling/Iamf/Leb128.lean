import Iamf.Bits.Reader

/-!
# `Iamf.Leb128`: variable length numbers

Sizes, counts and ids are written as unsigned LEB128: seven payload bits per
byte, least significant group first, the high bit set while another byte
follows. A writer uses as few bytes as possible; a reader accepts up to eight
bytes, as long as the value fits into 32 bits.

* `length_encode`: `size` is the number of bytes written.
-/

set_option autoImplicit false

namespace Iamf.Leb128

/-- The most bytes that a number may occupy. -/
def maxSize : Nat := 8

/-- Reads up to `left` further bytes of a number whose first `index` bytes
spelled `value`. Gives the number and how many bytes it occupied in all. -/
def readFrom : (left index value : Nat) → Read (UInt32 × Nat)
  | 0, _, _ => throw .leb128TooLong
  | left + 1, index, value => do
    let byte ← Read.byte
    let group := byte.toNat % 128
    -- Groups 0 to 3 are 28 bits, group 4 may add the top four.
    ensure (index ≤ 3 ∨ (index = 4 ∧ group < 16) ∨ group = 0) .leb128Overflow
    let value := value + group <<< (7 * index)
    if byte.toNat < 128 then return (UInt32.ofNat value, index + 1)
    else readFrom left (index + 1) value

/-- A number, and how many bytes it occupies. -/
def readSized : Read (UInt32 × Nat) :=
  readFrom maxSize 0 0

/-- A number. -/
def read : Read UInt32 :=
  Prod.fst <$> readSized

/-- The number at the start of a byte string, and how many bytes it occupies. -/
def decode (bytes : Bytes) : Except Error (UInt32 × Nat) :=
  readSized.parse "leb128" bytes

/-- How many bytes a number needs. -/
def size (value : UInt32) : Nat :=
  if value.toNat < 0x80 then 1
  else if value.toNat < 0x4000 then 2
  else if value.toNat < 0x200000 then 3
  else if value.toNat < 0x10000000 then 4
  else 5

/-- The low groups of a number, `more` of them with a group after them. -/
def groups : (more value : Nat) → Bytes
  | 0, value => [UInt8.ofNat (value % 128)]
  | more + 1, value => UInt8.ofNat (value % 128 + 128) :: groups more (value / 128)

/-- The bytes of a number. -/
def encode (value : UInt32) : Bytes :=
  groups (size value - 1) value.toNat

theorem length_groups (more value : Nat) : (groups more value).length = more + 1 := by
  induction more generalizing value with
  | zero => rfl
  | succ more ih => simp [groups, ih]

/-- `size` is the number of bytes written. -/
theorem length_encode (value : UInt32) : (encode value).length = size value := by
  rw [encode, length_groups]
  simp only [size]
  repeat' split
  all_goals omega

theorem lt_of_readFrom {left index value : Nat} {reader after : Reader} {number : UInt32}
    {size : Nat} (h : readFrom left index value reader = .ok ((number, size), after)) :
    index < size := by
  induction left generalizing index value reader with
  | zero => exact absurd h (by simp [readFrom, Read.throw_eq_ok])
  | succ left ih =>
    simp only [readFrom, Read.bind_eq_ok, Read.ensure_eq_ok] at h
    obtain ⟨byte, _, -, _, _, -, h⟩ := h
    split at h
    · simp only [Read.pure_eq_ok, Prod.mk.injEq] at h
      omega
    · exact Nat.lt_of_succ_lt (ih h)

/-- A number occupies at least one byte. -/
theorem one_le_of_readSized {reader after : Reader} {number : UInt32} {size : Nat}
    (h : readSized reader = .ok ((number, size), after)) : 1 ≤ size :=
  lt_of_readFrom h

end Iamf.Leb128
