import Iamf.Bytes

/-!
# `Iamf.Bits.Basic`: numbers and bytes as bits, most significant first

`Bits.ofNat width value` are the low `width` bits of a number and `Bits.toNat`
reads bits as a number, both most significant first. `Bits.ofBytes` and
`Bits.toBytes` do the same for byte strings.
-/

set_option autoImplicit false

namespace Iamf.Bits

/-- The low `width` bits of `value`, most significant first. -/
def ofNat : (width value : Nat) → List Bool
  | 0, _ => []
  | width + 1, value => value.testBit width :: ofNat width value

/-- The number that the bits spell, most significant first. -/
def toNat (bits : List Bool) : Nat :=
  bits.foldl (fun value bit => 2 * value + bit.toNat) 0

@[simp] theorem length_ofNat (width value : Nat) : (ofNat width value).length = width := by
  induction width with
  | zero => rfl
  | succ width ih => simp [ofNat, ih]

@[simp] theorem toNat_nil : toNat [] = 0 := rfl

/-! ### Byte strings -/

/-- The bits of a byte string. -/
def ofBytes (bytes : Bytes) : List Bool :=
  bytes.flatMap fun byte => ofNat 8 byte.toNat

/-- The whole bytes that bits spell; up to seven bits at the end are dropped. -/
def toBytes : List Bool → Bytes
  | b₇ :: b₆ :: b₅ :: b₄ :: b₃ :: b₂ :: b₁ :: b₀ :: bits =>
    UInt8.ofNat (toNat [b₇, b₆, b₅, b₄, b₃, b₂, b₁, b₀]) :: toBytes bits
  | _ => []

/-- Zero bits up to the next byte boundary. -/
def pad (bits : List Bool) : List Bool :=
  bits ++ List.replicate ((8 - bits.length % 8) % 8) false

@[simp] theorem ofBytes_nil : ofBytes [] = [] := rfl

theorem ofBytes_cons (byte : UInt8) (bytes : Bytes) :
    ofBytes (byte :: bytes) = ofNat 8 byte.toNat ++ ofBytes bytes := rfl

theorem ofBytes_append (front rest : Bytes) :
    ofBytes (front ++ rest) = ofBytes front ++ ofBytes rest := by
  simp [ofBytes]

theorem length_ofBytes (bytes : Bytes) : (ofBytes bytes).length = 8 * bytes.length := by
  induction bytes with
  | nil => rfl
  | cons byte bytes ih =>
    simp only [ofBytes_cons, List.length_append, length_ofNat, ih, List.length_cons]
    omega

end Iamf.Bits
