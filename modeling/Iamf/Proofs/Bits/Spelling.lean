import Iamf.Bits.Basic
import Mathlib.Algebra.Ring.Nat

/-!
# `Iamf.Proofs.Bits.Spelling`: bits spell what they came from

The bits of a number and of a byte string, and what they spell, are inverse to
each other, as far as the bits go.

* `toNat_ofNat`: reading the bits of a number back gives its low `width` bits.
* `ofNat_toNat`: the bits of a number read from bits are those bits.
* `toBytes_ofBytes`: the bits of a byte string spell that byte string.
* `drop_ofBytes_within`: what is left of them from any bit on.
-/

set_option autoImplicit false

namespace Iamf.Bits

/-! ### Numbers -/

theorem foldl_eq_add_toNat (bits : List Bool) (value : Nat) :
    bits.foldl (fun value bit => 2 * value + bit.toNat) value
      = value * 2 ^ bits.length + toNat bits := by
  induction bits generalizing value with
  | nil => simp [toNat]
  | cons bit bits ih =>
    simp only [toNat, List.foldl_cons, List.length_cons]
    rw [ih, ih (2 * 0 + bit.toNat)]
    simp only [Nat.pow_succ, Nat.add_mul, Nat.mul_zero, Nat.zero_add, ← Nat.add_assoc]
    congr 2
    rw [Nat.mul_comm 2 value, Nat.mul_assoc, Nat.mul_comm 2]

theorem toNat_cons (bit : Bool) (bits : List Bool) :
    toNat (bit :: bits) = bit.toNat * 2 ^ bits.length + toNat bits := by
  have h := foldl_eq_add_toNat bits (2 * 0 + bit.toNat)
  simpa [toNat] using h

/-- Bits spell a number below two to their count. -/
theorem toNat_lt (bits : List Bool) : toNat bits < 2 ^ bits.length := by
  induction bits with
  | nil => simp
  | cons bit bits ih =>
    rw [toNat_cons, List.length_cons, Nat.pow_succ]
    cases bit <;> simp <;> omega

/-- Reading the low bits of a number back gives the number modulo their range. -/
theorem toNat_ofNat (width value : Nat) : toNat (ofNat width value) = value % 2 ^ width := by
  induction width with
  | zero => simp [ofNat, Nat.mod_one]
  | succ width ih =>
    rw [ofNat, toNat_cons, length_ofNat, ih, Nat.mod_pow_succ, Nat.add_comm,
      Nat.testBit_eq_decide_div_mod_eq, Nat.mul_comm]
    rcases Nat.mod_two_eq_zero_or_one (value / 2 ^ width) with h | h <;> simp [h]

/-- The bits of a byte spell it. -/
theorem toNat_ofNat_byte (byte : UInt8) : toNat (ofNat 8 byte.toNat) = byte.toNat := by
  rw [toNat_ofNat]
  exact Nat.mod_eq_of_lt byte.toNat_lt

/-- The bits of a number depend on its low bits only. -/
theorem ofNat_mod {width modulus : Nat} (value : Nat) (h : width ≤ modulus) :
    ofNat width (value % 2 ^ modulus) = ofNat width value := by
  induction width with
  | zero => rfl
  | succ width ih =>
    rw [ofNat, ofNat, ih (by omega), Nat.testBit_mod_two_pow]
    simp [show width < modulus by omega]

/-- Spelling the number that bits spell gives the bits back. -/
theorem ofNat_toNat (bits : List Bool) : ofNat bits.length (toNat bits) = bits := by
  induction bits with
  | nil => rfl
  | cons bit bits ih =>
    have hlow : toNat (bit :: bits) % 2 ^ bits.length = toNat bits := by
      rw [toNat_cons, Nat.add_comm, Nat.add_mul_mod_self_right,
        Nat.mod_eq_of_lt (toNat_lt bits)]
    rw [List.length_cons, ofNat]
    congr 1
    · rw [toNat_cons, Nat.mul_comm, Nat.testBit_two_pow_mul_add _ (toNat_lt bits)]
      cases bit <;> simp
    · rw [← ofNat_mod _ (Nat.le_refl bits.length), hlow, ih]

theorem ofNat_toNat_of_length {bits : List Bool} {width : Nat} (h : bits.length = width) :
    ofNat width (toNat bits) = bits := by
  rw [← h, ofNat_toNat]

/-- The number that two pieces spell together. -/
theorem toNat_append (front back : List Bool) :
    toNat (front ++ back) = toNat front * 2 ^ back.length + toNat back := by
  rw [toNat, List.foldl_append, foldl_eq_add_toNat, ← toNat]

/-- Without its first bits a number has its lower ones left. -/
theorem drop_ofNat (count width value : Nat) :
    (ofNat (count + width) value).drop count = ofNat width value := by
  induction count with
  | zero => rw [Nat.zero_add, List.drop_zero]
  | succ count ih => rw [Nat.succ_add, ofNat, List.drop_succ_cons, ih]

/-- The first bits of a number are those of the number without its lower ones. -/
theorem take_ofNat (count width value : Nat) :
    (ofNat (count + width) value).take count = ofNat count (value >>> width) := by
  induction count with
  | zero => rfl
  | succ count ih =>
    rw [Nat.succ_add, ofNat, ofNat, List.take_succ_cons, ih, Nat.testBit_shiftRight,
      Nat.add_comm width]

/-! ### Byte strings -/

/-- Whole bytes are dropped as eight bits each. -/
theorem drop_ofBytes (count : Nat) (bytes : Bytes) :
    (ofBytes bytes).drop (8 * count) = ofBytes (bytes.drop count) := by
  induction count generalizing bytes with
  | zero => rfl
  | succ count ih =>
    cases bytes with
    | nil => simp
    | cons byte bytes =>
      have hlength : 8 * (count + 1) = (ofNat 8 byte.toNat).length + 8 * count := by
        rw [length_ofNat]
        omega
      rw [ofBytes_cons, List.drop_succ_cons, ← ih, hlength, List.drop_length_add_append]

/-- The bits from within a byte on: those left of the byte, and those of the bytes
behind it. -/
theorem drop_ofBytes_within {bytes rest : Bytes} {byte : UInt8} {count taken left : Nat}
    (h : bytes.drop count = byte :: rest) (hleft : taken + left = 8) :
    (ofBytes bytes).drop (8 * count + taken) = ofNat left byte.toNat ++ ofBytes rest := by
  have hlength : taken ≤ (ofNat 8 byte.toNat).length := by
    rw [length_ofNat]
    omega
  rw [← List.drop_drop, drop_ofBytes, h, ofBytes_cons, List.drop_append_of_le_length hlength,
    ← hleft, drop_ofNat]

/-- Bits that fill whole bytes are not filled up. -/
theorem pad_of_whole {bits : List Bool} (h : bits.length % 8 = 0) : pad bits = bits := by
  rw [pad, h, List.replicate_zero, List.append_nil]

/-- Bits that are filled up fill whole bytes. -/
theorem length_pad_mod (bits : List Bool) : (pad bits).length % 8 = 0 := by
  rw [pad, List.length_append, List.length_replicate]
  omega

/-- Zero bits are what zero is written with. -/
theorem ofNat_zero (width : Nat) : ofNat width 0 = List.replicate width false := by
  induction width with
  | zero => rfl
  | succ width ih => rw [ofNat, ih, Nat.zero_testBit, List.replicate_succ]

/-- The bits of a byte, then more bits, spell that byte first. -/
theorem toBytes_ofNat_append (byte : UInt8) (bits : List Bool) :
    toBytes (ofNat 8 byte.toNat ++ bits) = byte :: toBytes bits := by
  have hvalue := toNat_ofNat_byte byte
  simp only [ofNat, List.cons_append, List.nil_append, toBytes] at hvalue ⊢
  rw [hvalue, UInt8.ofNat_toNat]

/-- The bits of a byte string spell that byte string. -/
theorem toBytes_ofBytes (bytes : Bytes) : toBytes (ofBytes bytes) = bytes := by
  induction bytes with
  | nil => rfl
  | cons byte bytes ih => rw [ofBytes_cons, toBytes_ofNat_append, ih]

end Iamf.Bits
