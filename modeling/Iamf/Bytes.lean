/-!
# `Iamf.Bytes`: byte strings and big endian words

A byte string is a list of bytes, so an encoder is a function into lists and a
parser lemma can speak of `encode x ++ rest`. This module adds the one way to
take a fixed number of bytes off the front, and the big endian words of the
format.

* `Bytes.split?_eq_some_iff`: `split? n` succeeds exactly when the string
  starts with `n` bytes, and gives those bytes and what follows them.
-/

set_option autoImplicit false

namespace Iamf

/-- A string of bytes, first byte first. -/
abbrev Bytes := List UInt8

namespace Bytes

/-- The first `n` bytes and the rest, or nothing when there are fewer than `n`. -/
def split? (n : Nat) (bytes : Bytes) : Option (Bytes × Bytes) :=
  let (front, rest) := bytes.splitAt n
  if front.length = n then some (front, rest) else none

/-- `split?` gives back the two parts of the string, cut after `n` bytes. -/
theorem split?_eq_some_iff {n : Nat} {bytes front rest : Bytes} :
    split? n bytes = some (front, rest) ↔ bytes = front ++ rest ∧ front.length = n := by
  simp only [split?, List.splitAt_eq]
  constructor
  · intro h
    split at h
    · rename_i hlen
      simp only [Option.some.injEq, Prod.mk.injEq] at h
      obtain ⟨rfl, rfl⟩ := h
      exact ⟨(List.take_append_drop n bytes).symm, hlen⟩
    · exact absurd h (by simp)
  · rintro ⟨rfl, rfl⟩
    simp

/-- `split?` fails exactly when the string is too short. -/
theorem split?_eq_none_iff {n : Nat} {bytes : Bytes} :
    split? n bytes = none ↔ bytes.length < n := by
  simp only [split?, List.splitAt_eq, List.length_take]
  split <;> simp <;> omega

/-- Splitting an append after its first part. -/
theorem split?_append {n : Nat} {front : Bytes} (rest : Bytes) (h : front.length = n) :
    split? n (front ++ rest) = some (front, rest) :=
  split?_eq_some_iff.2 ⟨rfl, h⟩

/-! ### Big endian words -/

/-- A 16 bit word, high byte first. -/
def ofUInt16 (value : UInt16) : Bytes :=
  [UInt8.ofNat (value.toNat / 256), UInt8.ofNat value.toNat]

/-- A two's complement 16 bit word, high byte first. -/
def ofInt16 (value : Int16) : Bytes :=
  ofUInt16 value.toUInt16

/-- The low 24 bits of a word, high byte first. -/
def ofUInt24 (value : UInt32) : Bytes :=
  [UInt8.ofNat (value.toNat / 65536), UInt8.ofNat (value.toNat / 256),
    UInt8.ofNat value.toNat]

/-- A 32 bit word, high byte first. -/
def ofUInt32 (value : UInt32) : Bytes :=
  [UInt8.ofNat (value.toNat / 16777216), UInt8.ofNat (value.toNat / 65536),
    UInt8.ofNat (value.toNat / 256), UInt8.ofNat value.toNat]

end Bytes

end Iamf
