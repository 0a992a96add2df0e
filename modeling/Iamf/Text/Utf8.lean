import Iamf.Bytes

/-!
# `Iamf.Text.Utf8`: UTF-8, and decoding what is not quite UTF-8

Text leaves the library as UTF-8 (`encode`). Text that comes in may be damaged,
so `decodeLossy` accepts every byte string: it decodes character by character
and puts one U+FFFD in the place of each maximal part that starts a character
and then breaks off, or of a byte that starts none.

A lead byte fixes how many tail bytes follow and the range of the first of
them (`Lead.ofByte?`); the narrowed ranges keep out overlong forms, surrogates
and values above U+10FFFF. Later tail bytes are 80 to BF.
-/

set_option autoImplicit false

namespace Iamf.Text.Utf8

/-- The UTF-8 bytes of a text. -/
def encode (text : String) : Bytes :=
  text.toList.flatMap String.utf8EncodeChar

/-- The character that stands for a part that could not be decoded. -/
def replacement : Char := '\uFFFD'

/-- What a lead byte of a multi-byte character announces. -/
structure Lead where
  /-- The payload bits of the lead byte. -/
  bits : Nat
  /-- Smallest first tail byte. -/
  low : Nat
  /-- Largest first tail byte. -/
  high : Nat
  /-- Tail bytes after the first one. -/
  further : Nat
  deriving DecidableEq, Repr

/-- The lead bytes of characters of two, three and four bytes. -/
def Lead.ofByte? (byte : UInt8) : Option Lead :=
  let b := byte.toNat
  if 0xC2 ≤ b ∧ b ≤ 0xDF then some ⟨b - 0xC0, 0x80, 0xBF, 0⟩
  else if b = 0xE0 then some ⟨0, 0xA0, 0xBF, 1⟩
  else if b = 0xED then some ⟨0xD, 0x80, 0x9F, 1⟩
  else if 0xE1 ≤ b ∧ b ≤ 0xEF then some ⟨b - 0xE0, 0x80, 0xBF, 1⟩
  else if b = 0xF0 then some ⟨0, 0x90, 0xBF, 2⟩
  else if 0xF1 ≤ b ∧ b ≤ 0xF3 then some ⟨b - 0xF0, 0x80, 0xBF, 2⟩
  else if b = 0xF4 then some ⟨4, 0x80, 0x8F, 2⟩
  else none

/-- Reads the tail of a character: one byte between `low` and `high`, then
`further` bytes between 80 and BF, six payload bits each. Gives the value if
the tail is whole, and in any case the bytes after the part that was. -/
def readTail (value low high : Nat) : Nat → Bytes → Option Nat × Bytes
  | _, [] => (none, [])
  | 0, b :: rest =>
    if low ≤ b.toNat ∧ b.toNat ≤ high then (some (value * 64 + (b.toNat - 0x80)), rest)
    else (none, b :: rest)
  | further + 1, b :: rest =>
    if low ≤ b.toNat ∧ b.toNat ≤ high then
      readTail (value * 64 + (b.toNat - 0x80)) 0x80 0xBF further rest
    else (none, b :: rest)

/-- Reading a tail never lengthens the text. -/
theorem length_readTail_le (value low high further : Nat) (bytes : Bytes) :
    (readTail value low high further bytes).2.length ≤ bytes.length := by
  induction further generalizing value low high bytes with
  | zero =>
    cases bytes with
    | nil => simp [readTail]
    | cons b rest => simp only [readTail]; split <;> simp
  | succ further ih =>
    cases bytes with
    | nil => simp [readTail]
    | cons b rest =>
      simp only [readTail]
      split
      · exact Nat.le_succ_of_le (ih _ _ _ _)
      · simp

/-- One character, or the replacement for one damaged part, and the bytes after it. -/
def decodeChar (b : UInt8) (rest : Bytes) : Char × Bytes :=
  if b.toNat < 0x80 then (Char.ofNat b.toNat, rest)
  else match Lead.ofByte? b with
    | none => (replacement, rest)
    | some lead =>
      match readTail lead.bits lead.low lead.high lead.further rest with
      | (some value, rest) => (Char.ofNat value, rest)
      | (none, rest) => (replacement, rest)

/-- Decoding a character never lengthens the text after its first byte. -/
theorem length_decodeChar_le (b : UInt8) (rest : Bytes) :
    (decodeChar b rest).2.length ≤ rest.length := by
  simp only [decodeChar]
  split
  · simp
  · split
    · simp
    · rename_i lead _
      have h := length_readTail_le lead.bits lead.low lead.high lead.further rest
      split <;> rename_i hread <;> rw [hread] at h <;> exact h

/-- The characters of a byte string, damaged parts replaced. -/
def decodeChars : Bytes → List Char
  | [] => []
  | b :: rest => (decodeChar b rest).1 :: decodeChars (decodeChar b rest).2
  termination_by bytes => bytes.length
  decreasing_by exact Nat.lt_succ_of_le (length_decodeChar_le b rest)

/-- The text of a byte string, damaged parts replaced. -/
def decodeLossy (bytes : Bytes) : String :=
  String.ofList (decodeChars bytes)

end Iamf.Text.Utf8
