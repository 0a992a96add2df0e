import Iamf.Proofs.Checked.Arithmetic
import Iamf.Proofs.Obu.Complete

/-!
# `Iamf.Proofs.Checked.Writing`: headers that are written, and those that are read back

Before it writes a header, the writer tests the size that will stand in it: the length
of the body and of the trimming fields. A reader tests that size, too, and then the size
together with the bytes in front of what it covers. So a header is read back unless its
OBU as a whole is too long, which the size alone does not tell: the bodies in the last
few bytes of the range get a header that no reader takes.

The size is the one sum of the writer. A length is a word of 64 bits, so the sum may not
fit, and then a machine stops, or goes on with the lower bits of it (`Overflow`). With
these it writes a header whose trimming fields exceed its size.

* `Obu.Header.parse_writtenBytes`: what a reader makes of a header that was written.
* `encodeHeader_of_lt`, `encodeHeader_of_ge`: the writer, on a machine.
* `Obu.Header.parse_of_encodeHeader`: which headers are read back.
-/

set_option autoImplicit false

namespace Iamf

namespace Obu.Header

variable {kind : Kind} {trim : Option Trim} {bodyLength : Nat}

/-- A reader takes the header that was written for a size if the whole OBU is in range
and the trimming fields are within the size. -/
theorem parse_writtenBytes (hkind : kind.IsCoded)
    (hsize : (written kind trim bodyLength).size.toNat ≤ maxSize) (rest : Bytes) :
    let size := (written kind trim bodyLength).size
    let whole := 1 + Leb128.size size + size.toNat
    let fieldBytes := (encodeTrim trim).length
    parse (writtenBytes kind trim bodyLength ++ rest)
      = if maxSize < whole then .error (.outOfRange "obu_size" whole)
        else if size.toNat < fieldBytes then
          .error (.invalidData (.headerExceedsSize fieldBytes size.toNat))
        else .ok {
          kind
          trim
          size
          headerLength := 1 + Leb128.size size + fieldBytes
          bodyLength := size.toNat - fieldBytes } := by
  intro size whole fieldBytes
  obtain ⟨hcode, hredundant, htrim, hextension⟩ := announces_of_isCoded hkind trim
  have hread := read_of_spells (Leb128.isNumber_encode size) hsize htrim hextension
    "OBU header" rest
  rw [hcode, hredundant, Leb128.length_encode] at hread
  simp only [List.length_nil, List.nil_append, Option.getD_none, UInt32.toNat_zero,
    Nat.add_zero] at hread
  have hbytes : writtenBytes kind trim bodyLength ++ rest
      = (kind.code <<< 3 ||| (if trim.isSome then 2 else 0))
        :: (Leb128.encode size ++ (encodeTrim trim ++ rest)) := by
    rw [writtenBytes, List.cons_append, List.append_assoc]
    rfl
  rw [hbytes, parse, Read.parse, Reader.ofBytes, hread]
  by_cases hwhole : whole ≤ maxSize
  · rw [ensure_of hwhole, pure_bind, if_neg (Nat.not_lt.2 hwhole)]
    by_cases hfields : fieldBytes ≤ size.toNat
    · rw [ensure_of hfields, pure_bind, if_neg (Nat.not_lt.2 hfields)]
      rfl
    · rw [ensure, if_neg hfields, if_pos (Nat.lt_of_not_le hfields)]
      rfl
  · rw [ensure, if_neg hwhole, if_pos (Nat.lt_of_not_le hwhole)]
    rfl

/-- The size that stands in a header is what the body and the trimming fields take. -/
theorem toNat_size_written (kind : Kind)
    (hsize : bodyLength + (encodeTrim trim).length ≤ maxSize) :
    (written kind trim bodyLength).size.toNat = bodyLength + (encodeTrim trim).length := by
  rw [maxSize] at hsize
  exact Read.toNat_ofNat_count (by omega)

/-- The writer refuses a size that is out of range, and nothing else. -/
theorem encode_eq_ite (kind : Kind) (trim : Option Trim) (bodyLength : Nat) :
    encode { kind, trim, bodyLength }
      = if bodyLength + (encodeTrim trim).length ≤ maxSize
        then .ok (writtenBytes kind trim bodyLength)
        else .error (.outOfRange "obu_size" bodyLength) := by
  by_cases hsize : bodyLength + (encodeTrim trim).length ≤ maxSize
  · rw [if_pos hsize, encode_of_size kind hsize]
  · rw [if_neg hsize]
    simp only [encode, ensure, if_neg hsize]
    rfl

/-- Trimming fields are two numbers. -/
theorem length_encodeTrim_le (trim : Option Trim) : (encodeTrim trim).length ≤ 10 := by
  cases trim with
  | none => exact Nat.zero_le _
  | some trim =>
    have hskip := Leb128.size_le trim.skipSamples
    have hdiscard := Leb128.size_le trim.discardPadding
    rw [encodeTrim, List.length_append, Leb128.length_encode, Leb128.length_encode]
    omega

end Obu.Header

/-! ### The writer on a machine -/

namespace Checked

open Obu (Header Kind Trim maxSize)
open Obu.Header (encodeTrim written writtenBytes)

/-- What a machine makes of a sum that does not fit into its word. -/
inductive Overflow where
  /-- The program stops. -/
  | stops
  /-- The sum loses the bits beyond the word. -/
  | wraps
  deriving DecidableEq, Repr

/-- The sum of two words of 64 bits. -/
def Overflow.add (overflow : Overflow) (a b : Nat) : Except Stop Nat :=
  match overflow with
  | stops => Checked.add 64 a b
  | wraps => return (a + b) % 2 ^ 64

/-- The bytes of a header for a body of `bodyLength` bytes that follows it. -/
def encodeHeader (overflow : Overflow) (header : Header) : Except Stop Bytes := do
  let trim := encodeTrim header.trim
  let size ← overflow.add header.bodyLength trim.length
  require (size ≤ maxSize) (.outOfRange "obu_size" header.bodyLength)
  let flags := header.kind.code <<< 3 ||| (if header.trim.isSome then 2 else 0)
  return flags :: (Leb128.encode (UInt32.ofNat size) ++ trim)

/-- As long as the sum fits, a machine writes what it should. -/
theorem encodeHeader_of_lt (overflow : Overflow) {header : Header}
    (h : header.bodyLength + (encodeTrim header.trim).length < 2 ^ 64) :
    encodeHeader overflow header = raise header.encode := by
  have hsum : overflow.add header.bodyLength (encodeTrim header.trim).length
      = pure (header.bodyLength + (encodeTrim header.trim).length) := by
    cases overflow with
    | stops => exact add_of h
    | wraps =>
      show pure (_ % 2 ^ 64) = pure _
      rw [Nat.mod_eq_of_lt h]
  rw [encodeHeader, hsum, pure_bind, Header.encode, raise_bind]
  by_cases hsize : header.bodyLength + (encodeTrim header.trim).length ≤ maxSize
  · rw [require_of hsize, ensure_of hsize]
    rfl
  · rw [require_of_not hsize, ensure, if_neg hsize]
    rfl

variable {kind : Kind} {trim : Option Trim} {bodyLength : Nat}

/-- When the sum does not fit, a machine stops, or writes a header that no reader takes:
the size in it is less than what the trimming fields alone take. -/
theorem encodeHeader_of_ge (hkind : kind.IsCoded) (hword : bodyLength < 2 ^ 64)
    (h : 2 ^ 64 ≤ bodyLength + (encodeTrim trim).length) (rest : Bytes) :
    encodeHeader .stops { kind, trim, bodyLength } = .error (.faulted .overflow)
      ∧ ∃ bytes, encodeHeader .wraps { kind, trim, bodyLength } = .ok bytes
        ∧ Header.parse (bytes ++ rest) = .error (.invalidData (.headerExceedsSize
          (encodeTrim trim).length (bodyLength + (encodeTrim trim).length - 2 ^ 64))) := by
  have hshort := Header.length_encodeTrim_le trim
  have hwrapped : (bodyLength + (encodeTrim trim).length) % 2 ^ 64
      = bodyLength + (encodeTrim trim).length - 2 ^ 64 := by omega
  -- The lower bits that the size keeps are also those of the sum.
  have hsize : (written kind trim bodyLength).size.toNat
      = bodyLength + (encodeTrim trim).length - 2 ^ 64 := by
    show (UInt32.ofNat (bodyLength + (encodeTrim trim).length)).toNat = _
    rw [UInt32.toNat_ofNat']
    omega
  have hwritten : UInt32.ofNat (bodyLength + (encodeTrim trim).length - 2 ^ 64)
      = (written kind trim bodyLength).size := by
    rw [← hsize, UInt32.ofNat_toNat]
  refine ⟨?_, writtenBytes kind trim bodyLength, ?_, ?_⟩
  · have hsum : (add 64 bodyLength (encodeTrim trim).length : Except Stop Nat)
        = .error (.faulted .overflow) := if_neg (Nat.not_lt.2 h)
    show (add 64 bodyLength (encodeTrim trim).length >>= _) = _
    rw [hsum]
    rfl
  · have hle : bodyLength + (encodeTrim trim).length - 2 ^ 64 ≤ maxSize := by
      rw [maxSize]
      omega
    show (pure ((bodyLength + (encodeTrim trim).length) % 2 ^ 64) >>= _) = _
    rw [hwrapped, pure_bind, require_of hle, pure_bind, hwritten]
    rfl
  · have hone := Leb128.size_le (written kind trim bodyLength).size
    have hrange : (written kind trim bodyLength).size.toNat ≤ maxSize := by
      rw [hsize, maxSize]
      omega
    have hread := Header.parse_writtenBytes hkind hrange rest
    simp only [hsize] at hread
    rwa [if_neg (by rw [maxSize]; omega), if_pos (by omega)] at hread

end Checked

/-! ### Headers that are read back -/

namespace Obu.Header

variable {kind : Kind} {trim : Option Trim} {bodyLength : Nat}

/-- What a reader makes of a header that was written hangs on the length of the OBU. -/
theorem parse_of_encode_eq_ok (hkind : kind.IsCoded) {bytes : Bytes}
    (hencode : encode { kind, trim, bodyLength } = .ok bytes) (rest : Bytes) :
    parse (bytes ++ rest)
      = if bytes.length + bodyLength ≤ maxSize then .ok {
          kind
          trim
          size := .ofNat (bodyLength + (encodeTrim trim).length)
          headerLength := bytes.length
          bodyLength }
        else .error (.outOfRange "obu_size" (bytes.length + bodyLength)) := by
  obtain ⟨rfl, hsize⟩ := encode_eq_ok hencode
  have hwritten := toNat_size_written kind hsize
  have hlength := length_writtenBytes kind trim bodyLength
  have hread := parse_writtenBytes hkind (hwritten ▸ hsize) rest
  have hwhole : 1 + Leb128.size (written kind trim bodyLength).size
      + (bodyLength + (encodeTrim trim).length)
        = (writtenBytes kind trim bodyLength).length + bodyLength :=
    (length_writtenBytes_add kind trim bodyLength).symm
  simp only [hwritten, hwhole, Nat.add_sub_cancel] at hread
  rw [hread, if_neg (Nat.not_lt.2 (Nat.le_add_left _ _))]
  by_cases hle : (writtenBytes kind trim bodyLength).length + bodyLength ≤ maxSize
  · rw [if_neg (Nat.not_lt.2 hle), if_pos hle, hlength]
    rfl
  · rw [if_pos (Nat.lt_of_not_le hle), if_neg hle]

/-- The writer refuses what is too large by the size alone. -/
theorem encode_eq_error {error : Error} :
    encode { kind, trim, bodyLength } = .error error
      ↔ maxSize < bodyLength + (encodeTrim trim).length
        ∧ error = .outOfRange "obu_size" bodyLength := by
  rw [encode_eq_ite]
  by_cases hsize : bodyLength + (encodeTrim trim).length ≤ maxSize
  · rw [if_pos hsize]
    constructor
    · rintro ⟨⟩
    · exact fun h => absurd h.1 (Nat.not_lt.2 hsize)
  · rw [if_neg hsize, Except.error.injEq]
    exact ⟨fun h => ⟨Nat.lt_of_not_le hsize, h.symm⟩, fun h => h.2.symm⟩

/-- A header that is written is read back, whatever follows it, unless it belongs to an
OBU that is too long as a whole: then it is written all the same, and refused by the
reader. What the writer refuses is too large by the size alone. A machine writes the
same, as long as the size fits into a word; when it does not, the machine stops, or what
it writes is refused by the reader. -/
theorem parse_of_encodeHeader {code : UInt8} (hcode : code < 32) (trim : Option Trim)
    {bodyLength : Nat} (hword : bodyLength < 2 ^ 64) (rest : Bytes) :
    let header : Header := { kind := .ofCode code, trim, bodyLength }
    let size := bodyLength + (encodeTrim trim).length
    (∀ bytes, header.encode = .ok bytes → parse (bytes ++ rest)
        = if bytes.length + bodyLength ≤ maxSize then .ok {
            kind := .ofCode code
            redundant := false
            trim
            extensionSize := none
            size := .ofNat size
            headerLength := bytes.length
            bodyLength }
          else .error (.outOfRange "obu_size" (bytes.length + bodyLength)))
      ∧ (∀ error, header.encode = .error error
          ↔ maxSize < size ∧ error = .outOfRange "obu_size" bodyLength)
      ∧ (size < 2 ^ 64 → ∀ overflow,
          Checked.encodeHeader overflow header = Checked.raise header.encode)
      ∧ (2 ^ 64 ≤ size → Checked.encodeHeader .stops header = .error (.faulted .overflow)
          ∧ ∃ bytes, Checked.encodeHeader .wraps header = .ok bytes
            ∧ parse (bytes ++ rest) = .error (.invalidData (.headerExceedsSize
              (encodeTrim trim).length (size - 2 ^ 64)))) := by
  intro header size
  have hkind := Kind.isCoded_ofCode hcode
  refine ⟨?_, fun error => encode_eq_error, ?_, ?_⟩
  · intro bytes hencode
    exact parse_of_encode_eq_ok hkind hencode rest
  · intro hfits overflow
    exact Checked.encodeHeader_of_lt overflow hfits
  · intro hlarge
    exact Checked.encodeHeader_of_ge hkind hword hlarge rest

/-- A frame with trimming, in front of some of its body. -/
theorem parse_of_encodeHeader_trimmed :
    (9 : UInt8) < 32 ∧ 300 < 2 ^ 64
      ∧ encode { kind := .impliedFrame 3, trim := some ⟨7, 9⟩, bodyLength := 300 }
        = .ok [0x4a, 0xae, 0x02, 0x07, 0x09]
      ∧ parse [0x4a, 0xae, 0x02, 0x07, 0x09, 0xff] = .ok {
          kind := .impliedFrame 3, trim := some ⟨7, 9⟩, size := 302, headerLength := 5,
          bodyLength := 300 } := by
  have hencode : encode { kind := .ofCode 9, trim := some ⟨7, 9⟩, bodyLength := 300 }
      = .ok [0x4a, 0xae, 0x02, 0x07, 0x09] := by decide +kernel
  have hread := (parse_of_encodeHeader (by decide : (9 : UInt8) < 32) (some ⟨7, 9⟩)
    (by decide : 300 < 2 ^ 64) [0xff]).1 _ hencode
  exact ⟨by decide, by decide, hencode, hread⟩

/-- The header of a body that is just not too large for the size is written, and the
reader refuses it. -/
theorem encode_beyond_parse :
    encode { kind := .codecConfig, bodyLength := maxSize }
        = .ok [0x00, 0xff, 0xff, 0xff, 0xff, 0x07]
      ∧ parse [0x00, 0xff, 0xff, 0xff, 0xff, 0x07] = .error (.outOfRange "obu_size" (maxSize + 6))
    := by
  decide +kernel

end Obu.Header

end Iamf
