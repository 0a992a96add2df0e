import Iamf.Obu.Header
import Iamf.Proofs.Wire.Numbers

/-!
# `Iamf.Proofs.Obu.Grammar`: which bytes are a header

A header is a byte of flags, a size, two numbers to trim and an extension size, each of
these three there if its flag is set. `Header.IsSpelled` says so of byte strings, along
with the four bounds that a header has to keep: the extension is not too large, neither
is the whole OBU, and the size covers the fields behind it together with the extension.
What the program computes with the sizes it has read is then a sum of lengths, and the
one difference, the length of the body, does not stop at zero.

* `Header.consumes_of_isSpelled`, `Header.read_eq_ok`: a header is read where one is
  spelled, and nowhere else.
* `Header.parse_iff`: so the start of a byte string parses exactly if it is spelled there.
-/

set_option autoImplicit false

namespace Iamf.Obu

open Read (Consumes Takes)
open Leb128 (IsNumber consumes_of_isNumber readSized_eq_ok)

/-! ### The grammar -/

/-- The bytes are trimming fields, if the flag says that there are any. -/
inductive SpellsTrim : (present : Bool) → Bytes → Option Trim → Prop where
  /-- No trimming. -/
  | absent : SpellsTrim false [] none
  /-- The samples to skip, then those to discard. -/
  | present {skip discard : Bytes} {trim : Trim} (hskip : IsNumber skip trim.skipSamples)
      (hdiscard : IsNumber discard trim.discardPadding) :
      SpellsTrim true (skip ++ discard) (some trim)

/-- The bytes are an extension size, if the flag says that there is one. -/
inductive SpellsExtension : (present : Bool) → Bytes → Option UInt32 → Prop where
  /-- No extension. -/
  | absent : SpellsExtension false [] none
  /-- The size of an extension that is not too large. -/
  | present {bytes : Bytes} {size : UInt32} (hsize : IsNumber bytes size)
      (hle : size.toNat ≤ maxExtensionSize) : SpellsExtension true bytes (some size)

/-- A byte of flags, the size, the trimming fields and the extension size spell the
header. The extension itself is behind them, and the body behind that. -/
structure Header.IsSpelled (header : Header) (flags : UInt8) (size trim extension : Bytes) :
    Prop where
  kind_eq : header.kind = Kind.ofCode (flags >>> 3)
  redundant_eq : header.redundant = flags.toNat.testBit 2
  spellsSize : IsNumber size header.size
  spellsTrim : SpellsTrim (flags.toNat.testBit 1) trim header.trim
  spellsExtension : SpellsExtension (flags.toNat.testBit 0) extension header.extensionSize
  /-- The size is in range by itself. -/
  size_le : header.size.toNat ≤ maxSize
  /-- So is the whole OBU, with the bytes in front of what the size covers. -/
  whole_le : 1 + size.length + header.size.toNat ≤ maxSize
  /-- The fields and the extension are within what the size covers. -/
  fields_le : trim.length + extension.length + (header.extensionSize.getD 0).toNat
    ≤ header.size.toNat
  headerLength_eq : header.headerLength
    = 1 + size.length + (trim.length + extension.length + (header.extensionSize.getD 0).toNat)
  totalLength_eq : header.headerLength + header.bodyLength = 1 + size.length + header.size.toNat

namespace Header

/-! ### Reading what is spelled -/

theorem consumes_of_spellsTrim {present : Bool} {bytes : Bytes} {trim : Option Trim}
    (h : SpellsTrim present bytes trim) :
    Consumes (readTrim present) bytes (trim, bytes.length) := by
  cases h with
  | absent => exact Takes.pure _
  | present hskip hdiscard =>
    rw [List.length_append]
    exact (consumes_of_isNumber hskip).bind ((consumes_of_isNumber hdiscard).bind_pure _)

theorem consumes_of_spellsExtension {present : Bool} {bytes : Bytes} {size : Option UInt32}
    (h : SpellsExtension present bytes size) :
    Consumes (readExtensionSize present) bytes (size, bytes.length) := by
  cases h with
  | absent => exact Takes.pure _
  | present hsize hle =>
    exact (consumes_of_isNumber hsize).bind_nil (Takes.ensure_bind hle (Takes.pure _))

/-- Fields that are spelled are read, and then the whole OBU and the fields have to be
within their bounds. -/
theorem read_of_spells {flags : UInt8} {size : UInt32} {trim : Option Trim}
    {extensionSize : Option UInt32} {sizeBytes trimBytes extensionBytes : Bytes}
    (hsize : IsNumber sizeBytes size) (hle : size.toNat ≤ maxSize)
    (htrim : SpellsTrim (flags.toNat.testBit 1) trimBytes trim)
    (hextension : SpellsExtension (flags.toNat.testBit 0) extensionBytes extensionSize)
    (subject : String) (rest : Bytes) :
    let start := 1 + sizeBytes.length
    let fieldBytes := trimBytes.length + extensionBytes.length + (extensionSize.getD 0).toNat
    read ⟨subject, [], flags :: (sizeBytes ++ (trimBytes ++ (extensionBytes ++ rest)))⟩
      = (do
          ensure (start + size.toNat ≤ maxSize) (.outOfRange "obu_size" (start + size.toNat))
          ensure (fieldBytes ≤ size.toNat)
            (.invalidData (.headerExceedsSize fieldBytes size.toNat))
          return {
            kind := Kind.ofCode (flags >>> 3)
            redundant := flags.toNat.testBit 2
            trim
            extensionSize
            size
            headerLength := start + fieldBytes
            bodyLength := size.toNat - fieldBytes } : Read Header) ⟨subject, [], rest⟩ := by
  intro start fieldBytes
  rw [read, ← List.singleton_append, Takes.run_bind (Consumes.byte flags),
    Takes.run_bind (consumes_of_isNumber hsize)]
  simp only [ensure_of hle, pure_bind]
  rw [Takes.run_bind (consumes_of_spellsTrim htrim),
    Takes.run_bind (consumes_of_spellsExtension hextension)]

/-- A header is read where one is spelled. -/
theorem consumes_of_isSpelled {header : Header} {flags : UInt8} {size trim extension : Bytes}
    (h : header.IsSpelled flags size trim extension) :
    Consumes read (flags :: (size ++ (trim ++ extension))) header := by
  intro subject rest _
  -- What is computed from the lengths is what the header says.
  have hbody : header.size.toNat
      - (trim.length + extension.length + (header.extensionSize.getD 0).toNat)
        = header.bodyLength := by
    have hheader := h.headerLength_eq
    have htotal := h.totalLength_eq
    omega
  rw [List.cons_append, List.append_assoc, List.append_assoc, read_of_spells h.spellsSize h.size_le
    h.spellsTrim h.spellsExtension, ensure_of h.whole_le, ensure_of h.fields_le, pure_bind,
    pure_bind, ← h.kind_eq, ← h.redundant_eq, ← h.headerLength_eq, hbody]
  rfl

theorem readTrim_eq_ok {present : Bool} {subject : String} {bytes : Bytes} {after : Reader}
    {trim : Option Trim} {size : Nat}
    (h : readTrim present ⟨subject, [], bytes⟩ = .ok ((trim, size), after)) :
    ∃ front rest, bytes = front ++ rest ∧ after = ⟨subject, [], rest⟩
      ∧ SpellsTrim present front trim ∧ size = front.length := by
  cases present with
  | false =>
    cases h
    exact ⟨[], bytes, rfl, rfl, .absent, rfl⟩
  | true =>
    simp only [readTrim, if_true, Read.bind_eq_ok, Read.pure_eq_ok, Prod.mk.injEq] at h
    obtain ⟨⟨skip, skipSize⟩, _, hskip, ⟨discard, discardSize⟩, _, hdiscard, ⟨rfl, rfl⟩, rfl⟩ := h
    obtain ⟨first, _, rfl, rfl, hfirst, rfl⟩ := readSized_eq_ok hskip
    obtain ⟨second, rest, rfl, rfl, hsecond, rfl⟩ := readSized_eq_ok hdiscard
    exact ⟨first ++ second, rest, (List.append_assoc _ _ _).symm, rfl, .present hfirst hsecond,
      List.length_append.symm⟩

theorem readExtensionSize_eq_ok {present : Bool} {subject : String} {bytes : Bytes}
    {after : Reader} {extensionSize : Option UInt32} {size : Nat}
    (h : readExtensionSize present ⟨subject, [], bytes⟩ = .ok ((extensionSize, size), after)) :
    ∃ front rest, bytes = front ++ rest ∧ after = ⟨subject, [], rest⟩
      ∧ SpellsExtension present front extensionSize ∧ size = front.length := by
  cases present with
  | false =>
    cases h
    exact ⟨[], bytes, rfl, rfl, .absent, rfl⟩
  | true =>
    simp only [readExtensionSize, if_true, Read.bind_eq_ok, Read.ensure_eq_ok, Read.pure_eq_ok,
      Prod.mk.injEq] at h
    obtain ⟨⟨number, numberSize⟩, _, hnumber, _, _, ⟨hle, -, rfl⟩, ⟨rfl, rfl⟩, rfl⟩ := h
    obtain ⟨front, rest, rfl, rfl, hfront, rfl⟩ := readSized_eq_ok hnumber
    exact ⟨front, rest, rfl, rfl, .present hfront hle, rfl⟩

/-- A header that was read is spelled in front of what is left. -/
theorem read_eq_ok {subject : String} {bytes : Bytes} {header : Header} {after : Reader}
    (h : read ⟨subject, [], bytes⟩ = .ok (header, after)) :
    ∃ flags size trim extension rest, bytes = flags :: (size ++ (trim ++ (extension ++ rest)))
      ∧ after = ⟨subject, [], rest⟩ ∧ header.IsSpelled flags size trim extension := by
  simp only [read, Read.bind_eq_ok, Read.ensure_eq_ok, Read.pure_eq_ok, Prod.mk.injEq] at h
  obtain ⟨flags, _, hflags, ⟨size, sizeBytes⟩, _, hsize, _, _, ⟨hsmall, -, rfl⟩,
    ⟨trim, trimBytes⟩, _, htrim, ⟨extensionSize, extensionBytes⟩, _, hextension, _, _,
    ⟨htotal, -, rfl⟩, _, _, ⟨hfields, -, rfl⟩, rfl, rfl⟩ := h
  obtain ⟨_, rfl, rfl⟩ := Read.byte_eq_ok hflags
  obtain ⟨first, _, rfl, rfl, hfirst, rfl⟩ := readSized_eq_ok hsize
  obtain ⟨second, _, rfl, rfl, hsecond, rfl⟩ := readTrim_eq_ok htrim
  obtain ⟨third, rest, rfl, rfl, hthird, rfl⟩ := readExtensionSize_eq_ok hextension
  refine ⟨flags, first, second, third, rest, rfl, rfl, ?_⟩
  exact {
    kind_eq := rfl
    redundant_eq := rfl
    spellsSize := hfirst
    spellsTrim := hsecond
    spellsExtension := hthird
    size_le := hsmall
    whole_le := htotal
    fields_le := hfields
    headerLength_eq := rfl
    totalLength_eq := by
      simp only at hfields ⊢
      omega }

/-! ### Headers at the start of a byte string -/

/-- The header at the start of a byte string, as far as one is spelled there. -/
theorem parse_eq_ok_iff_isSpelled {bytes : Bytes} {header : Header} :
    parse bytes = .ok header
      ↔ ∃ flags size trim extension rest, bytes = flags :: (size ++ (trim ++ (extension ++ rest)))
          ∧ header.IsSpelled flags size trim extension := by
  rw [parse, Read.parse_eq_ok]
  constructor
  · rintro ⟨after, h⟩
    obtain ⟨flags, size, trim, extension, rest, hbytes, -, hspelled⟩ := read_eq_ok h
    exact ⟨flags, size, trim, extension, rest, hbytes, hspelled⟩
  · rintro ⟨flags, size, trim, extension, rest, rfl, hspelled⟩
    have hread := consumes_of_isSpelled hspelled "OBU header" rest trivial
    simp only [List.cons_append, List.append_assoc] at hread
    exact ⟨_, hread⟩

/-- An OBU with a header that parses is not longer than OBUs may be. -/
theorem totalLength_le {bytes : Bytes} {header : Header} (h : parse bytes = .ok header) :
    header.totalLength ≤ maxSize := by
  obtain ⟨flags, size, trim, extension, rest, -, hspelled⟩ := parse_eq_ok_iff_isSpelled.1 h
  rw [Header.totalLength, hspelled.totalLength_eq]
  exact hspelled.whole_le

/-- The header at the start of a byte string is the one that is spelled there, and there
is none if none is. Its OBU is of a length that OBUs may have, and it is the same when
more bytes follow. -/
theorem parse_iff (bytes : Bytes) (header : Header) :
    (parse bytes = .ok header
      ↔ ∃ flags size trim extension rest, bytes = flags :: (size ++ (trim ++ (extension ++ rest)))
          ∧ header.IsSpelled flags size trim extension)
    ∧ (parse bytes = .ok header → 2 ≤ header.totalLength ∧ header.totalLength ≤ maxSize
        ∧ ∀ more, parse (bytes ++ more) = .ok header) := by
  refine ⟨parse_eq_ok_iff_isSpelled, fun h => ?_⟩
  obtain ⟨flags, size, trim, extension, rest, rfl, hspelled⟩ := parse_eq_ok_iff_isSpelled.1 h
  refine ⟨two_le_totalLength h, totalLength_le h, fun more => ?_⟩
  refine parse_eq_ok_iff_isSpelled.2 ⟨flags, size, trim, extension, rest ++ more, ?_, hspelled⟩
  simp only [List.cons_append, List.append_assoc]

end Header

end Iamf.Obu
