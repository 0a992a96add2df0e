import Iamf.Leb128

/-!
# `Iamf.Obu.Header`: the header of an OBU

```text
 0 1 2 3 4 5 6 7
+---------+-+-+-+
|  kind   |R|T|X|   R redundant copy, T trimming, X extension
+---------+-+-+-+
| size (leb128)
+---------------+
| samples to trim at the end and at the start (leb128, leb128)   if T
| extension size (leb128), extension bytes                       if X
| body
```

The size covers everything after the size field. The extension bytes belong to
the header; they are counted and never looked at.

* `Header.two_le_totalLength`: an OBU with a header that parses is at least two
  bytes long, so a reader that passes it has moved on.
-/

set_option autoImplicit false

namespace Iamf.Obu

/-- The largest size of an OBU. -/
def maxSize : Nat := 2147483647

/-- The largest extension of a header. -/
def maxExtensionSize : Nat := maxSize / 8

/-- A header's fields fit into this many bytes: one byte and three numbers. -/
def maxHeaderSize : Nat := 1 + Leb128.maxSize * 3

/-- Samples to drop from a decoded frame. -/
structure Trim where
  /-- Samples to drop at the end. -/
  skipSamples : UInt32
  /-- Samples to drop at the start. -/
  discardPadding : UInt32
  deriving DecidableEq, Repr

/-- The header of an OBU. -/
structure Header where
  /-- What the OBU carries. -/
  kind : Kind
  /-- Whether the OBU repeats an earlier one. -/
  redundant : Bool := false
  /-- Trimming, if the header has it. -/
  trim : Option Trim := none
  /-- The size of the extension, if the header has one. -/
  extensionSize : Option UInt32 := none
  /-- The bytes after the size field. -/
  size : UInt32 := 0
  /-- The offset of the body from the start of the OBU. -/
  headerLength : Nat := 0
  /-- The length of the body. -/
  bodyLength : Nat
  deriving DecidableEq, Repr

namespace Header

/-- The length of the whole OBU. -/
def totalLength (header : Header) : Nat :=
  header.headerLength + header.bodyLength

/-- Trimming, if the flag says that it is there, and the bytes it takes. -/
def readTrim (present : Bool) : Read (Option Trim × Nat) :=
  if present then do
    let (skipSamples, skipBytes) ← Leb128.readSized
    let (discardPadding, discardBytes) ← Leb128.readSized
    return (some { skipSamples, discardPadding }, skipBytes + discardBytes)
  else return (none, 0)

/-- The extension size, if the flag says that it is there, and the bytes it takes. -/
def readExtensionSize (present : Bool) : Read (Option UInt32 × Nat) :=
  if present then do
    let (size, sizeBytes) ← Leb128.readSized
    ensure (size.toNat ≤ maxExtensionSize) (.outOfRange "extension_header_size" size.toNat)
    return (some size, sizeBytes)
  else return (none, 0)

/-- Reads a header up to the extension size. The extension bytes are counted
in, not read. -/
def read : Read Header := do
  let flags ← Read.byte
  let (size, sizeBytes) ← Leb128.readSized
  ensure (size.toNat ≤ maxSize) (.outOfRange "obu_size" size.toNat)
  let start := 1 + sizeBytes
  let (trim, trimBytes) ← readTrim (flags.toNat.testBit 1)
  let (extensionSize, extensionSizeBytes) ← readExtensionSize (flags.toNat.testBit 0)
  ensure (start + size.toNat ≤ maxSize) (.outOfRange "obu_size" (start + size.toNat))
  let fieldBytes := trimBytes + extensionSizeBytes + (extensionSize.getD 0).toNat
  ensure (fieldBytes ≤ size.toNat)
    (.invalidData (.headerExceedsSize fieldBytes size.toNat))
  return {
    kind := Kind.ofCode (flags >>> 3)
    redundant := flags.toNat.testBit 2
    trim
    extensionSize
    size
    headerLength := start + fieldBytes
    bodyLength := size.toNat - fieldBytes }

/-- The header at the start of a byte string. -/
def parse (bytes : Bytes) : Except Error Header :=
  read.parse "OBU header" bytes

/-- The bytes of the trimming fields. -/
def encodeTrim : Option Trim → Bytes
  | none => []
  | some trim => Leb128.encode trim.skipSamples ++ Leb128.encode trim.discardPadding

/-- The bytes of a header for a body of `bodyLength` bytes that follows it.
Neither the redundancy flag nor an extension is ever written. -/
def encode (header : Header) : Except Error Bytes := do
  let trim := encodeTrim header.trim
  let size := header.bodyLength + trim.length
  ensure (size ≤ maxSize) (.outOfRange "obu_size" header.bodyLength)
  let flags := header.kind.code <<< 3 ||| (if header.trim.isSome then 2 else 0)
  return flags :: (Leb128.encode (UInt32.ofNat size) ++ trim)

/-- An OBU with a header that parses is at least two bytes long. -/
theorem two_le_totalLength {bytes : Bytes} {header : Header}
    (h : parse bytes = .ok header) : 2 ≤ header.totalLength := by
  simp only [parse, Read.parse_eq_ok, read, Read.bind_eq_ok, Read.ensure_eq_ok,
    Read.pure_eq_ok] at h
  obtain ⟨_, flags, _, -, ⟨size, sizeBytes⟩, _, hsize, _, _, -, ⟨trim, trimBytes⟩, _, -,
    ⟨extensionSize, extensionSizeBytes⟩, _, -, _, _, -, _, _, -, h⟩ := h
  have hbytes := Leb128.one_le_of_readSized hsize
  simp only [Prod.mk.injEq] at h
  simp only [h.1, totalLength]
  omega

end Header

/-- The bytes of a whole OBU. -/
def encode (kind : Kind) (body : Bytes) : Except Error Bytes := do
  let header ← Header.encode { kind, bodyLength := body.length }
  return header ++ body

end Iamf.Obu
