import Iamf.Proofs.Obu.Grammar

/-!
# `Iamf.Proofs.Obu.Complete`: headers do not depend on what follows

A demuxer looks at a few bytes at the start of an OBU, which may be more or
fewer than the OBU has. A header is read wherever its fields are spelled, and
that does not depend on what is behind them. So the header that the first bytes of
an OBU parse to is the header that any longer piece of a stream parses to, and
`Complete` can carry it along with the bytes.

* `Header.parse_of_prefix`: a header stays the same when more bytes follow.
* `Header.parse_take_eq_ok`: it is parsed from as many bytes as its fields take.
* `Header.consumes_writtenBytes`: a header that was written is read back.
* `exists_complete`: the bytes of an OBU that was written are complete.
-/

set_option autoImplicit false

namespace Iamf

open Read (Consumes)

namespace Obu

/-! ### Headers -/

namespace Header

/-- The bytes of a header's fields, without those of its extension. -/
def fieldsLength (header : Header) : Nat :=
  header.headerLength - (header.extensionSize.getD 0).toNat

theorem fieldsLength_le_totalLength (header : Header) :
    header.fieldsLength ≤ header.totalLength :=
  Nat.le_trans (Nat.sub_le _ _) (Nat.le_add_right _ _)

/-- A header that was parsed takes the bytes in front of its extension. -/
theorem parse_eq_ok {bytes : Bytes} {header : Header} (h : parse bytes = .ok header) :
    ∃ front rest, bytes = front ++ rest ∧ front.length = header.fieldsLength
      ∧ Consumes read front header := by
  obtain ⟨flags, size, trim, extension, rest, rfl, hspelled⟩ := parse_eq_ok_iff_isSpelled.1 h
  refine ⟨flags :: (size ++ (trim ++ extension)), rest, by simp, ?_,
    consumes_of_isSpelled hspelled⟩
  have hheader := hspelled.headerLength_eq
  simp only [fieldsLength, List.length_cons, List.length_append]
  omega

/-- The header that the start of a byte string parses to is that of every byte
string that goes on from there. -/
theorem parse_of_prefix {bytes longer : Bytes} {header : Header}
    (h : parse bytes = .ok header) (hbegins : bytes <+: longer) : parse longer = .ok header := by
  obtain ⟨front, rest, rfl, -, hread⟩ := parse_eq_ok h
  obtain ⟨more, rfl⟩ := hbegins
  rw [parse, Read.parse_eq_ok, List.append_assoc]
  exact ⟨_, hread "OBU header" _ trivial⟩

/-- A header is parsed from as many bytes as its fields take, and from no fewer. -/
theorem parse_take_eq_ok {bytes : Bytes} {count : Nat} {header : Header} :
    parse (bytes.take count) = .ok header
      ↔ parse bytes = .ok header ∧ header.fieldsLength ≤ count := by
  constructor
  · intro h
    obtain ⟨front, rest, hbytes, hlength, -⟩ := parse_eq_ok h
    have hall := parse_of_prefix h (List.take_prefix _ _)
    refine ⟨hall, ?_⟩
    have htaken := congrArg List.length hbytes
    rw [List.length_take, List.length_append, hlength] at htaken
    omega
  · rintro ⟨h, hcount⟩
    obtain ⟨front, rest, rfl, hlength, hread⟩ := parse_eq_ok h
    rw [List.take_append, List.take_of_length_le (hlength ▸ hcount), parse, Read.parse_eq_ok]
    exact ⟨_, hread "OBU header" _ trivial⟩

/-- The header that is seen at the start of a stream is that of the OBU there. -/
theorem parse_take {seen bytes rest : Bytes} {header : Header} (h : parse seen = .ok header)
    (hseen : seen.length ≤ maxHeaderSize) (hbegins : seen <+: bytes ++ rest)
    (hlength : bytes.length = header.totalLength) :
    parse (bytes.take maxHeaderSize) = .ok header := by
  have hall := parse_of_prefix h hbegins
  have hshort : header.fieldsLength ≤ maxHeaderSize := by
    rw [← List.take_length (l := seen)] at h
    exact Nat.le_trans (parse_take_eq_ok.1 h).2 hseen
  -- The fields end where the body starts at the latest, so they are all in the OBU.
  have hfront : header.fieldsLength ≤ bytes.length :=
    hlength ▸ header.fieldsLength_le_totalLength
  have hbytes := parse_take_eq_ok.2 ⟨hall, hfront⟩
  rw [List.take_left] at hbytes
  exact parse_take_eq_ok.2 ⟨hbytes, hshort⟩

end Header

/-! ### Complete OBUs -/

/-- An OBU that is all there, extension included: its first bytes parse to its
header, and the header gives its length. -/
structure Complete where
  /-- The header. -/
  header : Header
  /-- All bytes, header first. -/
  bytes : Bytes
  parsed : Header.parse (bytes.take maxHeaderSize) = .ok header
  whole : bytes.length = header.totalLength

namespace Complete

/-- The bytes after the header and its extension. -/
def body (obu : Complete) : Bytes :=
  obu.bytes.drop obu.header.headerLength

theorem length_body (obu : Complete) : obu.body.length = obu.header.bodyLength := by
  rw [body, List.length_drop, obu.whole, Header.totalLength]
  omega

theorem two_le_length (obu : Complete) : 2 ≤ obu.bytes.length :=
  obu.whole ▸ Header.two_le_totalLength obu.parsed

/-- A longer piece of a stream that starts with the first bytes of an OBU parses
to its header. -/
theorem parse_of_prefix (obu : Complete) {bytes : Bytes}
    (h : obu.bytes.take maxHeaderSize <+: bytes) : Header.parse bytes = .ok obu.header :=
  Header.parse_of_prefix obu.parsed h

/-- Where one OBU starts, no other one does. -/
theorem eq_of_append {first second : Complete} {rest others : Bytes}
    (h : first.bytes ++ rest = second.bytes ++ others) : first = second ∧ rest = others := by
  have hfirst : Header.parse (first.bytes ++ rest) = .ok first.header :=
    first.parse_of_prefix ((List.take_prefix _ _).trans (List.prefix_append _ _))
  have hsecond : Header.parse (first.bytes ++ rest) = .ok second.header :=
    second.parse_of_prefix (h ▸ (List.take_prefix _ _).trans (List.prefix_append _ _))
  -- Both headers are parsed from the same bytes, and tell how long the OBUs are.
  have hheader : first.header = second.header := by
    rw [hfirst, Except.ok.injEq] at hsecond
    exact hsecond
  have hlength : first.bytes.length = second.bytes.length := by
    rw [first.whole, second.whole, hheader]
  obtain ⟨hbytes, hrest⟩ := List.append_inj h hlength
  obtain ⟨header, bytes, _, _⟩ := first
  obtain ⟨_, _, _, _⟩ := second
  cases hheader
  cases hbytes
  exact ⟨rfl, hrest⟩

/-- A stream is cut into OBUs in one way only. -/
theorem prefix_of_flatMap_prefix {obus : List Complete} :
    ∀ {others : List Complete}, obus.flatMap (·.bytes) <+: others.flatMap (·.bytes) →
      obus <+: others := by
  induction obus with
  | nil => exact fun _ => List.nil_prefix
  | cons obu obus ih =>
    rintro others ⟨rest, hrest⟩
    rw [List.flatMap_cons, List.append_assoc] at hrest
    cases others with
    | nil =>
      -- An OBU is never empty, so nothing of the other stream is left over.
      have hlength := obu.two_le_length
      have hempty : obu.bytes = [] := (List.append_eq_nil_iff.1 hrest).1
      rw [hempty] at hlength
      exact absurd hlength (by decide)
    | cons other others =>
      rw [List.flatMap_cons] at hrest
      obtain ⟨rfl, hothers⟩ := eq_of_append hrest
      exact (List.prefix_cons_inj obu).2 (ih ⟨rest, hothers⟩)

end Complete

/-! ### Headers that were written -/

/-- A kind whose code stands for it in five bits. -/
structure Kind.IsCoded (kind : Kind) : Prop where
  lt : kind.code.toNat < 32
  ofCode : Kind.ofCode kind.code = kind

theorem Kind.isCoded_ofCode {code : UInt8} (h : code < 32) : (Kind.ofCode code).IsCoded where
  lt := by
    rw [Kind.code_ofCode]
    exact UInt8.lt_iff_toNat_lt.1 h
  ofCode := by rw [Kind.code_ofCode]

/-- The length of an OBU with a body of the given length. -/
def wireLength (trim : Option Trim) (bodyLength : Nat) : Nat :=
  let size := bodyLength + (Header.encodeTrim trim).length
  1 + Leb128.size (UInt32.ofNat size) + size

namespace Header

/-- The header that is parsed where one was written. -/
def written (kind : Kind) (trim : Option Trim) (bodyLength : Nat) : Header where
  kind
  trim
  size := UInt32.ofNat (bodyLength + (encodeTrim trim).length)
  headerLength := 1 + Leb128.size (UInt32.ofNat (bodyLength + (encodeTrim trim).length))
    + (encodeTrim trim).length
  bodyLength

/-- The first byte tells the code, and the flags that are ever set. -/
theorem flags_eq : ∀ code < 32, ∀ trimmed : Bool,
    let flags : UInt8 := UInt8.ofNat code <<< 3 ||| (if trimmed then 2 else 0)
    flags >>> 3 = UInt8.ofNat code ∧ flags.toNat.testBit 2 = false
      ∧ flags.toNat.testBit 1 = trimmed ∧ flags.toNat.testBit 0 = false := by
  decide

theorem spellsTrim_encodeTrim (trim : Option Trim) :
    SpellsTrim trim.isSome (encodeTrim trim) trim := by
  cases trim with
  | none => exact .absent
  | some trim =>
    exact .present (Leb128.isNumber_encode trim.skipSamples)
      (Leb128.isNumber_encode trim.discardPadding)

/-- A written header fits into what a reader looks at. -/
theorem length_fields_le (trim : Option Trim) (size : UInt32) :
    1 + Leb128.size size + (encodeTrim trim).length ≤ maxHeaderSize := by
  have hsize := Leb128.size_le size
  cases trim with
  | none =>
    simp only [encodeTrim, List.length_nil, maxHeaderSize, Leb128.maxSize]
    omega
  | some trim =>
    have hskip := Leb128.size_le trim.skipSamples
    have hdiscard := Leb128.size_le trim.discardPadding
    simp only [encodeTrim, List.length_append, Leb128.length_encode, maxHeaderSize,
      Leb128.maxSize]
    omega

/-- The bytes of a header that is not too large. -/
def writtenBytes (kind : Kind) (trim : Option Trim) (bodyLength : Nat) : Bytes :=
  (kind.code <<< 3 ||| (if trim.isSome then 2 else 0))
    :: (Leb128.encode (UInt32.ofNat (bodyLength + (encodeTrim trim).length)) ++ encodeTrim trim)

theorem length_writtenBytes (kind : Kind) (trim : Option Trim) (bodyLength : Nat) :
    (writtenBytes kind trim bodyLength).length
      = (written kind trim bodyLength).headerLength := by
  simp only [writtenBytes, written, List.length_append, List.length_cons, Leb128.length_encode]
  omega

/-- The writer measures the body and what is trimmed, but not the header itself. -/
theorem encode_of_size (kind : Kind) {trim : Option Trim} {bodyLength : Nat}
    (hsize : bodyLength + (encodeTrim trim).length ≤ maxSize) :
    encode { kind, trim, bodyLength } = .ok (writtenBytes kind trim bodyLength) := by
  simp only [encode, ensure_of hsize]
  rfl

theorem encode_eq (kind : Kind) {trim : Option Trim} {bodyLength : Nat}
    (h : wireLength trim bodyLength ≤ maxSize) :
    encode { kind, trim, bodyLength } = .ok (writtenBytes kind trim bodyLength) := by
  rw [wireLength] at h
  exact encode_of_size kind (by omega)

/-- The bytes of a header that could be written. -/
theorem encode_eq_ok {kind : Kind} {trim : Option Trim} {bodyLength : Nat} {bytes : Bytes}
    (h : encode { kind, trim, bodyLength } = .ok bytes) :
    bytes = writtenBytes kind trim bodyLength
      ∧ bodyLength + (encodeTrim trim).length ≤ maxSize := by
  simp only [encode, outcome_bind_eq_ok, outcome_ensure_eq_ok, outcome_pure_eq_ok] at h
  obtain ⟨_, hsize, rfl⟩ := h
  exact ⟨rfl, hsize⟩

theorem length_writtenBytes_add (kind : Kind) (trim : Option Trim) (bodyLength : Nat) :
    (writtenBytes kind trim bodyLength).length + bodyLength = wireLength trim bodyLength := by
  simp only [length_writtenBytes, written, wireLength]
  omega

/-- The first byte that is written tells the kind, and announces the fields that are
written behind the size. -/
theorem announces_of_isCoded {kind : Kind} (hkind : kind.IsCoded) (trim : Option Trim) :
    let flags := kind.code <<< 3 ||| (if trim.isSome then 2 else 0)
    Kind.ofCode (flags >>> 3) = kind ∧ flags.toNat.testBit 2 = false
      ∧ SpellsTrim (flags.toNat.testBit 1) (encodeTrim trim) trim
      ∧ SpellsExtension (flags.toNat.testBit 0) [] none := by
  intro flags
  obtain ⟨hcode, hredundant, htrimmed, hextension⟩ :=
    flags_eq kind.code.toNat hkind.lt trim.isSome
  rw [UInt8.ofNat_toNat] at hcode hredundant htrimmed hextension
  refine ⟨?_, hredundant, ?_, ?_⟩
  · rw [hcode, hkind.ofCode]
  · rw [htrimmed]
    exact spellsTrim_encodeTrim trim
  · rw [hextension]
    exact .absent

/-- What is written for an OBU that is not too long spells its header. -/
theorem isSpelled_written {kind : Kind} {trim : Option Trim} {bodyLength : Nat}
    (hkind : kind.IsCoded) (h : wireLength trim bodyLength ≤ maxSize) :
    (written kind trim bodyLength).IsSpelled (kind.code <<< 3 ||| (if trim.isSome then 2 else 0))
      (Leb128.encode (written kind trim bodyLength).size) (encodeTrim trim) [] := by
  obtain ⟨hcode, hredundant, htrim, hextension⟩ := announces_of_isCoded hkind trim
  rw [wireLength] at h
  have hsize : (written kind trim bodyLength).size.toNat
      = bodyLength + (encodeTrim trim).length := by
    rw [maxSize] at h
    exact Read.toNat_ofNat_count (by omega)
  exact {
    kind_eq := hcode.symm
    redundant_eq := hredundant.symm
    spellsSize := Leb128.isNumber_encode _
    spellsTrim := htrim
    spellsExtension := hextension
    size_le := by
      rw [hsize]
      omega
    whole_le := by rwa [hsize, Leb128.length_encode]
    fields_le := by
      rw [hsize]
      exact Nat.le_add_left _ _
    headerLength_eq := by
      rw [Leb128.length_encode]
      rfl
    totalLength_eq := by
      rw [hsize, Leb128.length_encode]
      simp only [written]
      omega }

/-- A header is read back, as long as the OBU is not too long. -/
theorem consumes_writtenBytes {kind : Kind} {trim : Option Trim} {bodyLength : Nat}
    (hkind : kind.IsCoded) (h : wireLength trim bodyLength ≤ maxSize) :
    Consumes read (writtenBytes kind trim bodyLength) (written kind trim bodyLength) := by
  have hread := consumes_of_isSpelled (isSpelled_written hkind h)
  rwa [List.append_nil] at hread

end Header

/-- The bytes of an OBU that was written are complete. -/
theorem exists_complete {kind : Kind} {trim : Option Trim} {body : Bytes}
    (hkind : kind.IsCoded) (h : wireLength trim body.length ≤ maxSize) :
    ∃ obu : Complete, obu.bytes = Header.writtenBytes kind trim body.length ++ body
      ∧ obu.header = Header.written kind trim body.length ∧ obu.body = body := by
  have hlength := Header.length_writtenBytes kind trim body.length
  have hshort : (Header.writtenBytes kind trim body.length).length ≤ maxHeaderSize := by
    rw [hlength, Header.written]
    exact Header.length_fields_le trim _
  refine ⟨⟨Header.written kind trim body.length,
    Header.writtenBytes kind trim body.length ++ body, ?_, ?_⟩, rfl, rfl, ?_⟩
  · rw [List.take_append, List.take_of_length_le hshort, Header.parse, Read.parse_eq_ok]
    exact ⟨_, Header.consumes_writtenBytes hkind h "OBU header" _ trivial⟩
  · rw [List.length_append, hlength]
    rfl
  · show (Header.writtenBytes kind trim body.length ++ body).drop
      (Header.written kind trim body.length).headerLength = body
    rw [← hlength, List.drop_left]

end Obu

end Iamf
