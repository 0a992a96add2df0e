import Iamf.Proofs.Stream.Packets

/-!
# `Iamf.Proofs.Stream.Sized`: a header that can be opened has no OBU that is too long

A muxer refuses a body that is longer than an OBU may be, but it does not count
the few bytes of the OBU header in front of it, which a demuxer does. So a
header may be written that cannot be opened. Where it can be opened, no OBU in
it is too long.

* `Obu.Header.size_le_of_parse`: a header that parses is not that of an OBU that
  is too long.
* `Muxer.descriptorsFit_of_ofBytes`: which goes for all OBUs of a header.
-/

set_option autoImplicit false

namespace Iamf

open Read (Consumes)

/-! ### Headers -/

namespace Obu

/-- Where a header is parsed, the size in it is not too large, and neither is the
whole OBU. -/
theorem Header.size_le_of_parse {flags : UInt8} {size : UInt32} {rest : Bytes}
    {header : Header} (h : parse (flags :: (Leb128.encode size ++ rest)) = .ok header) :
    1 + Leb128.size size + size.toNat ≤ maxSize := by
  rw [parse, Read.parse_eq_ok] at h
  obtain ⟨after, h⟩ := h
  simp only [read, Read.bind_eq_ok, Read.ensure_eq_ok] at h
  obtain ⟨_, _, hflags, ⟨found, bytes⟩, _, hfound, _, _, -, _, _, -, _, _, -, _, _,
    ⟨htotal, -⟩, -⟩ := h
  obtain ⟨_, hcons, rfl⟩ := Read.byte_eq_ok hflags
  obtain ⟨-, rfl⟩ := List.cons.inj hcons
  -- The size that is read is the one that was written.
  have hread := Leb128.consumes_encode_sized size "OBU header" rest trivial
  rw [hfound] at hread
  cases hread
  exact htotal

/-- The bytes of an OBU that could be encoded. -/
theorem encode_eq_ok {kind : Kind} {body bytes : Bytes} (h : encode kind body = .ok bytes) :
    bytes = Header.writtenBytes kind none body.length ++ body
      ∧ bytes.length = wireLength none body.length ∧ body.length ≤ maxSize := by
  rw [encode, outcome_bind_eq_ok] at h
  obtain ⟨header, hheader, h⟩ := h
  obtain ⟨rfl, hsize⟩ := Header.encode_eq_ok hheader
  rw [outcome_pure_eq_ok] at h
  subst h
  refine ⟨rfl, ?_, hsize⟩
  rw [List.length_append, Header.length_writtenBytes_add]

/-- Where the header of an OBU that was encoded is parsed, the OBU is not too
long. -/
theorem length_le_of_parse {kind : Kind} {body bytes rest : Bytes} {header : Header}
    (h : encode kind body = .ok bytes) (hparse : Header.parse (bytes ++ rest) = .ok header) :
    bytes.length ≤ maxSize := by
  obtain ⟨rfl, hlength, hsize⟩ := encode_eq_ok h
  have hle := Header.size_le_of_parse (by
    simpa only [Header.writtenBytes, Header.encodeTrim, List.cons_append, List.append_assoc]
      using hparse)
  have hexact : (UInt32.ofNat body.length).toNat = body.length := by
    rw [UInt32.toNat_ofNat']
    rw [maxSize] at hsize
    omega
  rw [hlength, wireLength]
  simp only [Header.encodeTrim, List.length_nil, Nat.add_zero, hexact] at hle ⊢
  exact hle

end Obu

/-! ### Descriptors -/

namespace Demuxer

variable {config : DemuxerConfig} {demuxer opened : Demuxer} {reading : Reading}
  {kind : Obu.Kind} {body piece rest : Bytes}

/-- In front of an OBU that is too long no header is seen. -/
theorem peekHeader_of_long (h : demuxer.source.Awaits (piece ++ rest))
    (hencode : Obu.encode kind body = .ok piece) (hlong : Obu.maxSize < piece.length) :
    ∃ error after, peekHeader demuxer = .error error after := by
  have hbytes : piece ++ rest ≠ [] := by
    exact List.append_ne_nil_of_left_ne_nil (List.ne_nil_of_length_pos (by omega)) rest
  cases hparse : Obu.Header.parse ((piece ++ rest).take Obu.maxHeaderSize) with
  | error error =>
    obtain ⟨source, hpeek⟩ := peekHeader_of_error h hbytes hparse
    exact ⟨error, _, hpeek⟩
  | ok header =>
    -- What is in sight begins what is to come, so its header is that of the OBU.
    have hall := Obu.Header.parse_of_prefix hparse (List.take_prefix _ _)
    exact absurd (Obu.length_le_of_parse hencode hall) (Nat.not_le.2 hlong)

/-- Bytes that a muxer makes of a descriptor. -/
def IsDescribed (piece : Bytes) : Prop :=
  ∃ kind body, Obu.Kind.IsCoded kind ∧ endsDescriptors kind = false
    ∧ Obu.encode kind body = .ok piece

/-- Where descriptors can be read, none of them is too long. -/
theorem length_le_of_readDescriptors (hmax : Obu.maxSize ≤ config.maxObuSize)
    {pieces : List Bytes} (hpieces : ∀ piece ∈ pieces, IsDescribed piece)
    (h : Tracks config demuxer reading pieces.flatten) (hfailure : reading.failure = none)
    (hvalues : reading.values = {}) (hread : demuxer.readDescriptors = .ok opened) :
    ∀ piece ∈ pieces, piece.length ≤ Obu.maxSize := by
  induction pieces generalizing demuxer reading with
  | nil => simp
  | cons piece pieces ih =>
    obtain ⟨⟨kind, body, hkind, hends, hencode⟩, hothers⟩ := List.forall_mem_cons.1 hpieces
    rw [List.flatten_cons] at h
    obtain ⟨hpiece, hlength, -⟩ := Obu.encode_eq_ok hencode
    by_cases hfits : piece.length ≤ Obu.maxSize
    · -- The descriptor is a complete OBU, which is read.
      obtain ⟨obu, hbytes, hheader, -⟩ := Obu.exists_complete hkind (hlength ▸ hfits)
      rw [← hpiece] at hbytes
      have hcode : obu.header.kind = kind := by rw [hheader, Obu.Header.written]
      have hsize : obu.header.totalLength ≤ config.maxObuSize := by
        rw [← obu.whole, hbytes]
        exact Nat.le_trans hfits hmax
      rw [← hbytes] at h
      obtain ⟨after, hafter, hstep⟩ :=
        readDescriptors_descriptor h hsize hfailure hvalues (hcode ▸ hends)
      obtain ⟨registry, failure, hsame⟩ := Reading.descriptor_same config reading obu
      rw [hsame] at hafter hstep
      cases failure with
      | some error => exact absurd (hstep.symm.trans hread) (by simp)
      | none =>
        exact List.forall_mem_cons.2
          ⟨hfits, ih hothers hafter rfl hvalues (hstep.symm.trans hread)⟩
    · obtain ⟨error, after, hpeek⟩ := peekHeader_of_long h.awaits hencode (by omega)
      have hstep : descriptorStep demuxer = .error error after := by
        simp only [descriptorStep, bind, EStateM.bind, hpeek]
      rw [readDescriptors_eq, hstep] at hread
      cases hread

end Demuxer

namespace Muxer

variable {config : DemuxerConfig} {registry : Registry} {header : Bytes} {demuxer : Demuxer}

/-- What the bytes of some items are, and where they go. -/
theorem isDescribed_of_mapM {α : Type} {kind : Obu.Kind} (hkind : kind.IsCoded)
    (hends : Demuxer.endsDescriptors kind = false) {encode : α → Except Error Bytes}
    {items : List α} {pieces : List Bytes}
    (h : items.mapM (fun item => encodeObu kind (encode item)) = .ok pieces) :
    (∀ piece ∈ pieces, Demuxer.IsDescribed piece)
      ∧ ((∀ piece ∈ pieces, piece.length ≤ Obu.maxSize) →
        ∀ item ∈ items, ∀ body, encode item = .ok body →
          Obu.wireLength none body.length ≤ Obu.maxSize) := by
  replace h := outcome_mapM_eq_ok h
  induction h with
  | nil => simp
  | @cons item piece items pieces hpiece _ ih =>
    rw [encodeObu, outcome_bind_eq_ok] at hpiece
    obtain ⟨body, hbody, hpiece⟩ := hpiece
    refine ⟨List.forall_mem_cons.2 ⟨⟨kind, body, hkind, hends, hpiece⟩, ih.1⟩, fun hshort => ?_⟩
    obtain ⟨hfirst, hothers⟩ := List.forall_mem_cons.1 hshort
    refine List.forall_mem_cons.2 ⟨fun other hother => ?_, ih.2 hothers⟩
    cases hbody.symm.trans hother
    rw [← (Obu.encode_eq_ok hpiece).2.1]
    exact hfirst

/-- Where a header can be opened, no OBU in it is too long. -/
theorem descriptorsFit_of_ofBytes (hmax : Obu.maxSize ≤ config.maxObuSize)
    (hheader : encodeHeader registry = .ok header)
    (h : Demuxer.ofBytes config header = .ok demuxer) : DescriptorsFit registry := by
  simp only [encodeHeader, outcome_bind_eq_ok, outcome_pure_eq_ok] at hheader
  obtain ⟨sequence, hsequence, configs, hconfigs, elements, helements, mixes, hmixes, rfl⟩ :=
    hheader
  obtain ⟨hconfig, hconfigFits⟩ := isDescribed_of_mapM ⟨by decide, by decide⟩ rfl hconfigs
  obtain ⟨helement, helementFits⟩ := isDescribed_of_mapM ⟨by decide, by decide⟩ rfl helements
  obtain ⟨hmix, hmixFits⟩ := isDescribed_of_mapM ⟨by decide, by decide⟩ rfl hmixes
  have hfirst : Demuxer.IsDescribed sequence := by
    rw [encodeObu, outcome_bind_eq_ok] at hsequence
    obtain ⟨body, -, hencode⟩ := hsequence
    exact ⟨.sequenceHeader, body, ⟨by decide, by decide⟩, rfl, hencode⟩
  have hall : ∀ piece ∈ sequence :: (configs ++ elements ++ mixes),
      piece.length ≤ Obu.maxSize := by
    refine Demuxer.length_le_of_readDescriptors hmax (fun piece hmem => ?_)
      (Demuxer.tracks_start config ?_ rfl) rfl rfl h
    · simp only [List.mem_cons, List.mem_append] at hmem
      rcases hmem with rfl | (hmem | hmem) | hmem
      · exact hfirst
      · exact hconfig piece hmem
      · exact helement piece hmem
      · exact hmix piece hmem
    · simp only [List.flatten_cons, List.flatten_append, List.append_assoc]
  refine ⟨hconfigFits fun piece hmem => ?_, helementFits fun piece hmem => ?_,
    hmixFits fun piece hmem => ?_⟩
  all_goals exact hall piece (by simp [hmem])

end Muxer

end Iamf
