import Iamf.Muxer
import Iamf.Proofs.Obu.Complete

/-!
# `Iamf.Proofs.Stream.Written`: the OBUs that a muxer writes

A muxer puts headers in front of bodies. As long as they are not too long, what
it writes is a list of complete OBUs, each with the kind, the trimming and the
body that it was made from, so the two sides of a stream meet in
`Obu.Complete` and bytes need not be looked at any more.

* `encodeHeader_eq_ok`: the descriptors of a registry, in order.
* `encodeFrame_eq`: the audio frame of a packet.
-/

set_option autoImplicit false

namespace Iamf

/-- An OBU that was made from a kind, trimming and a body, and is not too long. -/
structure Obu.Complete.IsMadeOf (kind : Obu.Kind) (trim : Option Obu.Trim) (body : Bytes)
    (obu : Obu.Complete) : Prop where
  kind : obu.header.kind = kind
  trim : obu.header.trim = trim
  body : obu.body = body
  size : obu.header.totalLength ≤ Obu.maxSize

/-- The body of an OBU that is not too long. -/
theorem Obu.Complete.IsMadeOf.length_lt {kind : Obu.Kind} {trim : Option Obu.Trim} {body : Bytes}
    {obu : Obu.Complete} (h : obu.IsMadeOf kind trim body) : body.length < 2 ^ 32 := by
  have hsize := h.size
  rw [← h.body, obu.length_body]
  simp only [Obu.Header.totalLength, Obu.maxSize] at hsize
  omega

/-- An OBU without trimming that was made from a body that could be encoded. -/
def Obu.Complete.IsEncoded (kind : Obu.Kind) (encoded : Except Error Bytes)
    (obu : Obu.Complete) : Prop :=
  ∃ body, encoded = .ok body ∧ obu.IsMadeOf kind none body

namespace Obu

theorem totalLength_written (kind : Kind) (trim : Option Trim) (bodyLength : Nat) :
    (Header.written kind trim bodyLength).totalLength = wireLength trim bodyLength := by
  simp only [Header.written, Header.totalLength, wireLength]
  omega

/-- The bytes of a header and the body behind it are an OBU made of them. -/
theorem exists_isMadeOf {kind : Kind} {trim : Option Trim} {body : Bytes}
    (hkind : kind.IsCoded) (h : wireLength trim body.length ≤ maxSize) :
    ∃ (obu : Complete) (header : Bytes), obu.IsMadeOf kind trim body
      ∧ Header.encode { kind, trim, bodyLength := body.length } = .ok header
      ∧ header ++ body = obu.bytes := by
  obtain ⟨obu, hbytes, hheader, hbody⟩ := exists_complete hkind h
  refine ⟨obu, _, ⟨?_, ?_, hbody, ?_⟩, Header.encode_eq kind h, hbytes.symm⟩
  · rw [hheader, Header.written]
  · rw [hheader, Header.written]
  · rw [hheader, totalLength_written]
    exact h

theorem Kind.ofCode_code_impliedFrame : ∀ substream ≤ 17,
    let kind := impliedFrame (UInt8.ofNat substream)
    kind.code.toNat < 32 ∧ ofCode kind.code = kind := by
  decide

theorem Kind.isCoded_ofSubstream (substream : UInt32) : (Kind.ofSubstream substream).IsCoded := by
  rw [Kind.ofSubstream]
  split
  · rename_i hle
    have hlt : substream.toNat ≤ 17 := UInt32.le_iff_toNat_le.1 hle
    have hkind : substream.toUInt8 = UInt8.ofNat substream.toNat := rfl
    obtain ⟨hcode, hofCode⟩ := Kind.ofCode_code_impliedFrame substream.toNat hlt
    exact hkind ▸ ⟨hcode, hofCode⟩
  · exact ⟨by decide, by decide⟩

end Obu

namespace Muxer

theorem encodeObu_eq {kind : Obu.Kind} {body : Bytes} (hkind : kind.IsCoded)
    (h : Obu.wireLength none body.length ≤ Obu.maxSize) :
    ∃ obu : Obu.Complete, obu.IsMadeOf kind none body
      ∧ encodeObu kind (.ok body) = .ok obu.bytes := by
  obtain ⟨obu, header, hobu, hheader, hbytes⟩ := Obu.exists_isMadeOf hkind h
  refine ⟨obu, hobu, ?_⟩
  show Obu.encode kind body = _
  rw [Obu.encode, hheader, ← hbytes]
  rfl

/-! ### The header -/

/-- Some items whose bodies are encoded and put into OBUs of one kind. -/
theorem mapM_encodeObu_eq_ok {α : Type} {kind : Obu.Kind} (hkind : kind.IsCoded)
    {encode : α → Except Error Bytes} {items : List α}
    (hfits : ∀ item ∈ items, ∀ body, encode item = .ok body →
      Obu.wireLength none body.length ≤ Obu.maxSize) {pieces : List Bytes}
    (h : items.mapM (fun item => encodeObu kind (encode item)) = .ok pieces) :
    ∃ obus : List Obu.Complete,
      List.Forall₂ (fun item obu => obu.IsEncoded kind (encode item)) items obus
        ∧ pieces = obus.map (·.bytes) := by
  replace h := outcome_mapM_eq_ok h
  induction h with
  | nil => exact ⟨[], .nil, rfl⟩
  | @cons item piece items pieces hpiece _ ih =>
    obtain ⟨hfirst, hothers⟩ := List.forall_mem_cons.1 hfits
    rw [encodeObu, outcome_bind_eq_ok] at hpiece
    obtain ⟨body, hbody, hpiece⟩ := hpiece
    obtain ⟨obu, hobu, hencode⟩ := encodeObu_eq hkind (hfirst body hbody)
    obtain ⟨obus, hobus, rfl⟩ := ih hothers
    cases hpiece.symm.trans hencode
    exact ⟨obu :: obus, .cons ⟨body, hbody, hobu⟩ hobus, rfl⟩

/-- What holds of every OBU that an item is made into. -/
theorem forall_of_forall₂ {α : Type} {made : α → Obu.Complete → Prop}
    {holds : Obu.Complete → Prop} {items : List α} {obus : List Obu.Complete}
    (h : List.Forall₂ made items obus) (himp : ∀ item obu, made item obu → holds obu) :
    ∀ obu ∈ obus, holds obu := by
  induction h with
  | nil => simp
  | cons hfirst _ ih => exact List.forall_mem_cons.2 ⟨himp _ _ hfirst, ih⟩

/-- Items that can each be made into an OBU can be made into OBUs in a row. -/
theorem exists_mapM {α : Type} {encode : α → Except Error Bytes}
    {made : α → Obu.Complete → Prop} {items : List α}
    (h : ∀ item ∈ items, ∃ obu, encode item = .ok obu.bytes ∧ made item obu) :
    ∃ obus : List Obu.Complete, items.mapM encode = .ok (obus.map (·.bytes))
      ∧ List.Forall₂ made items obus := by
  induction items with
  | nil => exact ⟨[], rfl, .nil⟩
  | cons item items ih =>
    obtain ⟨obu, hencode, hmade⟩ := h item List.mem_cons_self
    obtain ⟨obus, hobus, hall⟩ := ih fun other hother => h other (List.mem_cons_of_mem _ hother)
    refine ⟨obu :: obus, ?_, .cons hmade hall⟩
    rw [List.mapM_cons, hencode, hobus]
    rfl

/-- No descriptor of a registry makes an OBU that is too long. -/
structure DescriptorsFit (registry : Registry) : Prop where
  codecConfigs : ∀ config ∈ registry.codecConfigs, ∀ body, config.encode = .ok body →
    Obu.wireLength none body.length ≤ Obu.maxSize
  audioElements : ∀ element ∈ registry.audioElements, ∀ body, element.encode = .ok body →
    Obu.wireLength none body.length ≤ Obu.maxSize
  mixPresentations : ∀ mix ∈ registry.mixPresentations, ∀ body, mix.encode = .ok body →
    Obu.wireLength none body.length ≤ Obu.maxSize

/-- The OBUs of the descriptors of a registry. -/
structure Descriptors (registry : Registry) where
  /-- The sequence header. -/
  sequenceHeader : Obu.Complete
  /-- Codec configs. -/
  codecConfigs : List Obu.Complete
  /-- Audio elements. -/
  audioElements : List Obu.Complete
  /-- Mix presentations. -/
  mixPresentations : List Obu.Complete
  sequence : sequenceHeader.IsMadeOf .sequenceHeader none (Muxer.sequenceHeader registry).encode
  configs : List.Forall₂
    (fun (config : CodecConfig) obu => obu.IsEncoded .codecConfig config.encode)
    registry.codecConfigs codecConfigs
  elements : List.Forall₂
    (fun (element : AudioElement) obu => obu.IsEncoded .audioElement element.encode)
    registry.audioElements audioElements
  mixes : List.Forall₂
    (fun (mix : MixPresentation) obu => obu.IsEncoded .mixPresentation mix.encode)
    registry.mixPresentations mixPresentations

/-- All of them, in the order in which they are written. -/
def Descriptors.obus {registry : Registry} (descriptors : Descriptors registry) :
    List Obu.Complete :=
  descriptors.sequenceHeader :: (descriptors.codecConfigs ++ descriptors.audioElements
    ++ descriptors.mixPresentations)

/-- A header that could be written is the OBUs of the descriptors. -/
theorem encodeHeader_eq_ok {registry : Registry} {bytes : Bytes}
    (h : encodeHeader registry = .ok bytes) (hfits : DescriptorsFit registry) :
    ∃ descriptors : Descriptors registry, bytes = descriptors.obus.flatMap (·.bytes) := by
  simp only [encodeHeader, outcome_bind_eq_ok, outcome_pure_eq_ok] at h
  obtain ⟨sequence, hsequence, configs, hconfigs, elements, helements, mixes, hmixes, rfl⟩ := h
  have hlength : (sequenceHeader registry).encode.length = 6 := rfl
  have hkind : Obu.Kind.IsCoded .sequenceHeader := ⟨by decide, by decide⟩
  have hshort : Obu.wireLength none (sequenceHeader registry).encode.length ≤ Obu.maxSize := by
    rw [hlength]
    decide
  obtain ⟨first, hfirst, hencode⟩ := encodeObu_eq hkind hshort
  cases hsequence.symm.trans hencode
  obtain ⟨configObus, hconfigObus, rfl⟩ :=
    mapM_encodeObu_eq_ok ⟨by decide, by decide⟩ hfits.codecConfigs hconfigs
  obtain ⟨elementObus, helementObus, rfl⟩ :=
    mapM_encodeObu_eq_ok ⟨by decide, by decide⟩ hfits.audioElements helements
  obtain ⟨mixObus, hmixObus, rfl⟩ :=
    mapM_encodeObu_eq_ok ⟨by decide, by decide⟩ hfits.mixPresentations hmixes
  refine ⟨⟨first, configObus, elementObus, mixObus, hfirst, hconfigObus, helementObus,
    hmixObus⟩, ?_⟩
  simp only [Descriptors.obus, List.flatMap_cons, List.flatMap_append, ← List.flatMap_def,
    List.append_assoc]

/-! ### Frames -/

/-- The body of the audio frame of a packet. -/
def frameBody (packet : Packet) : Bytes :=
  if Obu.Kind.ofSubstream packet.substream = .audioFrame then
    Leb128.encode packet.substream ++ packet.data
  else packet.data

theorem encodeFrame_eq {substream : Substream} {packet : Packet}
    (hid : packet.substream = substream.id)
    (h : Obu.wireLength packet.trim (frameBody packet).length ≤ Obu.maxSize) :
    ∃ obu : Obu.Complete,
      obu.IsMadeOf (Obu.Kind.ofSubstream packet.substream) packet.trim (frameBody packet)
        ∧ encodeFrame substream packet = .ok obu.bytes := by
  obtain ⟨obu, header, hobu, hheader, hbytes⟩ :=
    Obu.exists_isMadeOf (Obu.Kind.isCoded_ofSubstream packet.substream) h
  refine ⟨obu, hobu, ?_⟩
  rw [encodeFrame, ← hid, ← hbytes]
  show (Obu.Header.encode {
      kind := Obu.Kind.ofSubstream packet.substream
      trim := packet.trim
      bodyLength := (frameBody packet).length } >>= fun header =>
    pure (header ++ frameBody packet)) = _
  rw [hheader]
  rfl

end Muxer

end Iamf
