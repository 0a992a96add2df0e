import Iamf.Proofs.Bits.Places
import Iamf.Proofs.Checked.Rewriting

/-!
# `Iamf.Proofs.Codec.Patched`: what a channel count changes

The first bytes of a decoder configuration are taken apart and put together again around
the field that holds the channel count. Zeros stand for missing bytes on the way there,
and are cut off on the way back, so a field beyond the end is set nowhere. For AAC the
field has to be found first, and what is in front of it tells where it is; none of that is
changed, so the sample rate is the same as before, and the field is found again.

* `CodecConfig.patched_fieldSet`: only the bits of the field are set.
* `CodecConfig.aacChannelOffset_parse`: where the channel configuration of AAC is.
* `CodecConfig.parse_readAacSampleRate`: the sample rate depends on what is in front of it.
* `CodecConfig.exists_isChannelPatch`: what a channel count changes, and what it does not.
-/

set_option autoImplicit false

namespace Iamf.CodecConfig

open Bytes (Patched)
open Checked (fieldSet padded replaced)
open Read (Agree)

/-! ### Setting a field -/

/-- The first bytes have the bits that there are, and zeros behind them. -/
theorem bitAt_padded {window place : Nat} {data : Bytes} (h : place < 8 * window) :
    (padded window data).bitAt place = data.bitAt place := by
  rw [padded, Bytes.bitAt_append]
  split
  · exact Bytes.bitAt_take h
  · rename_i hend
    rw [List.length_take] at hend
    rw [Bytes.bitAt_zeros, Bytes.bitAt_of_le (by omega)]

/-- The bits around a field stay where they are. -/
theorem getD_replaced {bits : List Bool} {offset width value place : Nat}
    (h : offset + width ≤ bits.length) :
    (replaced bits offset width value).getD place false
      = if offset ≤ place ∧ place < offset + width then value.testBit (offset + width - 1 - place)
        else bits.getD place false := by
  have hfront : (bits.take offset).length = offset := by
    rw [List.length_take]
    omega
  rw [replaced, List.append_assoc]
  by_cases hplace : place < offset
  · rw [List.getD_append _ _ _ _ (by omega), if_neg (by omega), List.getD_eq_getElem?_getD,
      List.getElem?_take_of_lt hplace, ← List.getD_eq_getElem?_getD]
  · rw [List.getD_append_right _ _ _ _ (by omega), hfront]
    by_cases hfield : place < offset + width
    · rw [List.getD_append _ _ _ _ (by rw [Bits.length_ofNat]; omega), if_pos (by omega),
        List.getD_eq_getElem?_getD, Bits.getElem?_ofNat, if_pos (by omega), Option.getD_some]
      congr 1
      omega
    · rw [List.getD_append_right _ _ _ _ (by rw [Bits.length_ofNat]; omega), if_neg (by omega),
        Bits.length_ofNat, List.getD_eq_getElem?_getD, List.getElem?_drop,
        List.getD_eq_getElem?_getD]
      congr 2
      omega

section

variable {window offset width : Nat}

/-- The first bytes with their field set are whole bytes again. -/
theorem ofBytes_replaced (h : offset + width ≤ 8 * window) (value : Nat) (data : Bytes) :
    Bits.ofBytes (Bits.toBytes (replaced (Bits.ofBytes (padded window data)) offset width value))
      = replaced (Bits.ofBytes (padded window data)) offset width value := by
  refine Bits.ofBytes_toBytes (?_ : _ = 8 * window)
  have hpadded : (Bits.ofBytes (padded window data)).length = 8 * window := by
    rw [Bits.length_ofBytes, Checked.length_padded]
  rw [Checked.length_replaced (hpadded.symm ▸ h), hpadded]

/-- Of these no more are kept than there were. -/
theorem length_kept (h : offset + width ≤ 8 * window) (value : Nat) (data : Bytes) :
    ((Bits.toBytes (replaced (Bits.ofBytes (padded window data)) offset width value)).take
      (min window data.length)).length = min window data.length := by
  have hlength := congrArg List.length (ofBytes_replaced h value data)
  rw [Bits.length_ofBytes, Checked.length_replaced (by
    rwa [Bits.length_ofBytes, Checked.length_padded]), Bits.length_ofBytes,
    Checked.length_padded] at hlength
  rw [List.length_take]
  omega

theorem length_fieldSet (h : offset + width ≤ 8 * window) (value : Nat) (data : Bytes) :
    (fieldSet data window offset width value).length = data.length := by
  rw [fieldSet, List.length_append, length_kept h, List.length_drop]
  omega

/-- Within the data the bits of the field are those of the value, and the others are as
they were. -/
theorem bitAt_fieldSet (h : offset + width ≤ 8 * window) (value : Nat) {data : Bytes}
    {place : Nat} (hplace : place < 8 * data.length) :
    (fieldSet data window offset width value).bitAt place
      = if offset ≤ place ∧ place < offset + width
        then value.testBit (offset + width - 1 - place) else data.bitAt place := by
  rw [fieldSet, Bytes.bitAt_append, length_kept h]
  by_cases hfirst : place < 8 * window
  · rw [if_pos (by omega), Bytes.bitAt_take (by omega), Bytes.bitAt_eq, ofBytes_replaced h,
      getD_replaced (by rwa [Bits.length_ofBytes, Checked.length_padded]), ← Bytes.bitAt_eq,
      bitAt_padded hfirst]
  -- Behind the first bytes nothing was taken apart.
  · rw [if_neg (by omega), Bytes.bitAt_drop, if_neg (by omega)]
    congr 1
    omega

/-- Only the bits of the field are set, as far as there are any. -/
theorem patched_fieldSet (h : offset + width ≤ 8 * window) (value : Nat) (data : Bytes) :
    Patched offset width value data (fieldSet data window offset width value) where
  length_eq := length_fieldSet h value data
  field := fun place hplace hend => by
    rw [bitAt_fieldSet h value hend, if_pos (by omega)]
    congr 1
    omega
  frame := fun place hplace => by
    have hlength := length_fieldSet h value data
    by_cases hend : place < 8 * data.length
    · rw [bitAt_fieldSet h value hend, if_neg (by omega)]
    · rw [Bytes.bitAt_of_le (by omega), Bytes.bitAt_of_le (by omega)]

end

/-! ### The channel configuration of AAC -/

/-- Where the channel configuration of an audio specific config is: behind five bits of
object type and four of frequency index, each of which has more bits behind it if it is all
ones. Missing bytes count as zeros. -/
def aacChannelField (data : Bytes) : Nat :=
  let escapedType := if data.AllOnes 0 5 then 6 else 0
  let escapedRate := if data.AllOnes (5 + escapedType) 4 then 24 else 0
  9 + escapedType + escapedRate

/-- What is in front of the field tells where it is. -/
theorem aacChannelField_congr {first second : Bytes}
    (h : ∀ place < aacChannelField first, first.bitAt place = second.bitAt place) :
    aacChannelField second = aacChannelField first := by
  have htype : second.AllOnes 0 5 ↔ first.AllOnes 0 5 :=
    Bytes.allOnes_congr fun place hplace =>
      (h _ (by simp only [aacChannelField]; omega)).symm
  have hrate : second.AllOnes (5 + if first.AllOnes 0 5 then 6 else 0) 4
      ↔ first.AllOnes (5 + if first.AllOnes 0 5 then 6 else 0) 4 :=
    Bytes.allOnes_congr fun place hplace =>
      (h _ (by simp only [aacChannelField]; omega)).symm
  simp only [aacChannelField, htype, hrate]

/-- Bits that a reader finds are the highest number of their count if they are all ones. -/
theorem spelled_iff_allOnes {bytes : Bytes} {offset count highest : Nat}
    (hcount : highest + 1 = 2 ^ count) (h : offset + count ≤ 8 * bytes.length) :
    Bits.toNat (((Bits.ofBytes bytes).drop offset).take count) = highest
      ↔ bytes.AllOnes offset count := by
  rw [← Bits.toNat_take_drop_iff h, ← hcount, Nat.add_right_cancel_iff]

/-- The channel configuration is found where it is. -/
theorem aacChannelOffset_parse {window : Bytes} (h : window.length = aacWindow) :
    aacChannelOffset.parse "decoder config" window = .ok (aacChannelField window) := by
  have hsize : window.length = 6 := h
  have hlength := Bits.length_ofBytes window
  obtain ⟨first, hfirst, -, hleft⟩ := (Read.spells_bits 5).ok
    (Reader.ofBytes "decoder config" window) (by
      show 5 ≤ (Bits.ofBytes window).length
      omega)
  rw [show (Reader.ofBytes "decoder config" window).unread = Bits.ofBytes window from rfl]
    at hfirst hleft
  have htype := spelled_iff_allOnes (show escapedObjectType + 1 = 2 ^ 5 from rfl)
    (show 0 + 5 ≤ 8 * window.length by omega)
  rw [List.drop_zero] at htype
  have hsix : (if window.AllOnes 0 5 then 6 else 0) ≤ 6 := by
    split <;> decide
  obtain ⟨second, hsecond, -, hrest⟩ :=
    (Read.spells_skipBits (if window.AllOnes 0 5 then 6 else 0)).ok first (by
      rw [hleft, List.length_drop]
      omega)
  rw [hleft, List.drop_drop] at hrest
  obtain ⟨third, hthird, -, -⟩ := (Read.spells_bits 4).ok second (by
    rw [hrest, List.length_drop]
    omega)
  rw [hrest] at hthird
  have hrate := spelled_iff_allOnes (show escapedFrequency + 1 = 2 ^ 4 from rfl)
    (show 5 + (if window.AllOnes 0 5 then 6 else 0) + 4 ≤ 8 * window.length by omega)
  refine Read.parse_eq_ok.2 ⟨third, Read.bind_eq_ok.2 ⟨_, _, hfirst, ?_⟩⟩
  simp only [id_eq, htype]
  refine Read.bind_eq_ok.2 ⟨_, _, hsecond, Read.bind_eq_ok.2 ⟨_, _, hthird, ?_⟩⟩
  simp only [id_eq, hrate, Read.pure_eq_ok, Prod.mk.injEq, and_true, aacChannelField]
  omega

/-- Once with the object type and the rate written out, once with neither, where the data
ends before the field. -/
example : aacChannelField [0xF8, 0x3E, 0x01, 0x58, 0x88, 0x40] = 39
    ∧ aacChannelField [0x17] = 9 := by
  decide

/-- Reads the sample rate from the frequency index on. -/
def readIndexedRate : Read UInt32 := do
  let index ← Read.bits 4
  if index = escapedFrequency then Read.uint24
  else match aacSampleRates[index]? with
    | some rate => return rate
    | none => throw (.outOfRange "samplingFrequencyIndex" index)

theorem readAacSampleRate_eq : readAacSampleRate = (do
    let objectType ← Read.bits 5
    if objectType = escapedObjectType then Read.skipBits 6
    readIndexedRate) := rfl

/-- From readers that agree on the frequency index, and on the rate if one is written out,
the same sample rate is read. -/
theorem readIndexedRate_congr {bytes : Bytes} {offset : Nat} {first second : Reader}
    (hfirst : first.unread = (Bits.ofBytes bytes).drop offset)
    (hagree : Agree (4 + if bytes.AllOnes offset 4 then 24 else 0) first second) :
    (readIndexedRate first).map Prod.fst = (readIndexedRate second).map Prod.fst := by
  have hsize := Bits.length_ofBytes bytes
  refine (Read.spells_bits 4).agree_bind hagree fun hfour a b _ hab => ?_
  rw [hfirst, List.length_drop] at hfour
  have hindex := spelled_iff_allOnes (show escapedFrequency + 1 = 2 ^ 4 from rfl)
    (show offset + 4 ≤ 8 * bytes.length by omega)
  rw [hfirst, id_eq]
  by_cases hones : bytes.AllOnes offset 4
  · rw [if_pos (hindex.2 hones)]
    rw [if_pos hones] at hab
    exact Read.spells_uint24.agree hab
  · rw [if_neg (mt hindex.1 hones)]
    cases aacSampleRates[Bits.toNat (((Bits.ofBytes bytes).drop offset).take 4)]? <;> rfl

/-- Two configs that are alike up to the channel configuration of one of them tell the same
sample rate, or fail to tell one in the same way. -/
theorem parse_readAacSampleRate {first second : Bytes} (hlength : first.length = second.length)
    (h : ∀ place < aacChannelField first, first.bitAt place = second.bitAt place)
    (subject : String) :
    readAacSampleRate.parse subject first = readAacSampleRate.parse subject second := by
  have hsize := Bits.length_ofBytes first
  have hstart : (Reader.ofBytes subject first).unread = Bits.ofBytes first := rfl
  have hagree : Agree (aacChannelField first) (Reader.ofBytes subject first)
      (Reader.ofBytes subject second) := {
    subject_eq := rfl
    length_eq := by
      show (Bits.ofBytes first).length = (Bits.ofBytes second).length
      rw [Bits.length_ofBytes, Bits.length_ofBytes, hlength]
    take_eq := Bytes.take_eq_of_bitAt hlength h }
  have hfield : aacChannelField first = 5 + ((if first.AllOnes 0 5 then 6 else 0)
      + (4 + if first.AllOnes (5 + if first.AllOnes 0 5 then 6 else 0) 4 then 24 else 0)) := by
    simp only [aacChannelField]
    omega
  rw [hfield] at hagree
  rw [Read.parse_eq_map, Read.parse_eq_map, readAacSampleRate_eq]
  refine (Read.spells_bits 5).agree_bind hagree fun hfive a b ha hab => ?_
  rw [hstart] at hfive ha
  have hobject := spelled_iff_allOnes (show escapedObjectType + 1 = 2 ^ 5 from rfl)
    (show 0 + 5 ≤ 8 * first.length by omega)
  rw [List.drop_zero] at hobject
  rw [hstart, id_eq]
  by_cases hones : first.AllOnes 0 5
  · rw [if_pos (hobject.2 hones)]
    simp only [if_pos hones] at hab
    refine (Read.spells_skipBits 6).agree_bind hab fun _ c d hc hcd => ?_
    exact readIndexedRate_congr (by rw [hc, ha, List.drop_drop]) hcd
  · rw [if_neg (mt hobject.1 hones)]
    simp only [if_neg hones, Nat.add_zero, Nat.zero_add] at hab
    exact readIndexedRate_congr ha hab

/-! ### Setting the channel count -/

/-- Only the channel count is set: byte 9 of an Opus header, the channel configuration of
AAC, the three bits at 100 of a FLAC stream info, which hold one less. -/
def IsChannelPatch (config : CodecConfig) (channels : UInt8) (patched : Bytes) : Prop :=
  match config.codec with
  | .opus => Patched (8 * 9) 8 channels.toNat config.decoderConfig patched
  | .aac =>
    Patched (aacChannelField config.decoderConfig) 4 channels.toNat config.decoderConfig patched
  | .flac => Patched 100 3 (channels.toNat - 1) config.decoderConfig patched
  | .pcm _ | .unknown _ => patched = config.decoderConfig

/-- The channel configuration is within the first bytes. -/
theorem aacChannelField_le (data : Bytes) : aacChannelField data + 4 ≤ 8 * aacWindow := by
  rw [aacWindow]
  simp only [aacChannelField]
  split <;> split <;> decide

theorem isChannelPatch_of_eq_ok {config : CodecConfig} {channels : UInt8} {patched : Bytes}
    (h : config.decoderConfigFor channels = .ok patched) :
    config.IsChannelPatch channels patched := by
  rw [decoderConfigFor] at h
  rw [IsChannelPatch]
  cases hcodec : config.codec <;> simp only [hcodec] at h ⊢
  case opus =>
    obtain rfl := Except.ok.inj h
    exact Bytes.patched_set _ _ _
  case aac =>
    have hend := aacChannelField_le config.decoderConfig
    -- Zeros for missing bytes are no ones, so the field is where it is in the data.
    have hfield : aacChannelField (padded aacWindow config.decoderConfig)
        = aacChannelField config.decoderConfig :=
      aacChannelField_congr fun place hplace => (bitAt_padded (by omega)).symm
    have hlocate := aacChannelOffset_parse (Checked.length_padded aacWindow config.decoderConfig)
    rw [hfield] at hlocate
    rw [Checked.setBits_of hlocate hend] at h
    obtain rfl := Except.ok.inj h
    exact patched_fieldSet hend _ _
  case flac =>
    have hlocate : (pure flacChannelOffset : Read Nat).parse "decoder config"
        (padded flacWindow config.decoderConfig) = .ok flacChannelOffset := rfl
    have hend : flacChannelOffset + 3 ≤ 8 * flacWindow := by decide
    rw [Checked.setBits_of hlocate hend] at h
    obtain rfl := Except.ok.inj h
    exact patched_fieldSet hend _ _
  case pcm | unknown => exact (Except.ok.inj h).symm

namespace IsChannelPatch

variable {config : CodecConfig} {channels other : UInt8} {patched later : Bytes}

theorem length_eq (h : config.IsChannelPatch channels patched) :
    patched.length = config.decoderConfig.length := by
  rw [IsChannelPatch] at h
  cases hcodec : config.codec <;> simp only [hcodec] at h
  case opus | aac | flac => exact h.length_eq
  case pcm | unknown => exact congrArg List.length h

/-- A channel count can be set in one way only. -/
theorem eq_of (h : config.IsChannelPatch channels patched)
    (hlater : config.IsChannelPatch channels later) : later = patched := by
  rw [IsChannelPatch] at h hlater
  cases hcodec : config.codec <;> simp only [hcodec] at h hlater
  case opus | aac | flac => exact h.eq_of hlater
  case pcm | unknown => exact hlater.trans h.symm

/-- Of two channel counts that are set, the last one stays. -/
theorem again (h : config.IsChannelPatch channels patched)
    (hlater : { config with decoderConfig := patched }.IsChannelPatch other later) :
    config.IsChannelPatch other later := by
  rw [IsChannelPatch] at h hlater ⊢
  cases hcodec : config.codec <;> simp only [hcodec] at h hlater ⊢
  case opus | flac => exact h.again hlater
  case aac =>
    have hfield : aacChannelField patched = aacChannelField config.decoderConfig :=
      aacChannelField_congr fun place hplace => (h.frame place (.inl hplace)).symm
    rw [hfield] at hlater
    exact h.again hlater
  case pcm | unknown => exact hlater.trans h

/-- The channel count of AAC is behind everything that the sample rate depends on. -/
theorem sampleRate_eq (h : config.IsChannelPatch channels patched) (haac : config.codec = .aac)
    (subject : String) : readAacSampleRate.parse subject patched
      = readAacSampleRate.parse subject config.decoderConfig := by
  rw [IsChannelPatch, haac] at h
  exact (parse_readAacSampleRate h.length_eq.symm
    (fun place hplace => (h.frame place (.inl hplace)).symm) subject).symm

end IsChannelPatch

/-- To set a channel count succeeds on every configuration, however short, also where
numbers are of machine size. The length stays, and nothing is changed but the field for the
channel count, as far as it is there; so the sample rate of AAC is the same, and when another
channel count is set afterwards, the first one leaves no trace. -/
theorem exists_isChannelPatch (config : CodecConfig) (channels : UInt8) :
    ∃ patched, config.decoderConfigFor channels = .ok patched
      ∧ Checked.decoderConfigFor config channels = .ok patched
      ∧ patched.length = config.decoderConfig.length
      ∧ config.IsChannelPatch channels patched
      ∧ (config.codec = .aac → ∀ subject, readAacSampleRate.parse subject patched
        = readAacSampleRate.parse subject config.decoderConfig)
      ∧ ∀ other, { config with decoderConfig := patched }.decoderConfigFor other
        = config.decoderConfigFor other := by
  obtain ⟨patched, hpatched⟩ := exists_decoderConfigFor config channels
  have hpatch := isChannelPatch_of_eq_ok hpatched
  refine ⟨patched, hpatched, ?_, hpatch.length_eq, hpatch, hpatch.sampleRate_eq, fun other => ?_⟩
  · rw [Checked.decoderConfigFor_eq, hpatched]
    rfl
  · obtain ⟨once, honce⟩ := exists_decoderConfigFor config other
    obtain ⟨twice, htwice⟩ :=
      exists_decoderConfigFor { config with decoderConfig := patched } other
    rw [honce, htwice, (isChannelPatch_of_eq_ok honce).eq_of
      (hpatch.again (isChannelPatch_of_eq_ok htwice))]

end Iamf.CodecConfig
