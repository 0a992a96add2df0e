import Iamf.Codec.Wire
import Iamf.Proofs.Wire.Numbers

/-!
# `Iamf.Proofs.Codec.Readable`: codec configs are read back as they were

Of what a codec asks for, its configuration is kept and the rest is thrown away
or worked out: the magic of an Opus header is not sent, the descriptors around
an AAC configuration are filled with zeros, a FLAC stream info gets a block
header, and the sample rate is found in the configuration. So a config comes
back only if its sample rate is the one that its configuration tells, which
holds of every config that was read.

* `CodecConfig.parse_eq_ok`: a config that was read is readable.
* `CodecConfig.parse_encode`: a readable config that can be written comes back.
-/

set_option autoImplicit false

namespace Iamf.CodecConfig

open Read (Consumes Exhausts Takes)

/-- What a reader can give for the part of a body that a codec asks for. -/
inductive IsDecoder : Decoder → Prop where
  | opus {rest : Bytes} (h : minOpusConfigSize ≤ rest.length) :
      IsDecoder (.opus, opusSampleRate, opusMagic ++ rest)
  | aac {sampleRate : UInt32} {config : Bytes} (hne : config ≠ [])
      (h : readAacSampleRate.parse "AudioSpecificConfig" config = .ok sampleRate) :
      IsDecoder (.aac, sampleRate, config)
  | flac {info : Bytes} (h : minFlacInfoSize ≤ info.length) :
      IsDecoder (.flac, flacSampleRate info, info)
  | pcm (format : PcmFormat) (sampleRate : UInt32) : IsDecoder (.pcm format, sampleRate, [])
  | unknown (fourCC : FourCC) : IsDecoder (.unknown fourCC, 0, [])

/-- A config that was read. -/
def Readable (config : CodecConfig) : Prop :=
  IsDecoder (config.codec, config.sampleRate, config.decoderConfig)

/-! ### What was read -/

theorem readOpus_eq_ok {reader after : Reader} {decoder : Decoder}
    (h : readOpus reader = .ok (decoder, after)) : IsDecoder decoder ∧ decoder.1 = .opus := by
  simp only [readOpus, Read.bind_eq_ok, Read.ensure_eq_ok, Read.pure_eq_ok, Prod.mk.injEq] at h
  obtain ⟨rest, _, -, _, _, ⟨hlength, -⟩, rfl, -⟩ := h
  exact ⟨.opus hlength, rfl⟩

theorem readAac_eq_ok {reader after : Reader} {decoder : Decoder}
    (h : readAac reader = .ok (decoder, after)) : IsDecoder decoder ∧ decoder.1 = .aac := by
  simp only [readAac, Read.bind_eq_ok, Read.ensure_eq_ok, Read.liftExcept_eq_ok, Read.pure_eq_ok,
    Prod.mk.injEq] at h
  obtain ⟨_, _, -, _, _, -, _, _, -, _, _, -, _, _, -, _, _, -, _, _, -, _, _, -, _, _, -,
    config, _, -, _, _, ⟨hne, -⟩, _, _, ⟨_, hrate, rfl, -⟩, rfl, -⟩ := h
  exact ⟨.aac hne hrate, rfl⟩

theorem readFlac_eq_ok {reader after : Reader} {decoder : Decoder}
    (h : readFlac reader = .ok (decoder, after)) : IsDecoder decoder ∧ decoder.1 = .flac := by
  simp only [readFlac, Read.bind_eq_ok, Read.ensure_eq_ok, Read.pure_eq_ok, Prod.mk.injEq] at h
  obtain ⟨_, _, -, info, _, -, _, _, ⟨hlength, -⟩, rfl, -⟩ := h
  exact ⟨.flac hlength, rfl⟩

theorem readPcm_eq_ok {reader after : Reader} {decoder : Decoder}
    (h : readPcm reader = .ok (decoder, after)) :
    IsDecoder decoder ∧ ∃ format, decoder.1 = .pcm format := by
  simp only [readPcm, Read.bind_eq_ok, Read.ensure_eq_ok] at h
  obtain ⟨flags, _, -, _, _, -, bits, _, -, h⟩ := h
  cases hdepth : PcmDepth.ofBits? bits with
  | none => exact absurd h (by simp [hdepth, Read.throw_eq_ok])
  | some depth =>
    simp only [hdepth, Read.bind_eq_ok, Read.ensure_eq_ok, Read.pure_eq_ok, Prod.mk.injEq] at h
    obtain ⟨sampleRate, _, -, _, _, -, _, _, -, rfl, -⟩ := h
    exact ⟨.pcm _ sampleRate, _, rfl⟩

theorem readDecoder_eq_ok {fourCC : FourCC} {reader after : Reader} {decoder : Decoder}
    (h : readDecoder fourCC reader = .ok (decoder, after)) : IsDecoder decoder := by
  rw [readDecoder] at h
  split at h
  · exact (readOpus_eq_ok h).1
  split at h
  · exact (readAac_eq_ok h).1
  split at h
  · exact (readFlac_eq_ok h).1
  split at h
  · exact (readPcm_eq_ok h).1
  · simp only [Read.pure_eq_ok, Prod.mk.injEq] at h
    obtain ⟨rfl, -⟩ := h
    exact .unknown fourCC

/-- Behind the code of a known codec a known codec is read. -/
theorem known_of_readDecoder {codec : Codec} {reader after : Reader} {decoder : Decoder}
    (hknown : ∀ fourCC, codec ≠ .unknown fourCC)
    (h : readDecoder codec.fourCC reader = .ok (decoder, after)) :
    ∀ fourCC, decoder.1 ≠ .unknown fourCC := by
  intro fourCC hcodec
  cases codec with
  | opus => cases hcodec.symm.trans (readOpus_eq_ok h).2
  | aac => cases hcodec.symm.trans (readAac_eq_ok h).2
  | flac => cases hcodec.symm.trans (readFlac_eq_ok h).2
  | pcm format =>
    obtain ⟨read, hread⟩ := (readPcm_eq_ok h).2
    cases hcodec.symm.trans hread
  | unknown other => exact hknown other rfl

/-- A config that was read is readable. -/
theorem parse_eq_ok {strict : Bool} {body : Bytes} {config : CodecConfig}
    (h : parse strict body = .ok config) : config.Readable := by
  rw [parse, Read.parse_eq_ok] at h
  obtain ⟨after, h⟩ := h
  simp only [read, Read.bind_eq_ok, Read.pure_eq_ok, Prod.mk.injEq] at h
  obtain ⟨_, _, -, _, _, -, _, _, -, _, _, -, decoder, _, hdecoder, _, _, -, rfl, -⟩ := h
  exact readDecoder_eq_ok hdecoder

/-! ### What was written -/

theorem exhausts_opus {rest : Bytes} (h : minOpusConfigSize ≤ rest.length) :
    Exhausts readOpus rest (.opus, opusSampleRate, opusMagic ++ rest) :=
  (Exhausts.remaining rest).bind_nil (Takes.ensure_bind h (Takes.pure _))

/-- The descriptors of AAC say nothing but that it is AAC. -/
theorem exhausts_aac {sampleRate : UInt32} {config : Bytes} (hne : config ≠ [])
    (h : readAacSampleRate.parse "AudioSpecificConfig" config = .ok sampleRate) :
    Exhausts readAac ([decoderConfigTag, aacObjectType, audioStreamType <<< 2 ||| 1]
        ++ List.replicate unusedDescriptorSize 0 ++ decoderSpecificTag :: config)
      (.aac, sampleRate, config) := by
  rw [List.append_assoc]
  refine (Consumes.byte decoderConfigTag).bind (Takes.ensure_bind rfl ?_)
  refine (Consumes.byte aacObjectType).bind (Takes.ensure_bind rfl ?_)
  refine (Consumes.byte (audioStreamType <<< 2 ||| 1)).bind
    (Takes.ensure_bind (by decide) ?_)
  refine (Consumes.skipBytes (List.replicate unusedDescriptorSize 0)).bind ?_
  refine (Consumes.byte decoderSpecificTag).bind (Takes.ensure_bind rfl ?_)
  refine (Exhausts.remaining config).bind_nil (Takes.ensure_bind hne ?_)
  exact (Takes.lift h).bind_nil (Takes.pure _)

theorem exhausts_flac {info : Bytes} (h : minFlacInfoSize ≤ info.length) :
    Exhausts readFlac (0x80 :: (Bytes.ofUInt24 (UInt32.ofNat info.length) ++ info))
      (.flac, flacSampleRate info, info) :=
  (Consumes.skipBytes (0x80 :: Bytes.ofUInt24 (UInt32.ofNat info.length))).bind
    ((Exhausts.remaining info).bind_nil (Takes.ensure_bind h (Takes.pure _)))

/-- The flags of PCM tell which byte of a sample comes first. -/
theorem le_one_of_flags (littleEndian : Bool) :
    (if littleEndian then 1 else 0 : UInt8) ≤ 1
      ∧ decide ((if littleEndian then 1 else 0 : UInt8) = 1) = littleEndian := by
  cases littleEndian <;> decide

theorem exhausts_pcm (format : PcmFormat) (sampleRate : UInt32) :
    Exhausts readPcm ([if format.littleEndian then 1 else 0, format.depth.bits]
        ++ Bytes.ofUInt32 sampleRate)
      (.pcm format, sampleRate, []) := by
  obtain ⟨hle, hflag⟩ := le_one_of_flags format.littleEndian
  have hleft : Exhausts Read.bytesLeft [] 0 := by
    rintro subject _ rfl
    rfl
  refine (Consumes.byte _).bind (Takes.ensure_bind hle ((Consumes.byte format.depth.bits).bind ?_))
  rw [PcmDepth.ofBits?_bits, ← List.append_nil (Bytes.ofUInt32 sampleRate)]
  refine (Read.consumes_uint32 sampleRate).bind (hleft.bind_nil (Takes.ensure_bind rfl ?_))
  rw [hflag]
  exact Takes.pure _

/-- What the codec asks for comes back from its bytes, the sample rate included. -/
theorem exhausts_encodeDecoder {config : CodecConfig} {bytes : Bytes} (h : config.Readable)
    (hencode : config.encodeDecoder = .ok bytes) :
    Exhausts (readDecoder config.codec.fourCC) bytes
      (config.codec, config.sampleRate, config.decoderConfig) := by
  obtain ⟨id, codec, frameSize, seekPreroll, sampleRate, decoderConfig⟩ := config
  simp only [Readable] at h
  -- The sample rate is written for PCM alone; the other readers find or know it.
  cases h with
  | opus h =>
    rename_i rest
    have hbegins : opusMagic.isPrefixOf (opusMagic ++ rest) = true :=
      List.isPrefixOf_iff_prefix.2 (List.prefix_append _ _)
    simp only [encodeDecoder, hbegins, if_true, List.drop_left, outcome_pure_eq_ok] at hencode
    exact hencode ▸ exhausts_opus h
  | aac hne h =>
    rw [encodeDecoder, outcome_pure_eq_ok] at hencode
    exact hencode ▸ exhausts_aac hne h
  | flac h =>
    rw [encodeDecoder, outcome_pure_eq_ok] at hencode
    exact hencode ▸ exhausts_flac h
  | pcm format sampleRate =>
    rw [encodeDecoder, outcome_pure_eq_ok] at hencode
    exact hencode ▸ exhausts_pcm format sampleRate
  | unknown fourCC => cases hencode

/-- Only configs of known codecs can be written. -/
theorem known_of_encodeDecoder {config : CodecConfig} {bytes : Bytes}
    (h : config.encodeDecoder = .ok bytes) : ∀ fourCC, config.codec ≠ .unknown fourCC := by
  intro fourCC hcodec
  rw [encodeDecoder, hcodec] at h
  cases h

/-- What is in front of the part that the codec asks for is alike for all codecs,
and is read back. -/
theorem parse_of_exhausts {config : CodecConfig} {body : Bytes} (h : config.encode = .ok body) :
    ∃ bytes, config.encodeDecoder = .ok bytes
      ∧ ∀ (sampleRate : UInt32) (decoderConfig : Bytes) (strict : Bool),
        Exhausts (readDecoder config.codec.fourCC) bytes
          (config.codec, sampleRate, decoderConfig) →
        parse strict body = .ok { config with sampleRate, decoderConfig } := by
  rw [encode, outcome_bind_eq_ok] at h
  obtain ⟨decoder, hdecoder, hencode⟩ := h
  rw [outcome_pure_eq_ok] at hencode
  subst hencode
  refine ⟨decoder, hdecoder, fun sampleRate decoderConfig strict hread => ?_⟩
  refine Exhausts.parse ?_ "codec config"
  simp only [List.append_assoc]
  refine (Leb128.consumes_encode config.id).bind ?_
  refine (Read.consumes_uint32 config.codec.fourCC).bind ?_
  refine (Leb128.consumes_encode config.frameSize).bind ?_
  refine (Read.consumes_int16 config.seekPreroll).bind ?_
  exact hread.bind_nil (Exhausts.finish_bind (Takes.pure _))

/-- A readable config that can be written is read back as it was. -/
theorem parse_encode {config : CodecConfig} {body : Bytes} (h : config.Readable)
    (hencode : config.encode = .ok body) (strict : Bool) : parse strict body = .ok config := by
  obtain ⟨bytes, hbytes, hparse⟩ := parse_of_exhausts hencode
  exact hparse config.sampleRate config.decoderConfig strict (exhausts_encodeDecoder h hbytes)

/-- What is read where a config was written has its id, and a known codec. -/
theorem identity_of_parse {config read : CodecConfig} {strict : Bool} {body : Bytes}
    (hencode : config.encode = .ok body) (hparse : parse strict body = .ok read) :
    read.id = config.id ∧ ∀ fourCC, read.codec ≠ .unknown fourCC := by
  rw [encode, outcome_bind_eq_ok] at hencode
  obtain ⟨decoder, hdecoder, hbody⟩ := hencode
  have hknown := known_of_encodeDecoder hdecoder
  rw [outcome_pure_eq_ok] at hbody
  subst hbody
  rw [parse, Read.parse_eq_ok] at hparse
  obtain ⟨after, hparse⟩ := hparse
  simp only [Reader.ofBytes, CodecConfig.read, List.append_assoc] at hparse
  rw [Takes.run_bind (Leb128.consumes_encode config.id),
    Takes.run_bind (Read.consumes_uint32 config.codec.fourCC),
    Takes.run_bind (Leb128.consumes_encode config.frameSize),
    Takes.run_bind (Read.consumes_int16 config.seekPreroll)] at hparse
  simp only [Read.bind_eq_ok, Read.pure_eq_ok, Prod.mk.injEq] at hparse
  obtain ⟨found, _, hfound, _, _, -, rfl, -⟩ := hparse
  exact ⟨rfl, known_of_readDecoder hknown hfound⟩

end Iamf.CodecConfig
