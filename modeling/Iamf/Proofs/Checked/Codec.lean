import Iamf.Codec.Wire
import Iamf.Proofs.Checked.Refinement
import Iamf.SequenceHeader

/-!
# `Iamf.Proofs.Checked.Codec`: sequence headers and codec configs

The readers of sequence headers and codec configs with checked arithmetic. The magic
of a sequence is read as a word; the room for an Opus header is computed; the bits of
an AAC config and the bytes of a FLAC stream info are looked up by position.

* `parseSequenceHeader_eq`, `parseCodecConfig_eq`: what comes of a whole body.
-/

set_option autoImplicit false

namespace Iamf.Checked

/-! ### Sequence headers -/

/-- Reads a sequence header body. -/
def readSequenceHeader (strict : Bool) : Parse SequenceHeader := do
  let found ← Bytes.ofUInt32 <$> uint32
  require (found = SequenceHeader.magic) (.badMagic found)
  let primaryProfile ← uint8
  let additionalProfile ← uint8
  finish .sequenceHeader strict
  return { primaryProfile, additionalProfile }

/-- The bytes of a word are those that it was read from. -/
theorem ofUInt32_uint32 (subject : String) (rest : Bytes) :
    (Bytes.ofUInt32 <$> Read.uint32) ⟨subject, [], rest⟩ = Read.bytes 4 ⟨subject, [], rest⟩ := by
  rcases rest with _ | ⟨a, _ | ⟨b, _ | ⟨c, _ | ⟨d, rest⟩⟩⟩⟩
  -- With fewer than four bytes both fail; with four the word is taken apart again.
  case cons.cons.cons.cons =>
    have hbytes : Bytes.ofUInt32
        (UInt32.ofNat ((UInt16.ofNat (a.toNat * 256 + b.toNat)).toNat * 65536
          + (UInt16.ofNat (c.toNat * 256 + d.toNat)).toNat)) = [a, b, c, d] := by
      have ha := a.toNat_lt
      have hb := b.toNat_lt
      have hc := c.toNat_lt
      have hd := d.toNat_lt
      simp only [Bytes.ofUInt32, UInt32.toNat_ofNat', UInt16.toNat_ofNat', List.cons.injEq,
        and_true]
      refine ⟨?_, ?_, ?_, ?_⟩ <;> apply UInt8.toNat_inj.1 <;> rw [Read.toNat_ofNat_byte] <;> omega
    show Except.ok (Bytes.ofUInt32 _, _) = _
    rw [hbytes]
    exact (Read.bytes_append subject rest (rfl : [a, b, c, d].length = 4)).symm
  all_goals rfl

theorem refines_magic : Refines (Bytes.ofUInt32 <$> uint32) (Read.bytes 4) := by
  rintro cursor reader h
  have hword : Refines (Bytes.ofUInt32 <$> uint32) (Bytes.ofUInt32 <$> Read.uint32) :=
    refines_uint32.map fun _ _ _ h => h
  have hagrees := hword h
  obtain ⟨offset, hat⟩ := h
  rwa [hat.reader_eq, ofUInt32_uint32, ← hat.reader_eq] at hagrees

theorem refines_readSequenceHeader (strict : Bool) :
    Refines (readSequenceHeader strict) (SequenceHeader.read strict) :=
  refines_magic.bind fun _ => RefinesFrom.require Iff.rfl fun _ =>
    refines_uint8.bind fun _ => refines_uint8.bind fun _ =>
    (refines_finish _ _).bind fun _ => refines_pure _

/-- The sequence header of an OBU body. -/
def parseSequenceHeader (strict : Bool) (body : Bytes) : Except Stop SequenceHeader :=
  parse (readSequenceHeader strict) "sequence header" body

theorem parseSequenceHeader_eq (strict : Bool) {body : Bytes} (h : body.length ≤ Obu.maxSize) :
    parseSequenceHeader strict body = raise (SequenceHeader.parse strict body) :=
  parse_eq (refines_readSequenceHeader strict) _ h

/-! ### Codec configs -/

section

open CodecConfig

/-- Reads an Opus configuration. -/
def readOpus : Parse Decoder := do
  let config ← rest
  require (minOpusConfigSize ≤ config.length) (.truncated "opus decoder config")
  let _ ← add 64 opusMagic.length config.length
  return (.opus, opusSampleRate, opusMagic ++ config)

/-- Reads the sample rate from an audio specific config. -/
def readAacSampleRate : Parse UInt32 := do
  let objectType ← bits 5
  if objectType = escapedObjectType then skipBits 6
  let frequency ← bits 4
  if frequency = escapedFrequency then uint24
  else match aacSampleRates[frequency]? with
    | some rate => return rate
    | none => fail (.outOfRange "samplingFrequencyIndex" frequency)

/-- Reads an AAC configuration. -/
def readAac : Parse Decoder := do
  let tag ← uint8
  require (tag = decoderConfigTag) (.invalidData .noDecoderConfigDescriptor)
  let objectType ← uint8
  require (objectType = aacObjectType) (.outOfRange "objectTypeIndication" objectType.toNat)
  let streamType ← uint8
  let kind ← shiftRight 8 streamType.toNat 2
  let upward ← shiftRight 8 streamType.toNat 1
  require (kind = audioStreamType.toNat ∧ upward &&& 1 = 0)
    (.outOfRange "streamType" streamType.toNat)
  skipBytes unusedDescriptorSize
  let tag ← uint8
  require (tag = decoderSpecificTag) (.invalidData .noDecoderSpecificInfo)
  let config ← rest
  require (config ≠ []) (.truncated "AudioSpecificConfig")
  let sampleRate ← (parse readAacSampleRate "AudioSpecificConfig" config : Except Stop UInt32)
  return (.aac, sampleRate, config)

/-- Reads a FLAC configuration. -/
def readFlac : Parse Decoder := do
  skipBytes 4
  let info ← rest
  require (minFlacInfoSize ≤ info.length) (.truncated "FLAC STREAMINFO")
  let high ← index info 10
  let middle ← index info 11
  let low ← index info 12
  let sampleRate ← shiftRight 32 ((high.toNat * 256 + middle.toNat) * 256 + low.toNat) 4
  return (.flac, UInt32.ofNat sampleRate, info)

/-- Reads a PCM configuration. -/
def readPcm : Parse Decoder := do
  let flags ← uint8
  require (flags ≤ 1) (.outOfRange "sample_format_flags" flags.toNat)
  let depth ← uint8
  let some depth := PcmDepth.ofBits? depth | fail (.outOfRange "sample_size" depth.toNat)
  let sampleRate ← uint32
  let left ← bytesLeft
  require (left = 0) (.invalidData (.trailingPcmBytes left))
  return (.pcm { littleEndian := flags = 1, depth }, sampleRate, [])

/-- Reads what the codec with the given code asks for. -/
def readDecoder (fourCC : FourCC) : Parse Decoder :=
  if fourCC = Codec.opusCode then readOpus
  else if fourCC = Codec.aacCode then readAac
  else if fourCC = Codec.flacCode then readFlac
  else if fourCC = Codec.pcmCode then readPcm
  else return (.unknown fourCC, 0, [])

/-- Reads a codec config body. -/
def readCodecConfig (strict : Bool) : Parse CodecConfig := do
  let id ← number
  let fourCC ← uint32
  let frameSize ← number
  let seekPreroll ← int16
  let (codec, sampleRate, decoderConfig) ← readDecoder fourCC
  finish .codecConfig strict
  return { id, codec, frameSize, seekPreroll, sampleRate, decoderConfig }

theorem refines_readOpus : Refines readOpus CodecConfig.readOpus :=
  refinesFrom_rest.bind fun config => RefinesFrom.given fun hsize =>
    RefinesFrom.require Iff.rfl fun _ => by
      have hfits : opusMagic.length + config.length < 2 ^ 64 := by
        simp only [Obu.maxSize] at hsize
        rw [opusMagic]
        simp only [List.length_cons, List.length_nil]
        omega
      rw [add_of hfits, pure_bind]
      exact refines_pure _

/-- An audio specific config is read bit by bit. -/
theorem refinesFrom_readAacSampleRate :
    RefinesFrom Spans (fun _ => Spans) readAacSampleRate CodecConfig.readAacSampleRate := by
  refine (refinesFrom_bits (by decide)).bind fun objectType => ?_
  have hrest : RefinesFrom Spans (fun _ => Spans)
      (bits 4 >>= fun frequency =>
        if frequency = escapedFrequency then uint24
        else match aacSampleRates[frequency]? with
          | some rate => pure rate
          | none => fail (.outOfRange "samplingFrequencyIndex" frequency))
      (Read.bits 4 >>= fun frequency =>
        if frequency = escapedFrequency then Read.uint24
        else match aacSampleRates[frequency]? with
          | some rate => pure rate
          | none => throw (.outOfRange "samplingFrequencyIndex" frequency)) := by
    refine (refinesFrom_bits (by decide)).bind fun frequency => ?_
    split
    · exact refinesFrom_uint24
    · split
      · exact refines_pure _
      · exact refinesFrom_fail _
  split
  · exact refinesFrom_skipBits.bind fun _ => hrest
  · exact hrest

/-- The two tests of the stream type are one. -/
theorem streamType_iff (byte : UInt8) :
    (byte.toNat >>> 2 = audioStreamType.toNat ∧ byte.toNat >>> 1 &&& 1 = 0)
      ↔ byte >>> 1 = audioStreamType <<< 1 := by
  rw [← UInt8.toNat_inj, UInt8.toNat_shiftRight, Nat.and_one_is_mod]
  simp only [Nat.shiftRight_eq_div_pow, audioStreamType]
  have hlt := byte.toNat_lt
  simp
  omega

theorem refines_readAac : Refines readAac CodecConfig.readAac := by
  refine refines_uint8.bind fun tag => RefinesFrom.require Iff.rfl fun _ =>
    refines_uint8.bind fun objectType => RefinesFrom.require Iff.rfl fun _ =>
    refines_uint8.bind fun streamType => ?_
  rw [shiftRight_of (by decide), pure_bind, shiftRight_of (by decide), pure_bind]
  refine RefinesFrom.require (streamType_iff streamType) fun _ =>
    (refines_skipBytes _).bind fun _ => refines_uint8.bind fun _ =>
    RefinesFrom.require Iff.rfl fun _ => refinesFrom_rest.bind fun config =>
    RefinesFrom.given fun hsize => RefinesFrom.require Iff.rfl fun _ => ?_
  -- The config inside is a byte string of its own, no longer than the body.
  exact (refines_lift (parse_eq_of_at
    (fun _ _ hat => refinesFrom_readAacSampleRate hat.spans) _ hsize)).bind fun _ => refines_pure _

/-- Three bytes in a row spell the number that their bits do. -/
theorem toNat_ofBytes_three (a b c : UInt8) :
    Bits.toNat (Bits.ofBytes [a, b, c]) = (a.toNat * 256 + b.toNat) * 256 + c.toNat := by
  have hbits : Bits.ofBytes [a, b, c]
      = Bits.ofNat 8 a.toNat ++ Bits.ofNat 8 b.toNat ++ Bits.ofNat 8 c.toNat := by
    rw [Bits.ofBytes_cons, Bits.ofBytes_cons, Bits.ofBytes_cons, Bits.ofBytes_nil,
      List.append_nil, List.append_assoc]
  rw [hbits, Bits.toNat_append, Bits.toNat_append, Bits.length_ofNat, Bits.length_ofNat,
    Bits.toNat_ofNat_byte, Bits.toNat_ofNat_byte, Bits.toNat_ofNat_byte]
  rfl

theorem refines_readFlac : Refines readFlac CodecConfig.readFlac := by
  refine (refines_skipBytes 4).bind fun _ => refinesFrom_rest.bind fun info =>
    RefinesFrom.given fun _ => RefinesFrom.require Iff.rfl fun hinfo => ?_
  simp only [minFlacInfoSize] at hinfo
  -- The length was tested, so the three bytes with the rate are there.
  have hmiddle : (info.drop 10).take 3 = [info[10], info[11], info[12]] := by
    rw [List.drop_eq_getElem_cons (by omega), List.drop_eq_getElem_cons (by omega),
      List.drop_eq_getElem_cons (by omega)]
    rfl
  rw [index_of (List.getElem?_eq_getElem (by omega : 10 < info.length)), pure_bind,
    index_of (List.getElem?_eq_getElem (by omega : 11 < info.length)), pure_bind,
    index_of (List.getElem?_eq_getElem (by omega : 12 < info.length)), pure_bind,
    shiftRight_of (by decide), pure_bind, flacSampleRate, hmiddle, toNat_ofBytes_three,
    Nat.shiftRight_eq_div_pow]
  exact refines_pure _

theorem refines_readPcm : Refines readPcm CodecConfig.readPcm := by
  refine refines_uint8.bind fun flags => RefinesFrom.require Iff.rfl fun _ =>
    refines_uint8.bind fun depth => ?_
  cases PcmDepth.ofBits? depth with
  | some depth =>
    exact refines_uint32.bind fun _ => refines_bytesLeft.bind fun _ =>
      RefinesFrom.require Iff.rfl fun _ => refines_pure _
  | none => exact refinesFrom_fail _

theorem refines_readDecoder (fourCC : FourCC) :
    Refines (readDecoder fourCC) (CodecConfig.readDecoder fourCC) := by
  rw [readDecoder, CodecConfig.readDecoder]
  split
  · exact refines_readOpus
  split
  · exact refines_readAac
  split
  · exact refines_readFlac
  split
  · exact refines_readPcm
  · exact refines_pure _

theorem refines_readCodecConfig (strict : Bool) :
    Refines (readCodecConfig strict) (CodecConfig.read strict) :=
  refines_number.bind fun _ => refines_uint32.bind fun _ => refines_number.bind fun _ =>
    refines_int16.bind fun _ => (refines_readDecoder _).bind fun _ =>
    (refines_finish _ _).bind fun _ => refines_pure _

end

/-- The codec config of an OBU body. -/
def parseCodecConfig (strict : Bool) (body : Bytes) : Except Stop CodecConfig :=
  parse (readCodecConfig strict) "codec config" body

theorem parseCodecConfig_eq (strict : Bool) {body : Bytes} (h : body.length ≤ Obu.maxSize) :
    parseCodecConfig strict body = raise (CodecConfig.parse strict body) :=
  parse_eq (refines_readCodecConfig strict) _ h

end Iamf.Checked
