import Iamf.Codec.Basic
import Iamf.Leb128

/-!
# `Iamf.Codec.Wire`: reading and writing codec configs

A codec config body is the id, the four character code, the frame size, the
seek preroll, and then what the codec asks for. An unknown codec is read
without looking at its configuration, and cannot be written.
-/

set_option autoImplicit false

namespace Iamf.CodecConfig

/-- What starts an Opus identification header; it is not sent. -/
def opusMagic : Bytes := [0x4F, 0x70, 0x75, 0x73, 0x48, 0x65, 0x61, 0x64]

/-- The least an Opus configuration holds after the magic. -/
def minOpusConfigSize : Nat := 11

/-- The least size of a FLAC stream info. -/
def minFlacInfoSize : Nat := 34

/-- Opus always decodes at this rate. -/
def opusSampleRate : UInt32 := 48000

/-- Tag of an MPEG-4 decoder config descriptor. -/
def decoderConfigTag : UInt8 := 0x04

/-- Tag of MPEG-4 decoder specific info. -/
def decoderSpecificTag : UInt8 := 0x05

/-- MPEG-4 object type of AAC. -/
def aacObjectType : UInt8 := 0x40

/-- MPEG-4 stream type of audio. -/
def audioStreamType : UInt8 := 0x05

/-- Buffer size, highest and average bit rate; none is used. -/
def unusedDescriptorSize : Nat := 3 + 4 + 4

/-- The audio object type that says that six more bits hold the type. -/
def escapedObjectType : Nat := 31

/-- The frequency index that says that 24 bits hold the rate. -/
def escapedFrequency : Nat := 15

/-- Sample rates by MPEG-4 frequency index. -/
def aacSampleRates : List UInt32 :=
  [96000, 88200, 64000, 48000, 44100, 32000, 24000, 22050, 16000, 12000, 11025, 8000, 7350]

/-- Reads the sample rate from an audio specific config. -/
def readAacSampleRate : Read UInt32 := do
  let objectType ← Read.bits 5
  if objectType = escapedObjectType then Read.skipBits 6
  let index ← Read.bits 4
  if index = escapedFrequency then Read.uint24
  else match aacSampleRates[index]? with
    | some rate => return rate
    | none => throw (.outOfRange "samplingFrequencyIndex" index)

/-- Sample rate of a FLAC stream info: the 20 bits at byte 10. -/
def flacSampleRate (info : Bytes) : UInt32 :=
  UInt32.ofNat (Bits.toNat (Bits.ofBytes ((info.drop 10).take 3)) / 16)

/-- What a codec asks for: itself, the sample rate and the decoder configuration. -/
abbrev Decoder := Codec × UInt32 × Bytes

/-- Reads an Opus configuration. -/
def readOpus : Read Decoder := do
  let rest ← Read.remaining
  ensure (minOpusConfigSize ≤ rest.length) (.truncated "opus decoder config")
  return (.opus, opusSampleRate, opusMagic ++ rest)

/-- Reads an AAC configuration. -/
def readAac : Read Decoder := do
  let tag ← Read.byte
  ensure (tag = decoderConfigTag) (.invalidData .noDecoderConfigDescriptor)
  let objectType ← Read.byte
  ensure (objectType = aacObjectType) (.outOfRange "objectTypeIndication" objectType.toNat)
  -- Six bits of stream type, the direction bit, which is zero, one reserved bit.
  let streamType ← Read.byte
  ensure (streamType >>> 1 = audioStreamType <<< 1) (.outOfRange "streamType" streamType.toNat)
  Read.skipBytes unusedDescriptorSize
  let tag ← Read.byte
  ensure (tag = decoderSpecificTag) (.invalidData .noDecoderSpecificInfo)
  let config ← Read.remaining
  ensure (config ≠ []) (.truncated "AudioSpecificConfig")
  let sampleRate ← liftExcept (readAacSampleRate.parse "AudioSpecificConfig" config)
  return (.aac, sampleRate, config)

/-- Reads a FLAC configuration. -/
def readFlac : Read Decoder := do
  -- The metadata block header.
  Read.skipBytes 4
  let info ← Read.remaining
  ensure (minFlacInfoSize ≤ info.length) (.truncated "FLAC STREAMINFO")
  return (.flac, flacSampleRate info, info)

/-- Reads a PCM configuration. -/
def readPcm : Read Decoder := do
  let flags ← Read.byte
  ensure (flags ≤ 1) (.outOfRange "sample_format_flags" flags.toNat)
  let bits ← Read.byte
  let some depth := PcmDepth.ofBits? bits | throw (.outOfRange "sample_size" bits.toNat)
  let sampleRate ← Read.uint32
  let left ← Read.bytesLeft
  ensure (left = 0) (.invalidData (.trailingPcmBytes left))
  return (.pcm { littleEndian := flags = 1, depth }, sampleRate, [])

/-- Reads what the codec with the given code asks for. -/
def readDecoder (fourCC : FourCC) : Read Decoder :=
  if fourCC = Codec.opusCode then readOpus
  else if fourCC = Codec.aacCode then readAac
  else if fourCC = Codec.flacCode then readFlac
  else if fourCC = Codec.pcmCode then readPcm
  else return (.unknown fourCC, 0, [])

/-- Reads a codec config body. -/
def read (strict : Bool) : Read CodecConfig := do
  let id ← Leb128.read
  let fourCC ← Read.uint32
  let frameSize ← Leb128.read
  let seekPreroll ← Read.int16
  let (codec, sampleRate, decoderConfig) ← readDecoder fourCC
  Read.finish .codecConfig strict
  return { id, codec, frameSize, seekPreroll, sampleRate, decoderConfig }

/-- The codec config of an OBU body. -/
def parse (strict : Bool) (body : Bytes) : Except Error CodecConfig :=
  (read strict).parse "codec config" body

/-- The part of a body that the codec asks for. -/
def encodeDecoder (config : CodecConfig) : Except Error Bytes :=
  match config.codec with
  | .opus =>
    return if opusMagic.isPrefixOf config.decoderConfig then
      config.decoderConfig.drop opusMagic.length
    else config.decoderConfig
  | .aac =>
    return [decoderConfigTag, aacObjectType, audioStreamType <<< 2 ||| 1]
      ++ List.replicate unusedDescriptorSize 0
      ++ decoderSpecificTag :: config.decoderConfig
  | .flac =>
    -- The last metadata block, of type stream info.
    return 0x80 :: (Bytes.ofUInt24 (UInt32.ofNat config.decoderConfig.length)
      ++ config.decoderConfig)
  | .pcm format =>
    return [if format.littleEndian then 1 else 0, format.depth.bits]
      ++ Bytes.ofUInt32 config.sampleRate
  | .unknown _ => throw .unknownCodec

/-- The OBU body of a codec config. -/
def encode (config : CodecConfig) : Except Error Bytes := do
  let decoder ← config.encodeDecoder
  return Leb128.encode config.id ++ Bytes.ofUInt32 config.codec.fourCC
    ++ Leb128.encode config.frameSize ++ Bytes.ofInt16 config.seekPreroll ++ decoder

end Iamf.CodecConfig
