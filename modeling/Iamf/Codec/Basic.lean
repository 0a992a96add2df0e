import Iamf.Bytes

/-!
# `Iamf.Codec.Basic`: codecs and codec configs

A codec config names the codec of every substream of the audio elements that
refer to it, and holds the decoder configuration. On the wire a codec is a four
character code; the byte order and depth of PCM follow in its configuration.

* `PcmDepth.ofBits?_bits`: depths and their numbers of bits correspond.
-/

set_option autoImplicit false

namespace Iamf

/-- A four character code, first character in the high byte. -/
abbrev FourCC := UInt32

/-- Bits per PCM sample. -/
inductive PcmDepth where
  /-- 16 bits. -/
  | bits16
  /-- 24 bits. -/
  | bits24
  /-- 32 bits. -/
  | bits32
  deriving DecidableEq, Repr

namespace PcmDepth

/-- The number of bits. -/
def bits : PcmDepth → UInt8
  | bits16 => 16
  | bits24 => 24
  | bits32 => 32

/-- The depth of a given number of bits. -/
def ofBits? (bits : UInt8) : Option PcmDepth :=
  if bits = 16 then some bits16
  else if bits = 24 then some bits24
  else if bits = 32 then some bits32
  else none

theorem ofBits?_bits (depth : PcmDepth) : ofBits? depth.bits = some depth := by
  cases depth <;> rfl

end PcmDepth

/-- The format of PCM samples. -/
structure PcmFormat where
  /-- Whether the low byte of a sample comes first. -/
  littleEndian : Bool
  /-- Bits per sample. -/
  depth : PcmDepth
  deriving DecidableEq, Repr

/-- The codec of a substream. -/
inductive Codec where
  /-- Opus. -/
  | opus
  /-- AAC. -/
  | aac
  /-- FLAC. -/
  | flac
  /-- Linear PCM. -/
  | pcm (format : PcmFormat)
  /-- A codec that is not supported. -/
  | unknown (fourCC : FourCC)
  deriving DecidableEq, Repr

namespace Codec

/-- The code of Opus, `Opus`. -/
def opusCode : FourCC := 0x4F707573

/-- The code of AAC, `mp4a`. -/
def aacCode : FourCC := 0x6D703461

/-- The code of FLAC, `fLaC`. -/
def flacCode : FourCC := 0x664C6143

/-- The code of linear PCM, `ipcm`. -/
def pcmCode : FourCC := 0x6970636D

/-- The code of a codec. -/
def fourCC : Codec → FourCC
  | opus => opusCode
  | aac => aacCode
  | flac => flacCode
  | pcm _ => pcmCode
  | unknown fourCC => fourCC

/-- The sample format, for PCM. -/
def pcmFormat? : Codec → Option PcmFormat
  | pcm format => some format
  | _ => none

/-- Whether decoding gives back what was encoded. -/
def isLossless : Codec → Bool
  | flac | pcm _ => true
  | _ => false

end Codec

/-- A codec configuration. -/
structure CodecConfig where
  /-- Names this config in a stream. -/
  id : UInt32
  /-- The codec. -/
  codec : Codec
  /-- Samples per frame. -/
  frameSize : UInt32
  /-- Samples to decode and drop after a seek. -/
  seekPreroll : Int16
  /-- Samples per second. -/
  sampleRate : UInt32
  /-- The decoder configuration: for Opus the whole identification header with
  its magic, for AAC the audio specific config, for FLAC the stream info. -/
  decoderConfig : Bytes
  deriving DecidableEq, Repr

end Iamf
