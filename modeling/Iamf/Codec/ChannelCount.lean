import Iamf.Bits.Field
import Iamf.Codec.Wire

/-!
# `Iamf.Codec.ChannelCount`: a decoder configuration for a channel count

All substreams of an element share one codec config, but each is mono or
stereo. `CodecConfig.decoderConfigFor` sets the channel count in the decoder
configuration and leaves everything else alone: byte 9 of an Opus header, the
channel configuration of AAC, the channels field of a FLAC stream info. PCM and
unknown codecs have no such field.
-/

set_option autoImplicit false

namespace Iamf

/-- Reads `total` bits as three fields, with `value` for the `width` bits at
`offset`. -/
def Read.replaceBits (offset width value total : Nat) : Read (List Field) := do
  let after := total - (offset + width)
  let front ← Read.bits offset
  Read.skipBits width
  let back ← Read.bits after
  return [.bits offset front, .bits width value, .bits after back]

namespace CodecConfig

/-- Sets the `width` bits of a byte string that `locate` finds to `value`. Only
the first `window` bytes are looked at; missing ones count as zero and stay
missing. -/
def setBits (window : Nat) (locate : Read Nat) (width value : Nat) (data : Bytes) :
    Except Error Bytes := do
  let padded := data.take window ++ List.replicate (window - data.length) 0
  let offset ← locate.parse "decoder config" padded
  let fields ← (Read.replaceBits offset width value (8 * window)).parse "decoder config" padded
  return (Field.pack fields).take (min window data.length) ++ data.drop window

/-- An audio specific config up to the channel configuration fits into this
many bytes, with both the object type and the sample rate escaped. -/
def aacWindow : Nat := 6

/-- The bit offset of the channel configuration in an audio specific config. -/
def aacChannelOffset : Read Nat := do
  let objectType ← Read.bits 5
  let escapedType := if objectType = escapedObjectType then 6 else 0
  Read.skipBits escapedType
  let frequency ← Read.bits 4
  let escapedRate := if frequency = escapedFrequency then 24 else 0
  return 5 + escapedType + 4 + escapedRate

/-- A FLAC stream info up to the channels field fits into this many bytes. -/
def flacWindow : Nat := 13

/-- The bit offset of the channels field: block sizes, frame sizes and the
sample rate come before it. -/
def flacChannelOffset : Nat := 32 + 48 + 20

/-- The decoder configuration with its channel count set. -/
def decoderConfigFor (config : CodecConfig) (channels : UInt8) : Except Error Bytes :=
  match config.codec with
  | .opus => return config.decoderConfig.set 9 channels
  | .aac => setBits aacWindow aacChannelOffset 4 channels.toNat config.decoderConfig
  | .flac =>
    setBits flacWindow (pure flacChannelOffset) 3 (channels.toNat - 1) config.decoderConfig
  | .pcm _ | .unknown _ => return config.decoderConfig

end CodecConfig

end Iamf
