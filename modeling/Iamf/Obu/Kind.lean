/-!
# `Iamf.Obu.Kind`: the kinds of OBU

A stream is a sequence of OBUs (open bitstream units). The five bit code in the
first header byte tells what one carries (`Kind.ofCode`). Audio frames of the
first eighteen substreams need no id in the body: codes 6 to 23 imply it.

* `Kind.code_ofCode`: writing the kind of a five bit code gives the code back.
-/

set_option autoImplicit false

namespace Iamf.Obu

/-- Highest substream id that an audio frame can imply by its code. -/
def maxImpliedSubstream : UInt32 := 17

/-- What an OBU carries. -/
inductive Kind where
  /-- A codec config. -/
  | codecConfig
  /-- An audio element. -/
  | audioElement
  /-- A mix presentation. -/
  | mixPresentation
  /-- Values of a parameter. -/
  | parameterBlock
  /-- The start of a temporal unit. -/
  | temporalDelimiter
  /-- A coded frame, its substream id in front of it. -/
  | audioFrame
  /-- A coded frame of the substream that the code implies. -/
  | impliedFrame (substream : UInt8)
  /-- A code without a meaning yet. -/
  | reserved (code : UInt8)
  /-- The start of a sequence. -/
  | sequenceHeader
  deriving DecidableEq, Repr

namespace Kind

/-- The kind with a given code. -/
def ofCode (code : UInt8) : Kind :=
  if code = 0 then codecConfig
  else if code = 1 then audioElement
  else if code = 2 then mixPresentation
  else if code = 3 then parameterBlock
  else if code = 4 then temporalDelimiter
  else if code = 5 then audioFrame
  else if code ≤ 23 then impliedFrame (code - 6)
  else if code = 31 then sequenceHeader
  else reserved code

/-- The code of a kind. -/
def code : Kind → UInt8
  | codecConfig => 0
  | audioElement => 1
  | mixPresentation => 2
  | parameterBlock => 3
  | temporalDelimiter => 4
  | audioFrame => 5
  | impliedFrame substream => 6 + substream
  | reserved code => code
  | sequenceHeader => 31

/-- The kind of audio frame that carries a substream. -/
def ofSubstream (substream : UInt32) : Kind :=
  if substream ≤ maxImpliedSubstream then impliedFrame substream.toUInt8 else audioFrame

/-- Whether an OBU of this kind carries a coded frame. -/
def isAudioFrame : Kind → Bool
  | audioFrame | impliedFrame _ => true
  | _ => false

/-- Codec configs, audio elements and mix presentations. -/
def isDescriptor : Kind → Bool
  | codecConfig | audioElement | mixPresentation => true
  | _ => false

/-- The name of a kind in messages. -/
def label : Kind → String
  | codecConfig => "CodecConfig"
  | audioElement => "AudioElement"
  | mixPresentation => "MixPresentation"
  | parameterBlock => "ParameterBlock"
  | temporalDelimiter => "TemporalDelimiter"
  | audioFrame => "AudioFrame"
  | impliedFrame substream => s!"AudioFrameId({substream})"
  | reserved code => s!"Reserved({code})"
  | sequenceHeader => "SequenceHeader"

/-- A code survives being read as a kind. -/
theorem code_ofCode (c : UInt8) : (ofCode c).code = c := by
  have himplied : 6 + (c - 6) = c := by rw [UInt8.add_comm, UInt8.sub_add_cancel]
  simp only [ofCode]
  repeat' split
  all_goals simp_all [code]

end Kind

end Iamf.Obu
