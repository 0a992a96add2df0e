import Iamf.Element.Kind
import Iamf.Obu.Kind
import Iamf.Parameter.Kind
import Iamf.Text.Quoted

/-!
# `Iamf.Error`: what can go wrong

One type holds every failure of reading, writing and registering, by cause;
the wording is in `Error.message` and the functions it calls. Failures of
three families are told apart by `Error.isInvalidData`: input that is malformed
is invalid data; a model that breaks a rule of the format, a codec that cannot
be written and a failing source or sink are not.
-/

set_option autoImplicit false

namespace Iamf

/-- The things that ids name. -/
inductive Entity where
  /-- A codec config. -/
  | codecConfig
  /-- An audio element. -/
  | audioElement
  /-- A mix presentation. -/
  | mixPresentation
  /-- A substream of an audio element. -/
  | substream
  deriving DecidableEq, Repr

/-- The name of an entity in messages. -/
def Entity.label : Entity → String
  | codecConfig => "codec config"
  | audioElement => "audio element"
  | mixPresentation => "mix presentation"
  | substream => "substream"

/-- What two definitions of one parameter must agree on. -/
inductive ParameterTrait where
  /-- The kind of parameter. -/
  | kind
  /-- Whether the definition carries the timeline. -/
  | timing
  /-- How many subblocks the timeline has. -/
  | subblockCount
  deriving DecidableEq, Repr

/-- The name of a trait in messages. -/
def ParameterTrait.label : ParameterTrait → String
  | kind => "param_definition_type"
  | timing => "param_definition_mode"
  | subblockCount => "num_subblocks"

/-- Ways in which an OBU contradicts itself. -/
inductive Malformation where
  /-- The header fields alone are longer than the size that covers them. -/
  | headerExceedsSize (fieldBytes size : Nat)
  /-- An AAC config does not start with a decoder config descriptor. -/
  | noDecoderConfigDescriptor
  /-- An AAC config lacks the decoder specific descriptor. -/
  | noDecoderSpecificInfo
  /-- A PCM config goes on after its last field. -/
  | trailingPcmBytes (count : Nat)
  /-- An element that is not channel based lists parameters. -/
  | parametersOnElement (count : UInt32) (kind : ElementKind) (element : UInt32)
  /-- An element lists a mix gain parameter. -/
  | mixGainInElement (element : UInt32)
  /-- The layers need more substreams than there are. -/
  | tooManyLayered (used present : Nat)
  /-- The layers leave substreams over. -/
  | unusedSubstreams (count : Nat)
  /-- A scene counts its substreams differently from its element. -/
  | sceneSubstreamCount (stated : UInt8) (present : Nat)
  /-- A recon gain parameter that belongs to no element. -/
  | reconGainWithoutElement (parameter : UInt32)
  deriving DecidableEq, Repr

/-- The wording of a malformation. -/
def Malformation.message : Malformation → String
  | headerExceedsSize fieldBytes size =>
    s!"OBU header fields ({fieldBytes} bytes) exceed obu_size {size}"
  | noDecoderConfigDescriptor => "expected DecoderConfigDescriptor tag"
  | noDecoderSpecificInfo => "expected DecoderSpecificInfo tag"
  | trailingPcmBytes count => s!"{count} trailing bytes after LPCM decoder config"
  | parametersOnElement count kind element =>
    s!"{count} parameters on {kind.label} audio element {element}"
  | mixGainInElement element => s!"mix gain parameter in audio element {element}"
  | tooManyLayered used present =>
    s!"layers use {used} substreams, audio element has {present}"
  | unusedSubstreams count => s!"{count} substreams not used by any layer"
  | sceneSubstreamCount stated present =>
    s!"ambisonics substream_count {stated} but audio element has {present}"
  | reconGainWithoutElement parameter =>
    s!"recon gain parameter {parameter} without audio element"

/-- Rules of the format that a model handed in for writing can break. -/
inductive ModelFault where
  /-- The subblocks do not match the timeline's own count. -/
  | subblockCount (parameter : UInt32) (present : Nat) (implied : UInt32)
  /-- A subblock of another kind than its parameter. -/
  | subblockKind (subblock kind : ParameterKind) (parameter : UInt32)
  /-- Block values of another kind or timing than the definition. -/
  | blockMismatch (parameter : UInt32)
  /-- Block values with another number of subblocks than the definition. -/
  | blockSubblockCount (parameter : UInt32) (present defined : Nat)
  /-- The layers need more substreams than the element has. -/
  | tooFewSubstreams (element : UInt32)
  /-- More layers than the format can hold. -/
  | layerCount (element : UInt32) (count : Nat)
  /-- The layers do not share out the substreams. -/
  | layerSubstreams (element : UInt32) (layered present : Nat)
  /-- A layer couples more substreams than it has. -/
  | coupling (element : UInt32) (coupled count : UInt8)
  /-- A scene must have exactly one layer. -/
  | sceneLayerCount (element : UInt32) (count : Nat)
  /-- A scene counts its substreams in one byte. -/
  | sceneSubstreamCount (element : UInt32)
  /-- A scene counts its channels in one byte. -/
  | sceneChannelCount (count : Nat)
  /-- A mono scene without a map from channels to substreams. -/
  | noChannelMap
  /-- A loudspeaker layout that names no sound system. -/
  | noSoundSystem
  /-- A parameter of another kind where a mix gain belongs. -/
  | notMixGain (kind : ParameterKind) (parameter : UInt32)
  /-- A text that is too long, or holds a NUL. -/
  | badText (text : String)
  /-- A packet before the descriptors. -/
  | packetBeforeHeader
  /-- A packet for a stream that no substream has. -/
  | unknownStream (index : Nat)
  /-- Values of a parameter that is not defined. -/
  | undefinedParameter (parameter : UInt32)
  deriving DecidableEq, Repr

/-- The wording of a model fault. -/
def ModelFault.message : ModelFault → String
  | subblockCount parameter present implied =>
    s!"parameter {parameter} has {present} subblocks, timeline implies {implied}"
  | subblockKind subblock kind parameter =>
    s!"{subblock.label} subblock in {kind.label} parameter {parameter}"
  | blockMismatch parameter =>
    s!"parameter block {parameter} does not match its definition"
  | blockSubblockCount parameter present defined =>
    s!"parameter block {parameter} has {present} subblocks, definition has {defined}"
  | tooFewSubstreams element =>
    s!"audio element {element} has too few substreams for its layers"
  | layerCount element count => s!"audio element {element} has {count} layers"
  | layerSubstreams element layered present =>
    s!"audio element {element} layers hold {layered} substreams, element has {present}"
  | coupling element coupled count =>
    s!"audio element {element} layer couples {coupled} of {count} substreams"
  | sceneLayerCount element count => s!"scene audio element {element} has {count} layers"
  | sceneSubstreamCount element => s!"scene audio element {element} has too many substreams"
  | sceneChannelCount count => s!"{count} ambisonic channels"
  | noChannelMap => "mono ambisonics layer needs an ambisonic channel map"
  | noSoundSystem => "loudspeaker layout without sound system"
  | notMixGain kind parameter => s!"{kind.label} parameter {parameter} used as mix gain"
  | badText text => "bad string: " ++ Text.quote text
  | packetBeforeHeader => "packet written before the header"
  | unknownStream index => s!"packet for unknown stream {index}"
  | undefinedParameter parameter => s!"undefined parameter {parameter}"

/-- Failures of reading, writing and registering. -/
inductive Error where
  /-- A variable length number with bits beyond the 32nd. -/
  | leb128Overflow
  /-- A variable length number that does not end within eight bytes. -/
  | leb128TooLong
  /-- The input ends inside the named structure. -/
  | truncated (subject : String)
  /-- A sequence header that does not start with the magic. -/
  | badMagic (found : List UInt8)
  /-- An id that must be unique came twice. -/
  | duplicateId (entity : Entity) (id : UInt32)
  /-- An id that names nothing. -/
  | unknownReference (entity : Entity) (id : UInt32)
  /-- A parameter was defined again in another shape. -/
  | inconsistentParameter (parameter : UInt32) (trait : ParameterTrait)
  /-- A field holds a value that the format does not allow. -/
  | outOfRange (field : String) (value : Nat)
  /-- Bytes are left over at the end of an OBU. -/
  | underread (kind : Obu.Kind) (remaining : Nat)
  /-- An OBU contradicts itself. -/
  | invalidData (cause : Malformation)
  /-- The source or the sink failed. -/
  | io (text : String)
  /-- Only codecs that are known can be written. -/
  | unknownCodec
  /-- A model breaks a rule of the format. -/
  | invalidModel (fault : ModelFault)
  deriving DecidableEq, Repr

namespace Error

/-- A byte as two lower case hex digits. -/
def hexByte (byte : UInt8) : String :=
  String.ofList (Nat.toDigits 16 (256 + byte.toNat)).tail

/-- The wording of a failure. -/
def message : Error → String
  | leb128Overflow => "leb128 value overflows 32 bits"
  | leb128TooLong => "leb128 value longer than 8 bytes"
  | truncated subject => s!"truncated input while reading {subject}"
  | badMagic found =>
    "bad sequence header magic: [" ++ ", ".intercalate (found.map hexByte) ++ "]"
  | duplicateId entity id => s!"duplicate {entity.label} id {id}"
  | unknownReference entity id => s!"unknown {entity.label} id {id}"
  | inconsistentParameter parameter trait =>
    s!"inconsistent parameter definition {parameter}: {trait.label}"
  | outOfRange field value => s!"{field} out of range: {value}"
  | underread kind remaining => s!"{remaining} bytes left unread in {kind.label} OBU"
  | invalidData cause => "invalid data: " ++ cause.message
  | io text => text
  | unknownCodec => "unsupported: unknown codec"
  | invalidModel fault => "invalid model: " ++ fault.message

/-- Whether the failure lies in malformed input. -/
def isInvalidData : Error → Bool
  | io _ | unknownCodec | invalidModel _ => false
  | _ => true

end Error

/-- Fails with `error` unless the condition holds. -/
def ensure {m : Type → Type} [Monad m] [MonadExceptOf Error m] (condition : Prop)
    [Decidable condition] (error : Error) : m Unit :=
  if condition then pure () else throw error

end Iamf
