import Iamf.Codec.ChannelCount
import Iamf.Element.Kind
import Iamf.Layout.Channels
import Iamf.Parameter.Basic

/-!
# `Iamf.Element.Basic`: audio elements

An audio element is a group of substreams under one codec config that together
make up one piece of audio. Its layers share the substreams out: each takes the
next `substreamCount`, of which the first `coupledCount` are stereo and the
others mono.

Elements are plain data; `AudioElement.validate` says what a well formed one
is.
-/

set_option autoImplicit false

namespace Iamf

/-- How ambisonic components relate to substreams. -/
inductive AmbisonicsMode where
  /-- Each component is a mono substream, or silent. -/
  | mono
  /-- The components are mixed from the substreams by a matrix. -/
  | projection
  deriving DecidableEq, Repr

/-- The output gain of a layer. -/
structure OutputGain where
  /-- The output channels it applies to, six bits. -/
  flags : UInt8
  /-- The gain in dB. -/
  gain : Ratio
  deriving DecidableEq, Repr

/-- A layer of an audio element. -/
structure Layer where
  /-- The channels that the layer renders to. -/
  channelLayout : ChannelLayout
  /-- The four bit code of those channels; channel elements only. -/
  loudspeakerLayout : UInt8 := 0
  /-- The number of substreams of the layer. -/
  substreamCount : UInt8
  /-- How many of them are stereo; they come first. -/
  coupledCount : UInt8 := 0
  /-- Whether parameter blocks carry recon gain for the layer. -/
  hasReconGain : Bool := false
  /-- The output gain, if there is one. -/
  outputGain : Option OutputGain := none
  /-- How components relate to substreams; scenes only. -/
  ambisonicsMode : Option AmbisonicsMode := none
  /-- The matrix of a projection. -/
  demixingMatrix : List Ratio := []
  deriving DecidableEq, Repr

namespace Layer

/-- A channel layer with a layout from the table of scalable layouts; a code
without an entry leaves only the number of channels. -/
def scalable (loudspeakerLayout substreamCount coupledCount : UInt8) : Layer where
  channelLayout :=
    ChannelLayout.scalable[loudspeakerLayout.toNat]?.getD
      (.unspecified (substreamCount.toUInt16 + coupledCount.toUInt16))
  loudspeakerLayout
  substreamCount
  coupledCount

/-- A mono scene layer. `components` gives the component of each channel, 255
for a silent one. -/
def monoScene (components : List UInt8) (substreamCount : UInt8) : Layer where
  channelLayout := .ambisonicMap components
  substreamCount
  ambisonicsMode := some .mono

/-- For each substream of the layer, in order, whether it is stereo. -/
def stereoFlags (layer : Layer) : List Bool :=
  (List.range layer.substreamCount.toNat).map (· < layer.coupledCount.toNat)

end Layer

/-- A coded substream of an audio element. -/
structure Substream where
  /-- The id that audio frames carry. -/
  id : UInt32
  /-- The place among all substreams of the stream. -/
  streamIndex : Nat
  /-- The codec. -/
  codec : Codec
  /-- Samples per frame. -/
  frameSize : UInt32
  /-- Samples per second. -/
  sampleRate : UInt32
  /-- Samples to decode and drop after a seek. -/
  seekPreroll : Int16
  /-- The decoder configuration for this substream's channels. -/
  decoderConfig : Bytes
  /-- Mono or stereo, once a layer has taken the substream. -/
  channelLayout : ChannelLayout
  deriving DecidableEq, Repr

namespace Substream

/-- A substream under a codec config that no layer has taken. -/
def ofConfig (id : UInt32) (config : CodecConfig) : Substream where
  id
  streamIndex := 0
  codec := config.codec
  frameSize := config.frameSize
  sampleRate := config.sampleRate
  seekPreroll := config.seekPreroll
  decoderConfig := config.decoderConfig
  channelLayout := .unspecified 0

/-- The substream as a layer takes it, stereo or mono. -/
def assign (config : CodecConfig) (stereo : Bool) (substream : Substream) :
    Except Error Substream := do
  let decoderConfig ← config.decoderConfigFor (if stereo then 2 else 1)
  return { substream with
    channelLayout := if stereo then .stereo else .mono
    decoderConfig }

end Substream

/-- An audio element. -/
structure AudioElement where
  /-- Names the element in a stream. -/
  id : UInt32
  /-- Channels or a scene. -/
  kind : ElementKind
  /-- The codec config of all substreams. -/
  codecConfig : UInt32
  /-- The substreams, in order. -/
  substreams : List Substream
  /-- The layers, in order. -/
  layers : List Layer
  /-- The down-mixing parameter. -/
  demixing : Option Parameter
  /-- The recon gain parameter. -/
  reconGain : Option Parameter
  /-- Where the weights of down-mixing start, four bits. -/
  defaultWeight : UInt8
  deriving DecidableEq, Repr

namespace AudioElement

/-- Gives each substream the part that `stereo` has for it; substreams beyond
those parts stay as they are. -/
def assignEach (element : UInt32) (config : CodecConfig) :
    (stereo : List Bool) → List Substream → Except Error (List Substream)
  | [], substreams => return substreams
  | _ :: _, [] => throw (.invalidModel (.tooFewSubstreams element))
  | first :: stereo, substream :: substreams => do
    let assigned ← substream.assign config first
    let others ← assignEach element config stereo substreams
    return assigned :: others

/-- The element with its substreams shared out to its layers. -/
def assignSubstreams (element : AudioElement) (config : CodecConfig) :
    Except Error AudioElement := do
  let stereo := element.layers.flatMap Layer.stereoFlags
  let substreams ← assignEach element.id config stereo element.substreams
  return { element with substreams }

/-- The number of substreams that the layers take. -/
def layeredCount (layers : List Layer) : Nat :=
  layers.foldr (·.substreamCount.toNat + ·) 0

/-- A channel element has at most six layers, which take all substreams and
couple no more than they take. A scene has one layer and counts its substreams
in a byte. -/
def validate (element : AudioElement) : Except Error Unit := do
  match element.kind with
  | .channel => do
    ensure (element.layers.length ≤ maxLayers)
      (.invalidModel (.layerCount element.id element.layers.length))
    let layered := layeredCount element.layers
    ensure (layered = element.substreams.length)
      (.invalidModel (.layerSubstreams element.id layered element.substreams.length))
    match element.layers.find? fun layer => layer.substreamCount < layer.coupledCount with
    | some layer =>
      throw (.invalidModel (.coupling element.id layer.coupledCount layer.substreamCount))
    | none => return ()
  | .scene => do
    ensure (element.layers.length = 1)
      (.invalidModel (.sceneLayerCount element.id element.layers.length))
    ensure (element.substreams.length ≤ 255)
      (.invalidModel (.sceneSubstreamCount element.id))
  | .reserved _ => return ()

/-- The parameters that the element defines. -/
def parameters (element : AudioElement) : List Parameter :=
  element.demixing.toList ++ element.reconGain.toList

/-- The frame size of the first substream. -/
def frameSize? (element : AudioElement) : Option UInt32 :=
  element.substreams.head?.map (·.frameSize)

/-- The element with its substreams numbered from `first` on. -/
def numberFrom (element : AudioElement) (first : Nat) : AudioElement :=
  { element with
    substreams := element.substreams.zipIdx.map fun (substream, place) =>
      { substream with streamIndex := first + place } }

/-- The element with its parameters linked to it. -/
def linkParameters (element : AudioElement) : AudioElement :=
  { element with
    demixing := element.demixing.map fun parameter =>
      { parameter with element := some element.id }
    reconGain := element.reconGain.map fun parameter =>
      { parameter with element := some element.id } }

/-- The layers that carry recon gain, as far as a table of recon gains goes. -/
def reconGainLayers (element : AudioElement) : List Nat :=
  ((element.layers.zipIdx.take maxLayers).filter (·.1.hasReconGain)).map (·.2)

end AudioElement

end Iamf
