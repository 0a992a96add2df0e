import Iamf.Parameter.Definition
import Iamf.Registry.Basic

/-!
# `Iamf.Element.Wire`: reading and writing audio elements

An audio element body lists the substream ids and the parameters, and then
either the scalable layers or the ambisonics config. Elements of a codec that is
not supported are passed over. The parameters of an element are linked to it.
-/

set_option autoImplicit false

namespace Iamf

/-- Reads the output gain of a layer. -/
def OutputGain.read : Read OutputGain := do
  -- Six bits of flags, two reserved.
  let flags ← Read.byte
  let gain ← Ratio.read
  return { flags := flags >>> 2, gain }

/-- The bytes of an output gain. -/
def OutputGain.encode (output : OutputGain) : Bytes :=
  output.flags <<< 2 :: output.gain.encode

namespace Layer

/-- Reads a scalable layer. -/
def read : Read Layer := do
  -- Four bits of layout, whether there are output and recon gain, two reserved.
  let head ← Read.byte
  let substreamCount ← Read.byte
  let coupledCount ← Read.byte
  let outputGain ←
    if head.toNat.testBit 3 then some <$> OutputGain.read else pure none
  return { scalable (head >>> 4) substreamCount coupledCount with
    hasReconGain := head.toNat.testBit 2
    outputGain }

/-- The bytes of a scalable layer. -/
def encode (layer : Layer) : Bytes :=
  [layer.loudspeakerLayout <<< 4 ||| (if layer.outputGain.isSome then 8 else 0)
      ||| (if layer.hasReconGain then 4 else 0),
    layer.substreamCount, layer.coupledCount]
    ++ match layer.outputGain with
      | some output => output.encode
      | none => []

end Layer

namespace AudioElement

/-- Reads the layers of a channel element, which must take all substreams. -/
def readScalable (substreamCount : Nat) : Read (List Layer) := do
  -- Three bits of layer count, five reserved.
  let head ← Read.byte
  let count := (head >>> 5).toNat
  ensure (count ≤ maxLayers) (.outOfRange "num_layers" count)
  let layers ← Read.times count Layer.read
  let used := layeredCount layers
  ensure (used ≤ substreamCount) (.invalidData (.tooManyLayered used substreamCount))
  ensure (substreamCount ≤ used) (.invalidData (.unusedSubstreams (substreamCount - used)))
  return layers

/-- Whether a number of channels is that of a full ambisonic order, a square. -/
def isFullOrder (channels : UInt8) : Bool :=
  (List.range 16).any fun order => (order + 1) * (order + 1) = channels.toNat

/-- Reads the layer of a scene; an unknown mode leaves the element without one. -/
def readAmbisonics (substreamCount : Nat) : Read (List Layer) := do
  let mode ← Leb128.read
  if 1 < mode then return []
  else do
    let channels ← Read.byte
    let count ← Read.byte
    ensure (count.toNat = substreamCount)
      (.invalidData (.sceneSubstreamCount count substreamCount))
    ensure (isFullOrder channels) (.outOfRange "output_channel_count" channels.toNat)
    if mode = 0 then do
      let components ← Read.bytes channels.toNat
      return [.monoScene components count]
    else do
      let coupledCount ← Read.byte
      let matrix ← Read.times ((count.toNat + coupledCount.toNat) * channels.toNat) Ratio.read
      return [{
        channelLayout := .ambisonic channels.toUInt16
        substreamCount := count
        coupledCount
        ambisonicsMode := some .projection
        demixingMatrix := matrix }]

/-- Passes over a config that is not understood. -/
def skipConfig : Read Unit := do
  let size ← Leb128.read
  Read.skipBytes size.toNat

/-- The parameters of an element as far as they have been read. -/
structure ParameterList where
  /-- The down-mixing parameter. -/
  demixing : Option Parameter := none
  /-- The recon gain parameter. -/
  reconGain : Option Parameter := none
  /-- Where the weights of down-mixing start. -/
  defaultWeight : UInt8 := 0
  /-- The definitions known so far. -/
  scope : Scope
  deriving DecidableEq, Repr

/-- Reads one parameter of an element. A later one of the same kind takes the
place of an earlier one; unknown kinds are passed over. -/
def readParameter (mode : ReadMode) (element : UInt32) (site : Site)
    (parameters : ParameterList) : Read ParameterList := do
  let code ← Leb128.read
  match ParameterKind.ofCode? code with
  | some .mixGain => throw (.invalidData (.mixGainInElement element))
  | some .demixing => do
    let (definition, scope) ←
      Parameter.readDefinition mode .demixing site parameters.scope
    -- Four bits of weight, four reserved.
    let weight ← Read.byte
    return { parameters with
      demixing := some definition, defaultWeight := weight >>> 4, scope }
  | some .reconGain => do
    let (definition, scope) ←
      Parameter.readDefinition mode .reconGain site parameters.scope
    return { parameters with reconGain := some definition, scope }
  | none => do
    skipConfig
    return parameters

/-- Reads a substream id. -/
def readSubstream (config : CodecConfig) : Read Substream := do
  let id ← Leb128.read
  return .ofConfig id config

/-- Reads the rest of an element after its codec config. Gives the element,
whose substreams are numbered but not shared out, and the definitions it
brought. -/
def readContents (mode : ReadMode) (registry : Registry) (id : UInt32) (kind : ElementKind)
    (config : CodecConfig) : Read (AudioElement × List Parameter) := do
  let count ← Leb128.read
  mode.checkCount count.toNat "audio substream ids"
  let substreams ← Read.times count.toNat (readSubstream config)
  let parameterCount ← Leb128.read
  ensure (parameterCount = 0 ∨ kind = .channel)
    (.invalidData (.parametersOnElement parameterCount kind id))
  let site := { element := some id, frameSize := substreams.head?.map (·.frameSize) }
  let parameters ← Read.iterate (readParameter mode id site) parameterCount.toNat
    { scope := { known := registry.parameters } }
  let layers ← match kind with
    | .channel => readScalable substreams.length
    | .scene => readAmbisonics substreams.length
    | .reserved _ => do
      skipConfig
      pure []
  Read.finish .audioElement mode.strict
  let element : AudioElement := {
    id, kind
    codecConfig := config.id
    substreams, layers
    demixing := parameters.demixing
    reconGain := parameters.reconGain
    defaultWeight := parameters.defaultWeight }
  return (element.numberFrom registry.streamCount, parameters.scope.pending)

/-- Reads an audio element body against the descriptors before it. Gives the
element and the definitions it brought, or nothing if its codec is not
supported. -/
def read (mode : ReadMode) (registry : Registry) :
    Read (Option (AudioElement × List Parameter)) := do
  let id ← Leb128.read
  ensure (registry.audioElement? id = none) (.duplicateId .audioElement id)
  -- Three bits of kind, five reserved.
  let head ← Read.byte
  let kind := ElementKind.ofCode (head >>> 5)
  let configId ← Leb128.read
  let some config := registry.codecConfig? configId
    | throw (.unknownReference .codecConfig configId)
  match config.codec with
  | .unknown _ => return none
  | _ => do
    let (element, parameters) ← readContents mode registry id kind config
    let element ← liftExcept (element.assignSubstreams config)
    return some (element, parameters)

/-- The audio element of an OBU body. -/
def parse (mode : ReadMode) (registry : Registry) (body : Bytes) :
    Except Error (Option (AudioElement × List Parameter)) :=
  (read mode registry).parse "audio element" body

/-- The bytes of the parameters of an element. -/
def encodeParameters (element : AudioElement) : Except Error Bytes := do
  let demixing ← match element.demixing with
    | some parameter => do
      let definition ← parameter.encodeDefinition
      pure (Leb128.encode ParameterKind.demixing.code ++ definition
        ++ [element.defaultWeight <<< 4])
    | none => pure []
  let reconGain ← match element.reconGain with
    | some parameter => do
      let definition ← parameter.encodeDefinition
      pure (Leb128.encode ParameterKind.reconGain.code ++ definition)
    | none => pure []
  return Leb128.encode (UInt32.ofNat element.parameters.length) ++ demixing ++ reconGain

/-- The bytes of the layers of a channel element. -/
def encodeScalable (layers : List Layer) : Bytes :=
  UInt8.ofNat layers.length <<< 5 :: layers.flatMap Layer.encode

/-- The bytes of the layer of a scene. -/
def encodeAmbisonics (substreamCount : Nat) (layer : Layer) : Except Error Bytes := do
  let channels := layer.channelLayout.channelCount
  ensure (channels ≤ 255) (.invalidModel (.sceneChannelCount channels))
  let counts := [UInt8.ofNat channels, UInt8.ofNat substreamCount]
  match layer.ambisonicsMode with
  | some .projection =>
    return Leb128.encode 1 ++ counts ++ [layer.coupledCount]
      ++ layer.demixingMatrix.flatMap Ratio.encode
  | _ =>
    match layer.channelLayout.ambisonicChannels? with
    | some components => return Leb128.encode 0 ++ counts ++ components
    | none => throw (.invalidModel .noChannelMap)

/-- The bytes of the layers of an element. -/
def encodeLayers (element : AudioElement) : Except Error Bytes :=
  match element.kind, element.layers with
  | .channel, layers => return encodeScalable layers
  | .scene, layer :: _ => encodeAmbisonics element.substreams.length layer
  | .scene, [] => throw (.invalidModel (.sceneLayerCount element.id 0))
  -- An empty config.
  | .reserved _, _ => return Leb128.encode 0

/-- The OBU body of an audio element. -/
def encode (element : AudioElement) : Except Error Bytes := do
  element.validate
  let parameters ← element.encodeParameters
  let layers ← element.encodeLayers
  return Leb128.encode element.id ++ [element.kind.code <<< 5]
    ++ Leb128.encode element.codecConfig
    ++ Leb128.encode (UInt32.ofNat element.substreams.length)
    ++ element.substreams.flatMap (fun substream => Leb128.encode substream.id)
    ++ parameters ++ layers

end AudioElement

end Iamf
