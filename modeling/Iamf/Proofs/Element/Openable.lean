import Iamf.Proofs.Codec.ChannelCount
import Iamf.Proofs.Element.Written
import Iamf.Proofs.Parameter.Sent

/-!
# `Iamf.Proofs.Element.Openable`: audio elements that were not read from anywhere

`AudioElement.validate` holds the layers of an element against its substreams,
and that is all that a writer asks. A reader asks for more:
`AudioElement.IsOpenable`. What it then makes of an element need not be that
element. Gains are rounded, layouts come from a table, the channels of a scene
from its map, and whatever does not fit into its bits is cut off. But the ids
are the same, and so are the shapes of the parameters.

* `AudioElement.consumes_layers`: the layers of an openable element.
* `AudioElement.exists_consumes_parameters`: its parameters.
* `AudioElement.exists_parse_encode`: an openable element that was written is
  read.
-/

set_option autoImplicit false

namespace Iamf

open Parameter (Consistent Reflect)
open Read (Consumes Exhausts Takes)

/-! ### Scalable layers -/

/-- An output gain as it is read back. -/
def OutputGain.received (output : OutputGain) : OutputGain where
  flags := output.flags <<< 2 >>> 2
  gain := output.gain.nearest

theorem OutputGain.isReadable_received (output : OutputGain) : output.received.IsReadable :=
  ⟨Read.toNat_shiftRight_lt _ (by decide), output.gain.isQ8_nearest⟩

theorem OutputGain.encode_received (output : OutputGain) :
    output.received.encode = output.encode := by
  simp only [encode, received, Ratio.encode_nearest,
    Read.shiftLeft_shiftRight_shiftLeft output.flags 2 (by decide)]

namespace Layer

/-- A layer of a channel element as it is read back. -/
def received (layer : Layer) : Layer :=
  { scalable (layer.loudspeakerLayout <<< 4 >>> 4) layer.substreamCount layer.coupledCount with
    hasReconGain := layer.hasReconGain
    outputGain := layer.outputGain.map (·.received) }

theorem isScalable_received (layer : Layer) : layer.received.IsScalable where
  shape := rfl
  layout := Read.toNat_shiftRight_lt _ (by decide)
  gain := by
    intro output houtput
    obtain ⟨source, -, rfl⟩ := Option.map_eq_some_iff.1 houtput
    exact source.isReadable_received

theorem encode_received (layer : Layer) : layer.received.encode = layer.encode := by
  have hlayout := Read.shiftLeft_shiftRight_shiftLeft layer.loudspeakerLayout 4 (by decide)
  cases hgain : layer.outputGain with
  | none => simp [encode, received, scalable, hgain, hlayout]
  | some output => simp [encode, received, scalable, hgain, hlayout, output.encode_received]

/-- The layer of a scene that a reader takes: it has as many channels as a full
ambisonic order, and where there is a matrix it is large enough. -/
structure IsOpenableScene (substreamCount : Nat) (layer : Layer) : Prop where
  order : AudioElement.isFullOrder (UInt8.ofNat layer.channelLayout.channelCount) = true
  matrix : layer.ambisonicsMode = some .projection →
    (substreamCount + layer.coupledCount.toNat) * layer.channelLayout.channelCount
      ≤ layer.demixingMatrix.length

end Layer

namespace AudioElement

theorem layeredCount_map_received (layers : List Layer) :
    layeredCount (layers.map (·.received)) = layeredCount layers := by
  simp only [layeredCount, List.foldr_map]
  rfl

/-- There is a part for every substream that the layers take. -/
theorem length_flatMap_stereoFlags (layers : List Layer) :
    (layers.flatMap Layer.stereoFlags).length = layeredCount layers := by
  induction layers with
  | nil => rfl
  | cons layer layers ih =>
    rw [List.flatMap_cons, List.length_append, ih]
    simp only [Layer.stereoFlags, List.length_map, List.length_range, layeredCount,
      List.foldr_cons]

/-! ### Scenes -/

/-- The bytes of a projection. -/
theorem encodeAmbisonics_of_projection {substreamCount : Nat} {layer : Layer}
    (hmode : layer.ambisonicsMode = some .projection)
    (hchannels : layer.channelLayout.channelCount ≤ 255) :
    encodeAmbisonics substreamCount layer = .ok (Leb128.encode 1
      ++ [UInt8.ofNat layer.channelLayout.channelCount, UInt8.ofNat substreamCount]
      ++ [layer.coupledCount] ++ layer.demixingMatrix.flatMap Ratio.encode) := by
  rw [encodeAmbisonics, ensure_of hchannels, hmode]
  rfl

/-- The bytes of a layer that is not a projection. -/
theorem encodeAmbisonics_of_components {substreamCount : Nat} {layer : Layer}
    {components : List UInt8} (hmode : layer.ambisonicsMode ≠ some .projection)
    (hchannels : layer.channelLayout.channelCount ≤ 255)
    (hcomponents : layer.channelLayout.ambisonicChannels? = some components) :
    encodeAmbisonics substreamCount layer = .ok (Leb128.encode 0
      ++ [UInt8.ofNat layer.channelLayout.channelCount, UInt8.ofNat substreamCount]
      ++ components) := by
  rw [encodeAmbisonics, ensure_of hchannels, hcomponents]
  cases hlayer : layer.ambisonicsMode with
  | none => rfl
  | some mode =>
    cases mode with
    | mono => rfl
    | projection => exact absurd hlayer hmode

/-- What was tested when a layer was written. -/
theorem encodeAmbisonics_eq_ok {substreamCount : Nat} {layer : Layer} {bytes : Bytes}
    (h : encodeAmbisonics substreamCount layer = .ok bytes) :
    layer.channelLayout.channelCount ≤ 255
      ∧ (layer.ambisonicsMode ≠ some .projection →
        (layer.channelLayout.ambisonicChannels?).isSome) := by
  rw [encodeAmbisonics, outcome_bind_eq_ok] at h
  obtain ⟨_, hchannels, h⟩ := h
  refine ⟨outcome_ensure_eq_ok.1 hchannels, fun hmode => ?_⟩
  split at h
  · exact absurd ‹_› hmode
  · cases hcomponents : layer.channelLayout.ambisonicChannels? with
    | some components => rfl
    | none =>
      rw [hcomponents] at h
      cases h

/-- The layer of a scene is read from a part of its bytes; what a matrix has more
than it needs comes behind that. -/
theorem exists_consumes_scene {substreamCount : Nat} {layer : Layer} {bytes : Bytes}
    (hcount : substreamCount ≤ 255) (h : layer.IsOpenableScene substreamCount)
    (hencode : encodeAmbisonics substreamCount layer = .ok bytes) :
    ∃ read front rest, bytes = front ++ rest
      ∧ Consumes (readAmbisonics substreamCount) front [read]
      ∧ read.substreamCount.toNat = substreamCount := by
  obtain ⟨hchannels, hmono⟩ := encodeAmbisonics_eq_ok hencode
  have hbyte : (UInt8.ofNat substreamCount).toNat = substreamCount := by
    rw [Read.toNat_ofNat_byte]
    omega
  have hchannelByte : (UInt8.ofNat layer.channelLayout.channelCount).toNat
      = layer.channelLayout.channelCount := by
    rw [Read.toNat_ofNat_byte]
    omega
  by_cases hmode : layer.ambisonicsMode = some .projection
  · cases hencode.symm.trans (encodeAmbisonics_of_projection hmode hchannels)
    -- The reader takes as many coefficients as the counts ask for and leaves the others.
    let needed := (substreamCount + layer.coupledCount.toNat) * layer.channelLayout.channelCount
    let read : Layer := {
      channelLayout := .ambisonic (UInt8.ofNat layer.channelLayout.channelCount).toUInt16
      substreamCount := UInt8.ofNat substreamCount
      coupledCount := layer.coupledCount
      ambisonicsMode := some .projection
      demixingMatrix := (layer.demixingMatrix.take needed).map (·.nearest) }
    have hsame : read.channelLayout.channelCount = layer.channelLayout.channelCount := by
      simp only [read, ChannelLayout.channelCount, UInt8.toNat_toUInt16]
      exact hchannelByte
    have hscene : read.IsScene substreamCount := by
      refine .projection hbyte h.order ?_ fun gain hgain => ?_
      · rw [List.length_map, List.length_take, hbyte, hchannelByte]
        exact Nat.min_eq_left (h.matrix hmode)
      · obtain ⟨source, -, rfl⟩ := List.mem_map.1 hgain
        exact source.isQ8_nearest
    have hread := consumes_encodeAmbisonics hscene
      (encodeAmbisonics_of_projection rfl (hsame ▸ hchannels))
    refine ⟨read, _, (layer.demixingMatrix.drop needed).flatMap Ratio.encode, ?_, hread, hbyte⟩
    rw [hsame, List.append_assoc _ (read.demixingMatrix.flatMap Ratio.encode)]
    simp only [read, List.flatMap_map, Ratio.encode_nearest, ← List.flatMap_append,
      List.take_append_drop]
  · obtain ⟨components, hcomponents⟩ := Option.isSome_iff_exists.1 (hmono hmode)
    cases hencode.symm.trans (encodeAmbisonics_of_components hmode hchannels hcomponents)
    have hlength := ChannelLayout.length_ambisonicChannels? hcomponents
    let read := Layer.monoScene components (UInt8.ofNat substreamCount)
    have hsame : read.channelLayout.channelCount = layer.channelLayout.channelCount :=
      (List.length_map _).trans hlength
    have hscene : read.IsScene substreamCount := .mono hbyte (by omega) (hlength ▸ h.order)
    have hread := consumes_encodeAmbisonics hscene
      (encodeAmbisonics_of_components (fun hmode => by cases hmode) (hsame ▸ hchannels)
        (ChannelLayout.ambisonicChannels?_ambisonicMap components))
    exact ⟨read, _, [], by rw [List.append_nil, hsame], hread, hbyte⟩

/-! ### Layers of any kind -/

/-- An element that a writer takes and a reader does too. -/
structure IsOpenable (element : AudioElement) : Prop where
  code : element.kind.code.toNat < 8 ∧ ElementKind.ofCode element.kind.code = element.kind
  channel : element.parameters ≠ [] → element.kind = .channel
  demixing : ∀ definition ∈ element.demixing, definition.kind = .demixing
  reconGain : ∀ definition ∈ element.reconGain, definition.kind = .reconGain
  timed : ∀ definition ∈ element.parameters, definition.IsOpenable
  scene : element.kind = .scene → ∀ layer ∈ element.layers,
    layer.IsOpenableScene element.substreams.length

variable {element : AudioElement}

/-- The layers of an openable element are read from a part of their bytes, and take
no more substreams than there are. -/
theorem exists_consumes_layers {bytes : Bytes} (h : element.IsOpenable)
    (hvalid : element.validate = .ok ()) (hencode : element.encodeLayers = .ok bytes) :
    ∃ layers front rest, bytes = front ++ rest
      ∧ Consumes (readLayers element.kind element.substreams.length) front layers
      ∧ layeredCount layers ≤ element.substreams.length := by
  obtain ⟨hchannel, hscene⟩ := validate_eq_ok hvalid
  rw [encodeLayers] at hencode
  cases hkind : element.kind with
  | channel =>
    simp only [hkind, outcome_pure_eq_ok] at hencode
    obtain ⟨hlength, hlayered⟩ := hchannel hkind
    have hreceived := (layeredCount_map_received element.layers).trans hlayered
    have hread := consumes_encodeScalable ((List.length_map _).symm ▸ hlength) hreceived
      fun layer hmem => by
        obtain ⟨source, -, rfl⟩ := List.mem_map.1 hmem
        exact source.isScalable_received
    refine ⟨_, _, [], ?_, hread, Nat.le_of_eq hreceived⟩
    rw [List.append_nil, ← hencode]
    simp only [encodeScalable, List.length_map, List.flatMap_map, Layer.encode_received]
  | scene =>
    obtain ⟨hlength, hcount⟩ := hscene hkind
    obtain ⟨layer, hlayer⟩ := List.length_eq_one_iff.1 hlength
    simp only [hkind, hlayer] at hencode
    have hlayerOpenable := h.scene hkind layer (hlayer ▸ List.mem_singleton_self layer)
    obtain ⟨read, front, rest, hbytes, hread, htaken⟩ :=
      exists_consumes_scene hcount hlayerOpenable hencode
    refine ⟨[read], front, rest, hbytes, hread, Nat.le_of_eq ?_⟩
    rw [← htaken]
    rfl
  | reserved code =>
    simp only [hkind, outcome_pure_eq_ok] at hencode
    exact ⟨[], _, [], by rw [List.append_nil, hencode], consumes_skipConfig.bind_pure fun _ => [],
      Nat.zero_le _⟩

/-! ### Parameters -/

section

variable {sources : List Parameter} {bytes : Bytes}

/-- A listed definition is read behind other definitions, if there is one. Its kind
says what reads it and what else comes off the bytes, but that it is stored is
all that matters to those behind it. -/
theorem exists_consumes_listed (mode : ReadMode) (id : UInt32) (site : Site)
    {list : ParameterList} {kind : ParameterKind} {slot : Option Parameter} {tail : Bytes}
    (hconsistent : Consistent sources) (hscope : list.scope.Reflects sources)
    (h : ∀ definition ∈ slot, definition ∈ sources ∧ definition.kind = kind
      ∧ definition.IsOpenable)
    (hone : ∀ definition : Parameter, definition.kind = kind →
      list.scope.Allows site definition → ∀ written,
      encodeListed kind (some definition) tail = .ok written → ∃ read,
        Consumes (readParameter mode id site list) written read
          ∧ read.scope = list.scope.store definition)
    (hencode : encodeListed kind slot tail = .ok bytes) :
    ∃ read, Consumes (Read.iterate (readParameter mode id site) slot.toList.length list) bytes read
      ∧ read.scope.Reflects sources := by
  cases slot with
  | none =>
    rw [encodeListed, outcome_pure_eq_ok] at hencode
    exact ⟨list, hencode ▸ .iterate_zero _ _, hscope⟩
  | some definition =>
    obtain ⟨hmem, hkind, hopenable⟩ := h definition rfl
    simp only [encodeListed, outcome_bind_eq_ok, outcome_pure_eq_ok] at hencode
    obtain ⟨written, hwritten, rfl⟩ := hencode
    -- What is read is not the definition, but has its bytes.
    obtain ⟨hbytes, hallows, hstored⟩ := hscope.received hconsistent hmem hopenable site hwritten
    obtain ⟨read, hread, hscopeRead⟩ := hone (definition.received list.scope site) hkind hallows _
      (encodeListed_eq hbytes kind tail)
    exact ⟨read, hread.iterate_one, hscopeRead ▸ hstored⟩

/-- A down-mixing definition with its weight, of which four bits are sent. -/
theorem exists_consumes_demixing (mode : ReadMode) (id : UInt32) {site : Site}
    {list : ParameterList} {definition : Parameter} (weight : UInt8)
    (hkind : definition.kind = .demixing) (hallows : list.scope.Allows site definition)
    (hencode : encodeListed .demixing (some definition) [weight <<< 4] = .ok bytes) :
    ∃ read, Consumes (readParameter mode id site list) bytes read
      ∧ read.scope = list.scope.store definition := by
  rw [← Read.shiftLeft_shiftRight_shiftLeft weight 4 (by decide)] at hencode
  exact ⟨_, consumes_demixing mode id list hkind hallows
    (Read.toNat_shiftRight_lt (weight <<< 4) (by decide)) hencode, rfl⟩

/-- The parameters of an openable element are read one after the other. -/
theorem exists_consumes_parameters {known : List Parameter} (mode : ReadMode) (site : Site)
    (hconsistent : Consistent sources) (hknown : Reflect sources known) (h : element.IsOpenable)
    (hsources : element.parameters ⊆ sources) (hencode : element.encodeParameters = .ok bytes) :
    ∃ listed read, bytes = Leb128.encode (UInt32.ofNat element.parameters.length) ++ listed
      ∧ Consumes (Read.iterate (readParameter mode element.id site) element.parameters.length
        { scope := { known } }) listed read
      ∧ read.scope.Reflects sources := by
  simp only [encodeParameters_eq, outcome_bind_eq_ok, outcome_pure_eq_ok] at hencode
  obtain ⟨front, hfront, back, hback, rfl⟩ := hencode
  have hstart : (ParameterList.scope { scope := { known } }).Reflects sources :=
    ⟨hknown, Parameter.reflect_nil sources⟩
  have hlisted : ∀ definition ∈ element.parameters,
      definition ∈ sources ∧ definition.IsOpenable :=
    fun definition hmem => ⟨hsources hmem, h.timed definition hmem⟩
  obtain ⟨middle, hdemixing, hmiddle⟩ := exists_consumes_listed mode element.id site
    hconsistent hstart
    (fun definition hmem =>
      have hfirst := hlisted definition (mem_parameters.2 (.inl hmem))
      ⟨hfirst.1, h.demixing definition hmem, hfirst.2⟩)
    (fun _ hkind hallows _ hwritten =>
      exists_consumes_demixing mode element.id element.defaultWeight hkind hallows hwritten)
    hfront
  obtain ⟨read, hreconGain, hread⟩ := exists_consumes_listed mode element.id site
    hconsistent hmiddle
    (fun definition hmem =>
      have hsecond := hlisted definition (mem_parameters.2 (.inr hmem))
      ⟨hsecond.1, h.reconGain definition hmem, hsecond.2⟩)
    (fun _ hkind hallows _ hwritten =>
      ⟨_, consumes_reconGain mode element.id middle hkind hallows hwritten, rfl⟩)
    hback
  refine ⟨front ++ back, read, List.append_assoc _ _ _, ?_, hread⟩
  rw [parameters, List.length_append]
  exact .iterate_add hdemixing hreconGain

end

/-! ### Elements -/

theorem exists_assignEach (id : UInt32) (config : CodecConfig) {stereo : List Bool} :
    ∀ {substreams : List Substream}, stereo.length ≤ substreams.length →
      ∃ assigned, assignEach id config stereo substreams = .ok assigned := by
  induction stereo with
  | nil => exact fun {substreams} _ => ⟨substreams, rfl⟩
  | cons first stereo ih =>
    intro substreams hlength
    cases substreams with
    | nil => exact absurd hlength (by simp)
    | cons substream substreams =>
      obtain ⟨decoderConfig, hconfig⟩ := config.exists_decoderConfigFor (if first then 2 else 1)
      obtain ⟨others, hothers⟩ := ih (Nat.le_of_succ_le_succ hlength)
      exact ⟨_, outcome_bind_eq_ok.2 ⟨_, outcome_bind_eq_ok.2 ⟨decoderConfig, hconfig, rfl⟩,
        outcome_bind_eq_ok.2 ⟨others, hothers, rfl⟩⟩⟩

/-- Substreams can be shared out if the layers take no more than there are. -/
theorem exists_assignSubstreams (config : CodecConfig)
    (h : layeredCount element.layers ≤ element.substreams.length) :
    ∃ assigned, element.assignSubstreams config = .ok assigned := by
  rw [← length_flatMap_stereoFlags] at h
  obtain ⟨substreams, hsubstreams⟩ := exists_assignEach element.id config h
  exact ⟨_, outcome_bind_eq_ok.2 ⟨substreams, hsubstreams, rfl⟩⟩

/-- An openable element that was written is read where its codec config is known and
definitions have the shapes of those that were sent. It keeps its id and those
of its substreams, and what it brings has such shapes again. -/
theorem exists_parse_encode {registry : Registry} {config : CodecConfig} {mode : ReadMode}
    {sources : List Parameter} {body : Bytes} (hlenient : mode.strict = false)
    (h : element.IsOpenable) (hencode : element.encode = .ok body)
    (hsize : body.length < 2 ^ 32) (hfresh : registry.audioElement? element.id = none)
    (hfind : registry.codecConfig? element.codecConfig = some config)
    (hknown : ∀ fourCC, config.codec ≠ .unknown fourCC) (hconsistent : Consistent sources)
    (hsources : element.parameters ⊆ sources)
    (hparameters : Reflect sources registry.parameters) :
    ∃ read definitions, parse mode registry body = .ok (some (read, definitions))
      ∧ read.id = element.id ∧ read.substreams.map (·.id) = element.substreams.map (·.id)
      ∧ Reflect sources definitions := by
  have hcount := length_substreams_lt hencode hsize
  obtain ⟨hvalid, parameters, layerBytes, hparameterBytes, hlayerBytes, rfl⟩ :=
    encode_eq_ok hencode
  obtain ⟨layers, front, rest, rfl, hlayers, htaken⟩ :=
    exists_consumes_layers h hvalid hlayerBytes
  obtain ⟨listed, list, rfl, hlisted, hscope⟩ := exists_consumes_parameters mode
    { element := some element.id,
      frameSize := (element.unassigned config).substreams.head?.map (·.frameSize) }
    hconsistent hparameters h hsources hparameterBytes
  have hchannel : element.parameters.length ≠ 0 → element.kind = .channel := fun hne =>
    h.channel fun hnil => hne (by rw [hnil]; rfl)
  have hfinish : Consumes (Read.finish .audioElement mode.strict) [] () :=
    hlenient ▸ Consumes.finish .audioElement
  have hcontents := takes_contents hcount
    (Nat.lt_of_le_of_lt element.length_parameters_le (by decide)) hchannel hlisted hlayers hfinish
  -- Whatever the layers have become, there are as many substreams as were written.
  let raw := ofParts registry element.id element.kind config (element.unassigned config).substreams
    list layers
  have hlength : raw.substreams.length = element.substreams.length := by
    simp only [raw, ofParts, numberFrom_length, unassigned, List.length_map]
  have hids : raw.substreams.map (·.id) = element.substreams.map (·.id) := by
    simp only [raw, ofParts]
    rw [numberFrom_map _ _ fun _ _ => rfl]
    simp only [unassigned, List.map_map]
    rfl
  have hfits : layeredCount raw.layers ≤ raw.substreams.length := hlength ▸ htaken
  obtain ⟨assigned, hassigned⟩ := exists_assignSubstreams config hfits
  obtain ⟨substreams, heq, hsame, -, -⟩ := assignSubstreams_eq_ok hassigned
  have hread := Consumes.parse (takes_read hfresh h.code hfind hknown hcontents hassigned)
    "audio element" rest
  refine ⟨assigned, list.scope.pending, ?_, ?_, ?_, hscope.pending⟩
  · rw [parse, ← hread]
    simp only [List.append_assoc]
  · rw [heq]
    rfl
  · rw [heq]
    exact hsame.trans hids

end AudioElement

end Iamf
