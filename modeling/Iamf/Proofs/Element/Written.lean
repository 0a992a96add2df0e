import Iamf.Proofs.Element.Readable

/-!
# `Iamf.Proofs.Element.Written`: audio elements are read back as they were

An element is written as ids, parameters and layers; everything else about its
substreams is worked out again from the codec config when it is read. So an
element that was read comes back whole against every registry in which it is
readable, and what it brings is exactly the parameters that it embeds.

* `Layer.consumes_encode`: scalable layers.
* `AudioElement.consumes_encodeLayers`: the layers of an element of any kind.
* `AudioElement.parse_encode`: a readable element that can be written comes back.
-/

set_option autoImplicit false

namespace Iamf

open Read (Consumes Exhausts Takes)

/-! ### Scalable layers -/

theorem OutputGain.consumes_encode {output : OutputGain} (h : output.IsReadable) :
    Consumes read output.encode output := by
  refine (Consumes.byte (output.flags <<< 2)).bind ?_
  rw [Read.shiftLeft_shiftRight (by decide) h.flags]
  exact (Ratio.consumes_encode h.gain).bind_pure fun gain => { output with gain }

namespace Layer

/-- Reads the output gain of a layer, if there is one. -/
def readOutputGain (present : Bool) : Read (Option OutputGain) :=
  if present then some <$> OutputGain.read else pure none

/-- The reader of a layer, with its optional part as a program of its own. -/
theorem read_eq : Layer.read = (do
    let head ← Read.byte
    let substreamCount ← Read.byte
    let coupledCount ← Read.byte
    let outputGain ← readOutputGain (head.toNat.testBit 3)
    return { scalable (head >>> 4) substreamCount coupledCount with
      hasReconGain := head.toNat.testBit 2
      outputGain }) := by
  refine bind_congr fun head => bind_congr fun substreamCount => bind_congr fun coupledCount => ?_
  rw [readOutputGain]
  split <;> rfl

/-- The bytes of the output gain of a layer, if there is one. -/
def encodeOutputGain (output : Option OutputGain) : Bytes :=
  match output with
  | some output => output.encode
  | none => []

theorem consumes_encodeOutputGain {output : Option OutputGain}
    (h : ∀ gain, output = some gain → gain.IsReadable) :
    Consumes (readOutputGain output.isSome) (encodeOutputGain output) output := by
  cases output with
  | none => exact Takes.pure _
  | some gain => exact (OutputGain.consumes_encode (h gain rfl)).map some

/-- The first byte tells the layout and what else there is. -/
theorem head_eq : ∀ layout < 16, ∀ output recon : Bool,
    let head : UInt8 := UInt8.ofNat layout <<< 4 ||| (if output then 8 else 0)
      ||| (if recon then 4 else 0)
    head >>> 4 = UInt8.ofNat layout ∧ head.toNat.testBit 3 = output
      ∧ head.toNat.testBit 2 = recon := by
  decide

theorem consumes_encode {layer : Layer} (h : layer.IsScalable) :
    Consumes Layer.read layer.encode layer := by
  obtain ⟨hlayout, houtput, hrecon⟩ := head_eq layer.loudspeakerLayout.toNat h.layout
    layer.outputGain.isSome layer.hasReconGain
  rw [UInt8.ofNat_toNat] at hlayout houtput hrecon
  rw [read_eq]
  refine (Consumes.byte _).bind ((Consumes.byte layer.substreamCount).bind
    ((Consumes.byte layer.coupledCount).bind ?_))
  rw [houtput, hlayout, hrecon]
  refine (consumes_encodeOutputGain h.gain).bind_nil ?_
  rw [← h.shape]
  exact Takes.pure layer

end Layer

namespace AudioElement

theorem consumes_encodeScalable {layers : List Layer} {substreamCount : Nat}
    (hcount : layers.length ≤ maxLayers) (hlayered : layeredCount layers = substreamCount)
    (h : ∀ layer ∈ layers, layer.IsScalable) :
    Consumes (readScalable substreamCount) (encodeScalable layers) layers := by
  rw [maxLayers] at hcount
  have hbyte : (UInt8.ofNat layers.length).toNat = layers.length := by
    rw [Read.toNat_ofNat_byte]
    omega
  have hhead : UInt8.ofNat layers.length <<< 5 >>> 5 = UInt8.ofNat layers.length :=
    Read.shiftLeft_shiftRight (by decide) (by
      rw [hbyte]
      exact Nat.lt_of_le_of_lt hcount (by decide))
  refine (Consumes.byte _).bind ?_
  rw [hhead, hbyte]
  refine Takes.ensure_bind hcount ?_
  refine (Consumes.times_flatMap Layer.encode fun layer hmem =>
    Layer.consumes_encode (h layer hmem)).bind_nil ?_
  rw [hlayered]
  exact Takes.ensure_bind (Nat.le_refl _) (Takes.ensure_bind (Nat.le_refl _) (Takes.pure _))

/-! ### Scenes -/

/-- The part of an ambisonics config behind its mode. -/
def readScene (substreamCount : Nat) (projected : Bool) : Read (List Layer) := do
  let channels ← Read.byte
  let count ← Read.byte
  ensure (count.toNat = substreamCount)
    (.invalidData (.sceneSubstreamCount count substreamCount))
  ensure (isFullOrder channels) (.outOfRange "output_channel_count" channels.toNat)
  if projected then do
    let coupledCount ← Read.byte
    let matrix ← Read.times ((count.toNat + coupledCount.toNat) * channels.toNat) Ratio.read
    return [{
      channelLayout := .ambisonic channels.toUInt16
      substreamCount := count
      coupledCount
      ambisonicsMode := some .projection
      demixingMatrix := matrix }]
  else do
    let components ← Read.bytes channels.toNat
    return [.monoScene components count]

theorem consumes_scene {substreamCount : Nat} (projected : Bool) {bytes : Bytes}
    {layers : List Layer} (h : Consumes (readScene substreamCount projected) bytes layers) :
    Consumes (readAmbisonics substreamCount)
      (Leb128.encode (if projected then 1 else 0) ++ bytes) layers := by
  cases projected <;> exact (Leb128.consumes_encode _).bind h

/-- A layer of a scene is read back. -/
theorem consumes_encodeAmbisonics {substreamCount : Nat} {layer : Layer} {bytes : Bytes}
    (h : layer.IsScene substreamCount)
    (hencode : encodeAmbisonics substreamCount layer = .ok bytes) :
    Consumes (readAmbisonics substreamCount) bytes [layer] := by
  rw [encodeAmbisonics, outcome_bind_eq_ok] at hencode
  obtain ⟨_, hchannels, hencode⟩ := hencode
  rw [outcome_ensure_eq_ok] at hchannels
  cases h with
  | @mono components count hcount hlength horder =>
    have hall : (ChannelLayout.ambisonicMap components).channelCount = components.length := by
      simp [ChannelLayout.ambisonicMap, ChannelLayout.channelCount]
    have hbyte : (UInt8.ofNat components.length).toNat = components.length := by
      rw [Read.toNat_ofNat_byte]
      omega
    simp only [Layer.monoScene, ChannelLayout.ambisonicChannels?_ambisonicMap, hall,
      outcome_pure_eq_ok, ← hcount, UInt8.ofNat_toNat] at hencode
    subst hencode
    refine hcount ▸ consumes_scene false ?_
    refine (Consumes.byte _).bind ((Consumes.byte count).bind (Takes.ensure_bind rfl
      (Takes.ensure_bind horder ?_)))
    rw [hbyte]
    exact (Consumes.bytes components).bind_pure fun components =>
      [Layer.monoScene components count]
  | @projection channels count coupledCount matrix hcount horder hlength hmatrix =>
    simp only [ChannelLayout.channelCount, UInt8.toNat_toUInt16, UInt8.ofNat_toNat,
      outcome_pure_eq_ok, ← hcount, List.append_assoc] at hencode
    subst hencode
    refine hcount ▸ consumes_scene true ?_
    refine (Consumes.byte channels).bind ((Consumes.byte count).bind (Takes.ensure_bind rfl
      (Takes.ensure_bind horder ?_)))
    refine (Consumes.byte coupledCount).bind ?_
    rw [← hlength]
    exact (Consumes.times_flatMap Ratio.encode fun gain hmem =>
      Ratio.consumes_encode (hmatrix gain hmem)).bind_pure _

/-! ### Layers of any kind -/

/-- What a well formed element says about its layers. -/
theorem validate_eq_ok {element : AudioElement} (h : element.validate = .ok ()) :
    (element.kind = .channel → element.layers.length ≤ maxLayers
        ∧ layeredCount element.layers = element.substreams.length)
      ∧ (element.kind = .scene → element.layers.length = 1
        ∧ element.substreams.length ≤ 255) := by
  rw [validate] at h
  constructor <;> intro hkind <;>
    simp only [hkind, outcome_bind_eq_ok, outcome_ensure_eq_ok] at h
  · obtain ⟨_, hlength, _, hlayered, -⟩ := h
    exact ⟨hlength, hlayered⟩
  · obtain ⟨_, hlength, hsubstreams⟩ := h
    exact ⟨hlength, hsubstreams⟩

/-- An empty config is passed over. -/
theorem consumes_skipConfig : Consumes skipConfig (Leb128.encode 0) () :=
  (Leb128.consumes_encode 0).bind_nil (Consumes.skipBytes [])

theorem consumes_encodeLayers {element : AudioElement} {bytes : Bytes}
    (h : element.HasReadableLayers) (hvalid : element.validate = .ok ())
    (hencode : element.encodeLayers = .ok bytes) :
    Consumes (readLayers element.kind element.substreams.length) bytes element.layers := by
  obtain ⟨hchannel, hscene⟩ := validate_eq_ok hvalid
  rw [HasReadableLayers] at h
  rw [encodeLayers] at hencode
  cases hkind : element.kind with
  | channel =>
    simp only [hkind, outcome_pure_eq_ok] at h hencode
    obtain ⟨hlength, hlayered⟩ := hchannel hkind
    exact hencode ▸ consumes_encodeScalable hlength hlayered h
  | scene =>
    obtain ⟨layer, hlayer⟩ := List.length_eq_one_iff.1 (hscene hkind).1
    simp only [hkind, hlayer] at h hencode
    rw [hlayer]
    exact consumes_encodeAmbisonics (h layer (List.mem_singleton_self layer)).2 hencode
  | reserved code =>
    simp only [hkind, outcome_pure_eq_ok] at h hencode
    rw [h, ← hencode]
    exact consumes_skipConfig.bind_pure fun _ => []

/-! ### Parameters -/

/-- The bytes of one parameter of an element, with what follows its definition. -/
def encodeListed (kind : ParameterKind) (parameter : Option Parameter) (tail : Bytes) :
    Except Error Bytes :=
  match parameter with
  | some parameter => do
    let definition ← parameter.encodeDefinition
    return Leb128.encode kind.code ++ definition ++ tail
  | none => return []

theorem encodeListed_eq {definition : Parameter} {bytes : Bytes}
    (h : definition.encodeDefinition = .ok bytes) (kind : ParameterKind) (tail : Bytes) :
    encodeListed kind (some definition) tail
      = .ok (Leb128.encode kind.code ++ bytes ++ tail) := by
  simp only [encodeListed, h]
  rfl

theorem encodeParameters_eq (element : AudioElement) :
    element.encodeParameters = (do
      let demixing ← encodeListed .demixing element.demixing [element.defaultWeight <<< 4]
      let reconGain ← encodeListed .reconGain element.reconGain []
      return Leb128.encode (UInt32.ofNat element.parameters.length) ++ demixing
        ++ reconGain) := by
  simp only [encodeParameters, encodeListed]
  cases element.demixing <;> cases element.reconGain <;>
    simp only [bind_assoc, pure_bind, List.append_nil]

variable {element : AudioElement} {site : Site}

theorem consumes_demixing (mode : ReadMode) (id : UInt32) (list : ParameterList)
    {definition : Parameter} {weight : UInt8} {bytes : Bytes}
    (hkind : definition.kind = .demixing) (hallows : list.scope.Allows site definition)
    (hweight : weight.toNat < 16)
    (hencode : encodeListed .demixing (some definition) [weight <<< 4] = .ok bytes) :
    Consumes (readParameter mode id site list) bytes
      { list with
        demixing := some definition
        defaultWeight := weight
        scope := list.scope.store definition } := by
  obtain ⟨written, hwritten, hread⟩ := Parameter.consumes_encodeDefinition mode hallows
  simp only [encodeListed, hwritten, outcome_bind_eq_ok, outcome_pure_eq_ok,
    Except.ok.injEq, exists_eq_left', List.append_assoc] at hencode
  subst hencode
  refine (Leb128.consumes_encode _).bind ?_
  rw [ParameterKind.ofCode?_code]
  rw [hkind] at hread
  refine hread.bind ?_
  -- The weight is kept in the upper half of its byte.
  have hbyte := (Consumes.byte (weight <<< (4 : UInt8))).bind_pure fun byte =>
    ({ list with
      demixing := some definition
      defaultWeight := byte >>> (4 : UInt8)
      scope := list.scope.store definition } : ParameterList)
  rwa [Read.shiftLeft_shiftRight (by decide) hweight] at hbyte

theorem consumes_reconGain (mode : ReadMode) (id : UInt32) (list : ParameterList)
    {definition : Parameter} {bytes : Bytes}
    (hkind : definition.kind = .reconGain) (hallows : list.scope.Allows site definition)
    (hencode : encodeListed .reconGain (some definition) [] = .ok bytes) :
    Consumes (readParameter mode id site list) bytes
      { list with reconGain := some definition, scope := list.scope.store definition } := by
  obtain ⟨written, hwritten, hread⟩ := Parameter.consumes_encodeDefinition mode hallows
  simp only [encodeListed, hwritten, outcome_bind_eq_ok, outcome_pure_eq_ok,
    Except.ok.injEq, exists_eq_left', List.append_nil] at hencode
  subst hencode
  refine (Leb128.consumes_encode _).bind ?_
  rw [ParameterKind.ofCode?_code]
  rw [hkind] at hread
  exact hread.bind_pure fun pair =>
    ({ list with reconGain := some pair.1, scope := pair.2 } : ParameterList)

/-- The down-mixing of an element comes first, if there is one. Without it no
weight is read, which leaves the one that a list starts with. -/
theorem consumes_listedDemixing {known : List Parameter} {bytes : Bytes} (mode : ReadMode)
    (id : UInt32) (h : ∀ definition ∈ element.demixing, definition.kind = .demixing
      ∧ Scope.Allows { known } site definition)
    (hweight : element.defaultWeight.toNat < 16
      ∧ (element.demixing = none → element.defaultWeight = 0))
    (hencode : encodeListed .demixing element.demixing [element.defaultWeight <<< 4]
      = .ok bytes) :
    Consumes (Read.iterate (readParameter mode id site) element.demixing.toList.length
        { scope := { known } }) bytes
      { demixing := element.demixing
        defaultWeight := element.defaultWeight
        scope := { known, pending := element.demixing.toList } } := by
  cases hlisted : element.demixing with
  | none =>
    simp only [hlisted, encodeListed, outcome_pure_eq_ok] at hencode
    rw [hweight.2 hlisted, ← hencode]
    exact .iterate_zero _ _
  | some definition =>
    rw [hlisted] at h hencode
    obtain ⟨hkind, hallows⟩ := h definition rfl
    have hread := consumes_demixing mode id { scope := { known } } hkind hallows hweight.1
      hencode
    exact hread.iterate_one

/-- The recon gain of an element comes behind a list of definitions with other
ids, if there is one. -/
theorem consumes_listedReconGain {list : ParameterList} {bytes : Bytes} (mode : ReadMode)
    (id : UInt32) (hlist : list.reconGain = none)
    (h : ∀ definition ∈ element.reconGain, definition.kind = .reconGain
      ∧ list.scope.Allows site definition
      ∧ ∀ old ∈ list.scope.pending, old.id ≠ definition.id)
    (hencode : encodeListed .reconGain element.reconGain [] = .ok bytes) :
    Consumes (Read.iterate (readParameter mode id site) element.reconGain.toList.length list)
      bytes
      { list with
        reconGain := element.reconGain
        scope := { list.scope with
          pending := list.scope.pending ++ element.reconGain.toList } } := by
  cases hlisted : element.reconGain with
  | none =>
    simp only [hlisted, encodeListed, outcome_pure_eq_ok] at hencode
    rw [← hencode, Option.toList_none, List.append_nil, ← hlist]
    exact .iterate_zero _ _
  | some definition =>
    rw [hlisted] at h hencode
    obtain ⟨hkind, hallows, hfresh⟩ := h definition rfl
    have hread := consumes_reconGain mode id list hkind hallows hencode
    rw [Scope.store, Parameter.putInto_of_fresh hfresh] at hread
    exact hread.iterate_one

/-- The parameters of an element are listed one after the other, each behind the
definitions before it. -/
theorem consumes_encodeParameters {registry : Registry} {bytes : Bytes} (mode : ReadMode)
    (h : element.Readable registry) (hnodup : (element.parameters.map (·.id)).Nodup)
    (hencode : element.encodeParameters = .ok bytes) :
    ∃ listed, bytes = Leb128.encode (UInt32.ofNat element.parameters.length) ++ listed
      ∧ Consumes (Read.iterate (readParameter mode element.id element.site)
          element.parameters.length { scope := { known := registry.parameters } }) listed
        { demixing := element.demixing
          reconGain := element.reconGain
          defaultWeight := element.defaultWeight
          scope := { known := registry.parameters, pending := element.parameters } } := by
  simp only [encodeParameters_eq, outcome_bind_eq_ok, outcome_pure_eq_ok] at hencode
  obtain ⟨front, hfront, back, hback, rfl⟩ := hencode
  refine ⟨front ++ back, List.append_assoc _ _ _, ?_⟩
  rw [parameters, List.map_append, List.nodup_append] at hnodup
  rw [parameters, List.length_append]
  have hdemixing := consumes_listedDemixing mode element.id h.demixing h.weight hfront
  refine .iterate_add hdemixing (consumes_listedReconGain mode element.id rfl ?_ hback)
  intro definition hlisted
  obtain ⟨hkind, hallows⟩ := h.reconGain definition hlisted
  have hfresh : ∀ old ∈ element.demixing.toList, old.id ≠ definition.id := fun old hold =>
    hnodup.2.2 old.id (List.mem_map_of_mem hold) definition.id
      (List.mem_map_of_mem (Option.mem_toList.2 hlisted))
  -- The down-mixing has another id, so the scope still looks up this one in the registry.
  refine ⟨hkind, hallows.of_find?_eq ?_, hfresh⟩
  have hnone : element.demixing.toList.find? (·.id = definition.id) = none := by
    simpa using hfresh
  simp [Scope.find?, hnone]

/-! ### Elements -/

/-- Substreams that are shared out have the frame size that they had before. -/
theorem frameSize_unassigned {registry : Registry} {config : CodecConfig}
    (h : ((element.unassigned config).numberFrom registry.streamCount).assignSubstreams config
      = .ok element) :
    (element.unassigned config).substreams.head?.map (·.frameSize) = element.frameSize? := by
  obtain ⟨substreams, heq, -, -, hsizes⟩ := assignSubstreams_eq_ok h
  have hleft : element.substreams = substreams := congrArg (·.substreams) heq
  rw [frameSize?_eq, hleft, hsizes, numberFrom_map _ _ fun _ _ => rfl, List.head?_map]

/-- An element has one parameter of either kind at most. -/
theorem length_parameters_le (element : AudioElement) : element.parameters.length ≤ 2 := by
  rw [parameters]
  cases element.demixing <;> cases element.reconGain <;>
    simp only [Option.toList_none, Option.toList_some, List.length_append, List.length_nil,
      List.length_singleton] <;> decide

/-- The ids of the substreams come back as substreams that have yet to be shared
out. -/
theorem consumes_substreams (config : CodecConfig) :
    Consumes (Read.times element.substreams.length (readSubstream config))
      (element.substreams.flatMap fun substream => Leb128.encode substream.id)
      (element.unassigned config).substreams := by
  have hone : ∀ substream ∈ (element.unassigned config).substreams,
      Consumes (readSubstream config) (Leb128.encode substream.id) substream := by
    intro substream hmem
    obtain ⟨original, -, rfl⟩ := List.mem_map.1 hmem
    exact (Leb128.consumes_encode _).bind_pure fun id => Substream.ofConfig id config
  have hread := Consumes.times_flatMap (fun each : Substream => Leb128.encode each.id) hone
  rw [unassigned, List.length_map, List.flatMap_map] at hread
  exact hread

/-- There are no more substreams than bytes that list them. -/
theorem length_substreams_le (element : AudioElement) :
    element.substreams.length
      ≤ (element.substreams.flatMap fun substream => Leb128.encode substream.id).length :=
  Read.length_le_flatMap fun _ _ => Leb128.length_encode _ ▸ (Leb128.size_le _).1

/-- Behind its codec config an element lists ids, parameters and layers. What follows
these must be such that a body may end there. -/
theorem takes_contents {behind : Bytes → Prop} {mode : ReadMode} {registry : Registry}
    {id : UInt32} {kind : ElementKind} {config : CodecConfig} {parameterCount : Nat}
    {list : ParameterList} {listed layerBytes : Bytes} {layers : List Layer}
    (hcount : element.substreams.length < 2 ^ 32) (hparameterCount : parameterCount < 2 ^ 32)
    (hchannel : parameterCount ≠ 0 → kind = .channel)
    (hlisted : Consumes (Read.iterate (readParameter mode id
        { element := some id,
          frameSize := (element.unassigned config).substreams.head?.map (·.frameSize) })
      parameterCount { scope := { known := registry.parameters } }) listed list)
    (hlayers : Consumes (readLayers kind element.substreams.length) layerBytes layers)
    (hfinish : Takes behind (Read.finish .audioElement mode.strict) [] ()) :
    Takes behind (readContents mode registry id kind config)
      (Leb128.encode (UInt32.ofNat element.substreams.length)
        ++ (element.substreams.flatMap (fun substream => Leb128.encode substream.id)
          ++ (Leb128.encode (UInt32.ofNat parameterCount) ++ (listed ++ layerBytes))))
      (ofParts registry id kind config (element.unassigned config).substreams list layers,
        list.scope.pending) := by
  have hlength : (element.unassigned config).substreams.length = element.substreams.length := by
    rw [unassigned, List.length_map]
  rw [readContents_eq]
  refine (Leb128.consumes_encode _).bind ?_
  rw [Read.toNat_ofNat_count hcount]
  refine Takes.checkCount_bind ?_ ?_
  · rw [List.length_append]
    exact Nat.le_add_right_of_le element.length_substreams_le
  refine (consumes_substreams config).bind ((Leb128.consumes_encode _).bind ?_)
  refine Takes.ensure_bind ?_ ?_
  · by_cases hzero : parameterCount = 0
    · exact .inl (by rw [hzero]; rfl)
    · exact .inr (hchannel hzero)
  rw [Read.toNat_ofNat_count hparameterCount, hlength, ← List.append_nil layerBytes]
  exact hlisted.bind (hlayers.bind (hfinish.bind_nil (Takes.pure _)))

/-- In front of that an element has its own id, its kind, and the id of a codec config,
which must be that of a known codec. -/
theorem takes_read {behind : Bytes → Prop} {mode : ReadMode} {registry : Registry}
    {id configId : UInt32} {kind : ElementKind} {config : CodecConfig} {contents : Bytes}
    {raw assigned : AudioElement} {definitions : List Parameter}
    (hfresh : registry.audioElement? id = none)
    (hcode : kind.code.toNat < 8 ∧ ElementKind.ofCode kind.code = kind)
    (hfind : registry.codecConfig? configId = some config)
    (hknown : ∀ fourCC, config.codec ≠ .unknown fourCC)
    (hcontents : Takes behind (readContents mode registry id kind config) contents
      (raw, definitions))
    (hassigned : raw.assignSubstreams config = .ok assigned) :
    Takes behind (read mode registry)
      (Leb128.encode id ++ ([kind.code <<< 5] ++ (Leb128.encode configId ++ contents)))
      (some (assigned, definitions)) := by
  refine (Leb128.consumes_encode id).bind (Takes.ensure_bind hfresh ?_)
  refine (Consumes.byte (kind.code <<< 5)).bind ?_
  rw [Read.shiftLeft_shiftRight (by decide) hcode.1, hcode.2]
  refine (Leb128.consumes_encode configId).bind ?_
  simp only [hfind]
  cases hcodec : config.codec with
  -- All known codecs go on alike.
  | unknown fourCC => exact absurd hcodec (hknown fourCC)
  | _ => exact hcontents.bind_nil ((Takes.lift hassigned).bind_nil (Takes.pure _))

/-- The bytes of an element that was written. -/
theorem encode_eq_ok {body : Bytes} (h : element.encode = .ok body) :
    element.validate = .ok () ∧ ∃ parameters layers, element.encodeParameters = .ok parameters
      ∧ element.encodeLayers = .ok layers
      ∧ body = Leb128.encode element.id ++ ([element.kind.code <<< 5]
        ++ (Leb128.encode element.codecConfig
          ++ (Leb128.encode (UInt32.ofNat element.substreams.length)
            ++ (element.substreams.flatMap (fun substream => Leb128.encode substream.id)
              ++ (parameters ++ layers))))) := by
  simp only [encode, outcome_bind_eq_ok, outcome_pure_eq_ok] at h
  obtain ⟨_, hvalid, parameters, hparameters, layers, hlayers, rfl⟩ := h
  refine ⟨hvalid, parameters, layers, hparameters, hlayers, ?_⟩
  simp only [List.append_assoc]

/-- The number of substreams fits where the body does. -/
theorem length_substreams_lt {body : Bytes} (h : element.encode = .ok body)
    (hsize : body.length < 2 ^ 32) : element.substreams.length < 2 ^ 32 := by
  obtain ⟨-, parameters, layers, -, -, rfl⟩ := encode_eq_ok h
  have hlisted := element.length_substreams_le
  simp only [List.length_append] at hsize
  omega

/-- A readable element that can be written is read back as it was, and brings
the parameters that it embeds. -/
theorem parse_encode {registry : Registry} {body : Bytes} (h : element.Readable registry)
    (hnodup : (element.parameters.map (·.id)).Nodup) (hencode : element.encode = .ok body)
    (mode : ReadMode) :
    parse mode registry body = .ok (some (element, element.parameters)) := by
  obtain ⟨hvalid, parameters, layers, hparameters, hlayers, rfl⟩ := encode_eq_ok hencode
  obtain ⟨config, hfind, hknown, hassigned⟩ := h.assigned
  have hconfig : config.id = element.codecConfig := by simpa using List.find?_some hfind
  obtain ⟨listed, rfl, hlisted⟩ := consumes_encodeParameters mode h hnodup hparameters
  have hchannel : element.parameters.length ≠ 0 → element.kind = .channel := fun hne =>
    h.channel fun hnil => hne (by rw [hnil]; rfl)
  rw [site, ← frameSize_unassigned hassigned] at hlisted
  have hcontents := takes_contents h.count
    (Nat.lt_of_le_of_lt element.length_parameters_le (by decide)) hchannel hlisted
    (consumes_encodeLayers h.layers hvalid hlayers) (Exhausts.finish .audioElement mode.strict)
  have hraw : ofParts registry element.id element.kind config
        (element.unassigned config).substreams
        { demixing := element.demixing
          reconGain := element.reconGain
          defaultWeight := element.defaultWeight
          scope := { known := registry.parameters, pending := element.parameters } }
        element.layers
      = (element.unassigned config).numberFrom registry.streamCount := by
    rw [ofParts, hconfig]
    rfl
  rw [hraw] at hcontents
  rw [List.append_assoc]
  exact Exhausts.parse (takes_read h.fresh h.code hfind hknown hcontents hassigned)
    "audio element"

/-- What is read where an element was written, next to known codecs only, is an
element with the same substream ids. -/
theorem identity_of_parse {registry : Registry} {mode : ReadMode} {body : Bytes}
    {result : Option (AudioElement × List Parameter)}
    (hknown : ∀ config ∈ registry.codecConfigs, ∀ fourCC, config.codec ≠ .unknown fourCC)
    (hencode : element.encode = .ok body) (hsize : body.length < 2 ^ 32)
    (hparse : parse mode registry body = .ok result) :
    registry.codecConfigs ≠ [] ∧ ∃ read definitions, result = some (read, definitions)
      ∧ read.substreams.map (·.id) = element.substreams.map (·.id) := by
  have hcount := length_substreams_lt hencode hsize
  obtain ⟨-, parameters, layers, -, -, rfl⟩ := encode_eq_ok hencode
  rw [parse, Read.parse_eq_ok] at hparse
  obtain ⟨after, hparse⟩ := hparse
  rw [Reader.ofBytes, AudioElement.read,
    Takes.run_bind (Leb128.consumes_encode element.id)] at hparse
  simp only [Read.bind_eq_ok, Read.ensure_eq_ok] at hparse
  obtain ⟨_, _, ⟨-, -, rfl⟩, _, _, hhead, configId, _, hconfigId, hparse⟩ := hparse
  cases (Consumes.byte (element.kind.code <<< 5) _ _ trivial).symm.trans hhead
  cases (Leb128.consumes_encode element.codecConfig _ _ trivial).symm.trans hconfigId
  cases hfind : registry.codecConfig? element.codecConfig with
  | none => exact absurd hparse (by simp [hfind, Read.throw_eq_ok])
  | some config =>
    have hmem : config ∈ registry.codecConfigs := List.mem_of_find?_eq_some hfind
    refine ⟨List.ne_nil_of_mem hmem, ?_⟩
    cases hcodec : config.codec with
    -- All known codecs go on alike.
    | unknown fourCC => exact absurd hcodec (hknown config hmem fourCC)
    | _ =>
      simp only [hfind, hcodec, Read.bind_eq_ok, Read.pure_eq_ok, Prod.mk.injEq] at hparse
      obtain ⟨⟨raw, definitions⟩, _, hcontents, assigned, _, hassigned, rfl, -⟩ := hparse
      obtain ⟨_, houtcome, heq⟩ := Read.liftExcept_eq_ok.1 hassigned
      cases heq
      obtain ⟨substreams, rfl, hids, -⟩ := assignSubstreams_eq_ok houtcome
      refine ⟨_, _, rfl, hids.trans ?_⟩
      rw [readContents_eq, Takes.run_bind (Leb128.consumes_encode _),
        Read.toNat_ofNat_count hcount] at hcontents
      simp only [Read.bind_eq_ok, Read.pure_eq_ok, Prod.mk.injEq] at hcontents
      obtain ⟨_, _, hcheck, found, _, hfound, _, _, -, _, _, -, list, _, -, layers, _, -, _, _, -,
        ⟨rfl, -⟩, -⟩ := hcontents
      cases Parameter.checkCount_eq_ok hcheck
      cases (consumes_substreams config _ _ trivial).symm.trans hfound
      rw [ofParts, numberFrom_map _ _ fun _ _ => rfl, unassigned, List.map_map]
      rfl

end AudioElement

end Iamf
