import Iamf.Proofs.Element.Parameters

/-!
# `Iamf.Proofs.Element.Readable`: the audio elements that a reader can give

`AudioElement.Readable` says what is known of an element that was read, in
terms that its bytes are written from: the substreams follow from their ids and
the codec config, the layers are those of a scalable or a scene config, and the
parameters are ones that the registry allows. Only what the registry answers to
a few lookups enters, so an element that is readable against one registry is
readable against every other one that gives the same answers.

* `AudioElement.parse_eq_ok`: an element that was read is readable, and the
  definitions that it brought can be merged into the registry.
* `IsReadFrom.readable`, `IsReadFrom.brings`: one half of it each.
-/

set_option autoImplicit false

namespace Iamf

open Parameter (Acceptable Admits Covers)

/-! ### Layers -/

/-- An output gain that was read: six bits of flags, and a Q7.8 number. -/
structure OutputGain.IsReadable (output : OutputGain) : Prop where
  flags : output.flags.toNat < 64
  gain : output.gain.IsQ8

namespace Layer

/-- A layer of a channel element that was read: the table of layouts gives its
channels. -/
structure IsScalable (layer : Layer) : Prop where
  shape : layer = { scalable layer.loudspeakerLayout layer.substreamCount layer.coupledCount with
    hasReconGain := layer.hasReconGain, outputGain := layer.outputGain }
  layout : layer.loudspeakerLayout.toNat < 16
  gain : ∀ output, layer.outputGain = some output → output.IsReadable

/-- The layer of a scene that was read. -/
inductive IsScene (substreamCount : Nat) : Layer → Prop where
  | mono {components : List UInt8} {count : UInt8} (hcount : count.toNat = substreamCount)
      (hchannels : components.length < 256)
      (horder : AudioElement.isFullOrder (UInt8.ofNat components.length) = true) :
      IsScene substreamCount (.monoScene components count)
  | projection {channels count coupledCount : UInt8} {matrix : List Ratio}
      (hcount : count.toNat = substreamCount)
      (horder : AudioElement.isFullOrder channels = true)
      (hlength : matrix.length = (count.toNat + coupledCount.toNat) * channels.toNat)
      (hmatrix : ∀ gain ∈ matrix, gain.IsQ8) :
      IsScene substreamCount {
        channelLayout := .ambisonic channels.toUInt16
        substreamCount := count
        coupledCount
        ambisonicsMode := some .projection
        demixingMatrix := matrix }

theorem outputGain_read_eq_ok {reader after : Reader} {output : OutputGain}
    (h : OutputGain.read reader = .ok (output, after)) : output.IsReadable := by
  simp only [OutputGain.read, Read.bind_eq_ok, Read.pure_eq_ok, Prod.mk.injEq] at h
  obtain ⟨flags, _, -, gain, _, hgain, rfl, -⟩ := h
  exact ⟨Read.toNat_shiftRight_lt flags (by decide), Ratio.read_eq_ok hgain⟩

theorem read_eq_ok {reader after : Reader} {layer : Layer}
    (h : read reader = .ok (layer, after)) : layer.IsScalable := by
  simp only [read, Read.bind_eq_ok] at h
  obtain ⟨head, _, -, substreamCount, _, -, coupledCount, _, -, h⟩ := h
  split at h <;>
    simp only [Read.bind_eq_ok, Read.map_eq_ok, Read.pure_eq_ok, Prod.mk.injEq] at h
  · obtain ⟨_, _, ⟨output, _, houtput, rfl, -⟩, rfl, -⟩ := h
    refine ⟨rfl, Read.toNat_shiftRight_lt head (by decide), ?_⟩
    rintro _ ⟨⟩
    exact outputGain_read_eq_ok houtput
  · obtain ⟨_, _, ⟨rfl, -⟩, rfl, -⟩ := h
    exact ⟨rfl, Read.toNat_shiftRight_lt head (by decide), by simp⟩

end Layer

namespace AudioElement

theorem readScalable_eq_ok {substreamCount : Nat} {reader after : Reader} {layers : List Layer}
    (h : readScalable substreamCount reader = .ok (layers, after)) :
    ∀ layer ∈ layers, layer.IsScalable := by
  simp only [readScalable, Read.bind_eq_ok, Read.ensure_eq_ok, Read.pure_eq_ok,
    Prod.mk.injEq] at h
  obtain ⟨head, _, -, _, _, -, layers, _, hlayers, _, _, -, _, _, -, rfl, -⟩ := h
  intro layer hmem
  obtain ⟨_, _, hread⟩ := (Read.times_eq_ok hlayers).2 layer hmem
  exact Layer.read_eq_ok hread

theorem readAmbisonics_eq_ok {substreamCount : Nat} {reader after : Reader}
    {layers : List Layer} (h : readAmbisonics substreamCount reader = .ok (layers, after)) :
    ∀ layer ∈ layers, layers = [layer] ∧ layer.IsScene substreamCount := by
  rw [readAmbisonics, Read.bind_eq_ok] at h
  obtain ⟨mode, _, -, h⟩ := h
  split at h
  · simp only [Read.pure_eq_ok, Prod.mk.injEq] at h
    obtain ⟨rfl, -⟩ := h
    simp
  · simp only [Read.bind_eq_ok, Read.ensure_eq_ok] at h
    obtain ⟨channels, _, -, count, _, -, _, _, ⟨hcount, -⟩, _, _, ⟨horder, -⟩, h⟩ := h
    split at h <;> simp only [Read.bind_eq_ok, Read.pure_eq_ok, Prod.mk.injEq] at h
    · obtain ⟨components, _, hcomponents, rfl, -⟩ := h
      have hlength := (Read.bytes_eq_ok hcomponents).1
      intro layer hmem
      rw [List.mem_singleton.1 hmem]
      refine ⟨rfl, .mono hcount (hlength ▸ channels.toNat_lt) ?_⟩
      rwa [hlength, UInt8.ofNat_toNat]
    · obtain ⟨coupledCount, _, -, matrix, _, hmatrix, rfl, -⟩ := h
      obtain ⟨hlength, hgains⟩ := Read.times_eq_ok hmatrix
      intro layer hmem
      rw [List.mem_singleton.1 hmem]
      refine ⟨rfl, .projection hcount horder hlength fun gain hgain => ?_⟩
      obtain ⟨_, _, hread⟩ := hgains gain hgain
      exact Ratio.read_eq_ok hread

/-- The layers of a channel element that was read take all substreams. -/
theorem layeredCount_of_readScalable {substreamCount : Nat} {reader after : Reader}
    {layers : List Layer} (h : readScalable substreamCount reader = .ok (layers, after)) :
    layeredCount layers = substreamCount := by
  simp only [readScalable, Read.bind_eq_ok, Read.ensure_eq_ok, Read.pure_eq_ok,
    Prod.mk.injEq] at h
  obtain ⟨_, _, -, _, _, -, _, _, -, _, _, ⟨hle, -⟩, _, _, ⟨hge, -⟩, rfl, -⟩ := h
  exact Nat.le_antisymm hle hge

/-- The layers of an element that was read. -/
def HasReadableLayers (element : AudioElement) : Prop :=
  match element.kind with
  | .channel => ∀ layer ∈ element.layers, layer.IsScalable
  | .scene => ∀ layer ∈ element.layers,
    element.layers = [layer] ∧ layer.IsScene element.substreams.length
  | .reserved _ => element.layers = []

/-! ### Substreams -/

/-- The element as it is before its substreams are shared out. -/
def unassigned (config : CodecConfig) (element : AudioElement) : AudioElement :=
  { element with
    substreams := element.substreams.map fun substream => .ofConfig substream.id config }

/-- Sharing out substreams only gives them channels and decoder configurations. -/
theorem map_of_assignEach {β : Type} {key : Substream → β}
    (hkey : ∀ (substream : Substream) (layout : ChannelLayout) (decoderConfig : Bytes),
      key { substream with channelLayout := layout, decoderConfig } = key substream)
    {element : UInt32} {config : CodecConfig} {stereo : List Bool} :
    ∀ {substreams assigned : List Substream},
      assignEach element config stereo substreams = .ok assigned →
      assigned.map key = substreams.map key := by
  induction stereo with
  | nil =>
    intro substreams assigned h
    cases h
    rfl
  | cons first stereo ih =>
    intro substreams assigned h
    cases substreams with
    | nil => exact absurd h (by simp [assignEach, outcome_throw_eq_ok])
    | cons substream substreams =>
      simp only [assignEach, Substream.assign, bind, Except.bind] at h
      cases hconfig : config.decoderConfigFor (if first = true then 2 else 1) with
      | error error => exact absurd h (by simp [hconfig])
      | ok decoderConfig =>
        simp only [hconfig, pure, Except.pure] at h
        cases hothers : assignEach element config stereo substreams with
        | error error => exact absurd h (by simp [hothers])
        | ok others =>
          simp only [hothers, Except.ok.injEq] at h
          rw [← h, List.map_cons, List.map_cons, ih hothers, hkey]

/-- What sharing out the substreams of an element leaves as it was. -/
theorem assignSubstreams_eq_ok {element assigned : AudioElement} {config : CodecConfig}
    (h : element.assignSubstreams config = .ok assigned) :
    ∃ substreams, assigned = { element with substreams }
      ∧ substreams.map (·.id) = element.substreams.map (·.id)
      ∧ substreams.map (·.streamIndex) = element.substreams.map (·.streamIndex)
      ∧ substreams.map (·.frameSize) = element.substreams.map (·.frameSize) := by
  simp only [assignSubstreams, bind, Except.bind] at h
  split at h
  · exact absurd h (by simp)
  · rename_i substreams hsubstreams
    cases h
    exact ⟨substreams, rfl, map_of_assignEach (fun _ _ _ => rfl) hsubstreams,
      map_of_assignEach (fun _ _ _ => rfl) hsubstreams,
      map_of_assignEach (fun _ _ _ => rfl) hsubstreams⟩

/-- The substreams before they are shared out follow from their ids. -/
theorem unassigned_eq_of_map_id {element : AudioElement} {substreams : List Substream}
    (config : CodecConfig) (h : substreams.map (·.id) = element.substreams.map (·.id)) :
    ({ element with substreams } : AudioElement).unassigned config
      = element.unassigned config := by
  have hmap := congrArg (List.map fun id => Substream.ofConfig id config) h
  simp only [List.map_map, Function.comp_def] at hmap
  simp only [unassigned, hmap]

theorem numberFrom_map {β : Type} {key : Substream → β} (element : AudioElement) (first : Nat)
    (hkey : ∀ (substream : Substream) (index : Nat),
      key { substream with streamIndex := index } = key substream) :
    (element.numberFrom first).substreams.map key = element.substreams.map key := by
  apply List.ext_getElem
  · simp [numberFrom]
  · intro place _ _
    simp [numberFrom, hkey]

theorem numberFrom_map_streamIndex (element : AudioElement) (first : Nat) :
    (element.numberFrom first).substreams.map (·.streamIndex)
      = List.range' first element.substreams.length := by
  apply List.ext_getElem
  · simp [numberFrom]
  · intro place _ _
    simp [numberFrom]

theorem numberFrom_length (element : AudioElement) (first : Nat) :
    (element.numberFrom first).substreams.length = element.substreams.length := by
  simp [numberFrom]

theorem unassigned_numberFrom (element : AudioElement) (config : CodecConfig) (first : Nat) :
    (element.numberFrom first).unassigned config = element.unassigned config := by
  have hsubstreams : (element.numberFrom first).substreams.map
        (fun substream => Substream.ofConfig substream.id config)
      = element.substreams.map fun substream => Substream.ofConfig substream.id config :=
    element.numberFrom_map first fun _ _ => rfl
  simp only [unassigned, hsubstreams]
  rfl

/-! ### Elements -/

/-- An element that was read against a registry. -/
structure Readable (registry : Registry) (element : AudioElement) : Prop where
  fresh : registry.audioElement? element.id = none
  code : element.kind.code.toNat < 8 ∧ ElementKind.ofCode element.kind.code = element.kind
  assigned : ∃ config, registry.codecConfig? element.codecConfig = some config
    ∧ (∀ fourCC, config.codec ≠ .unknown fourCC)
    ∧ ((element.unassigned config).numberFrom registry.streamCount).assignSubstreams config
      = .ok element
  count : element.substreams.length < 2 ^ 32
  channel : element.parameters ≠ [] → element.kind = .channel
  demixing : ∀ definition ∈ element.demixing, definition.kind = .demixing
    ∧ Scope.Allows { known := registry.parameters } element.site definition
  reconGain : ∀ definition ∈ element.reconGain, definition.kind = .reconGain
    ∧ Scope.Allows { known := registry.parameters } element.site definition
  weight : element.defaultWeight.toNat < 16
    ∧ (element.demixing = none → element.defaultWeight = 0)
  layers : element.HasReadableLayers

/-- What an element that was read from a body brings to the registry. -/
structure Brings (registry : Registry) (body : Bytes) (element : AudioElement)
    (definitions : List Parameter) : Prop where
  acceptable : Acceptable registry.parameters definitions
  nodup : (definitions.map (·.id)).Nodup
  allowed : ∀ definition ∈ definitions, definition.kind ≠ .mixGain
    ∧ Scope.Allows { known := registry.parameters } element.site definition
  covered : ∀ definition ∈ element.parameters, Covers definitions definition
  exact : ListsOnce body → definitions.Perm element.parameters

theorem toNat_shiftRight_five_ofCode (head : UInt8) :
    (ElementKind.ofCode (head >>> 5)).code.toNat < 8
      ∧ ElementKind.ofCode (ElementKind.ofCode (head >>> 5)).code
        = ElementKind.ofCode (head >>> 5) := by
  rw [ElementKind.code_ofCode]
  exact ⟨Read.toNat_shiftRight_lt head (by decide), rfl⟩

theorem frameSize?_eq (element : AudioElement) :
    element.frameSize? = (element.substreams.map (·.frameSize)).head? := by
  rw [frameSize?, List.head?_map]

theorem readSubstream_eq_ok {config : CodecConfig} {reader after : Reader}
    {substream : Substream} (h : readSubstream config reader = .ok (substream, after)) :
    substream = .ofConfig substream.id config
      ∧ ∃ id, Leb128.read reader = .ok (id, after) := by
  simp only [readSubstream, Read.bind_eq_ok, Read.pure_eq_ok, Prod.mk.injEq] at h
  obtain ⟨id, _, hid, rfl, rfl⟩ := h
  exact ⟨rfl, id, hid⟩

/-- Substreams that were read follow from their ids. -/
theorem map_ofConfig_eq {config : CodecConfig} {count : Nat} {reader after : Reader}
    {substreams : List Substream}
    (h : Read.times count (readSubstream config) reader = .ok (substreams, after)) :
    substreams.map (fun substream => .ofConfig substream.id config) = substreams := by
  have hown : ∀ substream ∈ substreams, Substream.ofConfig substream.id config = substream := by
    intro substream hmem
    obtain ⟨_, _, hread⟩ := (Read.times_eq_ok h).2 substream hmem
    exact (readSubstream_eq_ok hread).1.symm
  exact (List.map_congr_left hown).trans (List.map_id' _)

/-- What was read of an element before its substreams are shared out. -/
structure IsContents (registry : Registry) (config : CodecConfig) (element : AudioElement)
    (kinds : List (Option ParameterKind)) (definitions : List Parameter) : Prop where
  codecConfig : element.codecConfig = config.id
  substreams : element = (element.unassigned config).numberFrom registry.streamCount
  count : element.substreams.length < 2 ^ 32
  layers : element.HasReadableLayers
  layered : element.kind = .channel ∨ element.layers ≠ [] →
    layeredCount element.layers = element.substreams.length
  channel : element.parameters ≠ [] → element.kind = .channel
  parameters : ∃ list : ParameterList,
    AddsAll element.site { scope := { known := registry.parameters } } kinds list
    ∧ list.demixing = element.demixing ∧ list.reconGain = element.reconGain
    ∧ list.defaultWeight = element.defaultWeight ∧ list.scope.pending = definitions

/-- Reads the layers of an element of any kind. -/
def readLayers (kind : ElementKind) (substreamCount : Nat) : Read (List Layer) :=
  match kind with
  | .channel => readScalable substreamCount
  | .scene => readAmbisonics substreamCount
  | .reserved _ => do
    skipConfig
    return []

/-- The element that its parts make up. -/
def ofParts (registry : Registry) (id : UInt32) (kind : ElementKind) (config : CodecConfig)
    (substreams : List Substream) (list : ParameterList) (layers : List Layer) : AudioElement :=
  ({ id, kind
     codecConfig := config.id
     substreams, layers
     demixing := list.demixing
     reconGain := list.reconGain
     defaultWeight := list.defaultWeight } : AudioElement).numberFrom registry.streamCount

theorem readContents_eq (mode : ReadMode) (registry : Registry) (id : UInt32)
    (kind : ElementKind) (config : CodecConfig) :
    readContents mode registry id kind config = (do
      let count ← Leb128.read
      mode.checkCount count.toNat "audio substream ids"
      let substreams ← Read.times count.toNat (readSubstream config)
      let parameterCount ← Leb128.read
      ensure (parameterCount = 0 ∨ kind = .channel)
        (.invalidData (.parametersOnElement parameterCount kind id))
      let list ← Read.iterate (readParameter mode id
          { element := some id, frameSize := substreams.head?.map (·.frameSize) })
        parameterCount.toNat { scope := { known := registry.parameters } }
      let layers ← readLayers kind substreams.length
      Read.finish .audioElement mode.strict
      return (ofParts registry id kind config substreams list layers, list.scope.pending)) := by
  cases kind <;> simp only [readContents, readLayers, ofParts, bind_assoc, pure_bind]

theorem readLayers_eq_ok {element : AudioElement} {reader after : Reader}
    (h : readLayers element.kind element.substreams.length reader = .ok (element.layers, after)) :
    element.HasReadableLayers := by
  rw [HasReadableLayers]
  cases hkind : element.kind with
  | channel =>
    rw [hkind] at h
    exact readScalable_eq_ok h
  | scene =>
    rw [hkind] at h
    exact readAmbisonics_eq_ok h
  | reserved code =>
    rw [hkind] at h
    simp only [readLayers, Read.bind_eq_ok, Read.pure_eq_ok, Prod.mk.injEq] at h
    obtain ⟨_, _, -, hnil, -⟩ := h
    exact hnil

/-- Layers that were read take all substreams; only a scene may be without. -/
theorem layeredCount_of_readLayers {kind : ElementKind} {substreamCount : Nat}
    {reader after : Reader} {layers : List Layer}
    (h : readLayers kind substreamCount reader = .ok (layers, after))
    (hlayers : kind = .channel ∨ layers ≠ []) : layeredCount layers = substreamCount := by
  cases kind with
  | channel => exact layeredCount_of_readScalable h
  | scene =>
    obtain ⟨layer, hmem⟩ := List.exists_mem_of_ne_nil layers (hlayers.resolve_left (by simp))
    obtain ⟨rfl, hscene⟩ := readAmbisonics_eq_ok h layer hmem
    cases hscene <;> assumption
  | reserved code =>
    simp only [readLayers, Read.bind_eq_ok, Read.pure_eq_ok, Prod.mk.injEq] at h
    obtain ⟨_, _, -, hnil, -⟩ := h
    exact absurd hnil (hlayers.resolve_left (by simp))

theorem readContents_eq_ok {mode : ReadMode} {registry : Registry} {id : UInt32}
    {kind : ElementKind} {config : CodecConfig} {reader after : Reader}
    {element : AudioElement} {definitions : List Parameter}
    (h : readContents mode registry id kind config reader = .ok ((element, definitions), after)) :
    element.id = id ∧ element.kind = kind ∧ ∃ kinds last, readListing reader = .ok (kinds, last)
      ∧ element.IsContents registry config kinds definitions := by
  simp only [readContents_eq, Read.bind_eq_ok, Read.ensure_eq_ok, Read.pure_eq_ok,
    Prod.mk.injEq] at h
  obtain ⟨count, _, hcount, _, _, hcheck, substreams, _, hsubstreams, parameterCount, _,
    hparameterCount, _, _, ⟨hchannel, -, rfl⟩, list, _, hlist, layers, _, hlayers, _, _, -,
    ⟨rfl, rfl⟩, -⟩ := h
  -- The element of the parts is the raw one: numbered, but not shared out yet.
  cases Parameter.checkCount_eq_ok hcheck
  have hraw := map_ofConfig_eq hsubstreams
  have hsite : (ofParts registry id kind config substreams list layers).site
      = { element := some id, frameSize := substreams.head?.map (·.frameSize) } := by
    rw [site, frameSize?_eq, ofParts, numberFrom_map _ _ fun _ _ => rfl, List.head?_map]
    rfl
  have hlength : (ofParts registry id kind config substreams list layers).substreams.length
      = substreams.length := numberFrom_length _ _
  rw [← hlength] at hlayers
  obtain ⟨kinds, hkinds, hadds⟩ := iterate_readParameter_eq_ok hlist
  obtain ⟨ids, hids⟩ :=
    Read.times_eq_ok_of (fun _ _ _ hread => (readSubstream_eq_ok hread).2) hsubstreams
  refine ⟨rfl, rfl, kinds, _, Read.bind_eq_ok.2 ⟨count, _, hcount, Read.bind_eq_ok.2 ⟨ids, _,
    hids, Read.bind_eq_ok.2 ⟨parameterCount, _, hparameterCount, hkinds⟩⟩⟩,
    ⟨rfl, ?_, ?_, readLayers_eq_ok hlayers, layeredCount_of_readLayers hlayers, ?_,
      list, ?_, rfl, rfl, rfl, rfl⟩⟩
  · rw [ofParts, unassigned_numberFrom, unassigned, hraw]
  · rw [ofParts, numberFrom_length, (Read.times_eq_ok hsubstreams).1]
    exact count.toNat_lt
  -- Without a listed parameter the list is the empty one it started from.
  · intro hparameters
    refine hchannel.resolve_left fun hzero => hparameters ?_
    rw [hzero] at hlist
    simp only [UInt32.toNat_zero, Read.iterate, Except.ok.injEq, Prod.mk.injEq] at hlist
    obtain ⟨rfl, -⟩ := hlist
    rfl
  · rw [hsite]
    exact hadds

/-- The parameters of an element, one of either kind at most. -/
theorem mem_parameters {element : AudioElement} {definition : Parameter} :
    definition ∈ element.parameters
      ↔ definition ∈ element.demixing ∨ definition ∈ element.reconGain := by
  simp [parameters]

/-- All definitions of an element that was read were allowed. -/
theorem Readable.allows {registry : Registry} {element : AudioElement} {definition : Parameter}
    (h : element.Readable registry) (hmem : definition ∈ element.parameters) :
    Scope.Allows { known := registry.parameters } element.site definition := by
  rcases mem_parameters.1 hmem with hdemixing | hreconGain
  · exact (h.demixing definition hdemixing).2
  · exact (h.reconGain definition hreconGain).2

/-- What a body said of an element before its substreams were shared out. -/
structure IsReadFrom (registry : Registry) (body : Bytes) (config : CodecConfig)
    (kinds : List (Option ParameterKind)) (definitions : List Parameter) (raw : AudioElement) :
    Prop extends raw.IsContents registry config kinds definitions where
  fresh : registry.audioElement? raw.id = none
  kind : ∃ head : UInt8, raw.kind = ElementKind.ofCode (head >>> 5)
  found : registry.codecConfig? config.id = some config
  known : ∀ fourCC, config.codec ≠ .unknown fourCC
  listed : readListedKinds.parse "audio element" body = .ok kinds

/-- A body is read field by field up to the codec config; then come the contents, whose
substreams are shared out. -/
theorem exists_contents_of_parse {mode : ReadMode} {registry : Registry} {body : Bytes}
    {element : AudioElement} {definitions : List Parameter}
    (h : parse mode registry body = .ok (some (element, definitions))) :
    ∃ id first head second config third raw last,
      Leb128.read (Reader.ofBytes "audio element" body) = .ok (id, first)
      ∧ registry.audioElement? id = none
      ∧ Read.byte first = .ok (head, second)
      ∧ Leb128.read second = .ok (config.id, third)
      ∧ registry.codecConfig? config.id = some config
      ∧ (∀ fourCC, config.codec ≠ .unknown fourCC)
      ∧ readContents mode registry id (ElementKind.ofCode (head >>> 5)) config third
        = .ok ((raw, definitions), last)
      ∧ raw.assignSubstreams config = .ok element := by
  rw [parse, Read.parse_eq_ok] at h
  obtain ⟨after, h⟩ := h
  simp only [read, Read.bind_eq_ok, Read.ensure_eq_ok] at h
  obtain ⟨id, _, hid, _, _, ⟨hfresh, -, rfl⟩, head, _, hhead, configId, third, hconfigId, h⟩ := h
  cases hconfig : registry.codecConfig? configId with
  | none => exact absurd h (by simp [hconfig, Read.throw_eq_ok])
  | some config =>
    obtain rfl : config.id = configId := by simpa using List.find?_some hconfig
    have hknown : ∀ fourCC, config.codec ≠ .unknown fourCC := by
      intro fourCC hcodec
      simp [hconfig, hcodec, Read.pure_eq_ok] at h
    -- All known codecs go on alike; only for an unknown one nothing is read.
    have hcontents : ∃ raw last, readContents mode registry id
          (ElementKind.ofCode (head >>> 5)) config third = .ok ((raw, definitions), last)
        ∧ raw.assignSubstreams config = .ok element := by
      cases hcodec : config.codec with
      | unknown fourCC => exact absurd hcodec (hknown fourCC)
      | _ =>
        simp only [hconfig, hcodec, Read.bind_eq_ok, Read.pure_eq_ok, Prod.mk.injEq,
          Option.some.injEq] at h
        obtain ⟨⟨raw, brought⟩, _, hcontents, _, _, hassigned, ⟨rfl, rfl⟩, -⟩ := h
        obtain ⟨_, houtcome, heq⟩ := Read.liftExcept_eq_ok.1 hassigned
        cases heq
        exact ⟨raw, _, hcontents, houtcome⟩
    obtain ⟨raw, last, hcontents, hassigned⟩ := hcontents
    exact ⟨id, _, head, _, config, third, raw, last, hid, hfresh, hhead, hconfigId, hconfig, hknown,
      hcontents, hassigned⟩

/-- An element that was parsed was read, and its substreams were shared out. -/
theorem exists_isReadFrom {mode : ReadMode} {registry : Registry} {body : Bytes}
    {element : AudioElement} {definitions : List Parameter}
    (h : parse mode registry body = .ok (some (element, definitions))) :
    ∃ config kinds, ∃ raw : AudioElement, raw.IsReadFrom registry body config kinds definitions
      ∧ raw.assignSubstreams config = .ok element := by
  obtain ⟨id, _, head, _, config, third, raw, _, hid, hfresh, hhead, hconfigId, hconfig, hknown,
    hcontents, hassigned⟩ := exists_contents_of_parse h
  obtain ⟨rfl, hkind, kinds, last, hlisting, hraw⟩ := readContents_eq_ok hcontents
  have hlisted : readListedKinds.parse "audio element" body = .ok kinds :=
    Read.parse_eq_ok.2 ⟨last, Read.bind_eq_ok.2 ⟨_, _, hid, Read.bind_eq_ok.2 ⟨head, _, hhead,
      Read.bind_eq_ok.2 ⟨config.id, third, hconfigId, hlisting⟩⟩⟩⟩
  exact ⟨config, kinds, raw, ⟨hraw, hfresh, ⟨head, hkind⟩, hconfig, hknown, hlisted⟩, hassigned⟩

section

variable {registry : Registry} {body : Bytes} {config : CodecConfig}
  {kinds : List (Option ParameterKind)} {definitions : List Parameter} {raw : AudioElement}
  {substreams : List Substream}

/-- Frame sizes are all that the parameters of an element see of its substreams. -/
theorem site_of_map_frameSize
    (h : substreams.map (·.frameSize) = raw.substreams.map (·.frameSize)) :
    ({ raw with substreams } : AudioElement).site = raw.site := by
  simp only [site, frameSize?_eq, h]

theorem HasReadableLayers.of_length (h : raw.HasReadableLayers)
    (hlength : substreams.length = raw.substreams.length) :
    ({ raw with substreams } : AudioElement).HasReadableLayers := by
  simp only [HasReadableLayers, hlength] at h ⊢
  exact h

/-- Sharing out the substreams of what was read makes a readable element. -/
theorem IsReadFrom.readable {element : AudioElement}
    (h : raw.IsReadFrom registry body config kinds definitions)
    (hassigned : raw.assignSubstreams config = .ok element) : element.Readable registry := by
  -- The registered element differs from the raw one in its substreams only.
  have hassigned' := hassigned
  obtain ⟨substreams, rfl, hids, -, hsizes⟩ := assignSubstreams_eq_ok hassigned
  obtain ⟨list, hadds, hdemixing, hreconGain, hweight, rfl⟩ := h.parameters
  have hfits := (ParameterList.Fits.start registry.parameters raw.site).addsAll hadds
  have hsite := site_of_map_frameSize hsizes
  have hlength : substreams.length = raw.substreams.length := by
    simpa using congrArg List.length hids
  obtain ⟨head, hkind⟩ := h.kind
  exact {
    fresh := h.fresh
    code := by
      show raw.kind.code.toNat < 8 ∧ ElementKind.ofCode raw.kind.code = raw.kind
      rw [hkind]
      exact toNat_shiftRight_five_ofCode head
    assigned := by
      refine ⟨config, ?_, h.known, ?_⟩
      · show registry.codecConfig? raw.codecConfig = some config
        rw [h.codecConfig, h.found]
      · rw [unassigned_eq_of_map_id config hids, ← h.substreams]
        exact hassigned'
    count := hlength ▸ h.count
    channel := h.channel
    demixing := by
      show ∀ definition ∈ raw.demixing, _
      rw [hsite, ← hdemixing]
      exact fun definition hmem =>
        ⟨hfits.demixing.kind definition hmem, hfits.demixing.allowed definition hmem⟩
    reconGain := by
      show ∀ definition ∈ raw.reconGain, _
      rw [hsite, ← hreconGain]
      exact fun definition hmem =>
        ⟨hfits.reconGain.kind definition hmem, hfits.reconGain.allowed definition hmem⟩
    weight := by
      show raw.defaultWeight.toNat < 16 ∧ (raw.demixing = none → raw.defaultWeight = 0)
      rw [← hdemixing, ← hweight]
      exact hfits.weight
    layers := h.layers.of_length hlength }

/-- What was read brings its definitions, and just those that it embeds if no kind
was listed twice. -/
theorem IsReadFrom.brings {element : AudioElement}
    (h : raw.IsReadFrom registry body config kinds definitions)
    (hassigned : raw.assignSubstreams config = .ok element) :
    element.Brings registry body definitions := by
  obtain ⟨substreams, rfl, -, -, hsizes⟩ := assignSubstreams_eq_ok hassigned
  obtain ⟨list, hadds, hdemixing, hreconGain, -, rfl⟩ := h.parameters
  have hstart := ParameterList.Fits.start registry.parameters raw.site
  have hfits := hstart.addsAll hadds
  refine ⟨hfits.base ▸ hfits.sound.acceptable, hfits.sound.nodup,
    site_of_map_frameSize hsizes ▸ hfits.pending, fun definition hmem => ?_, fun honce => ?_⟩
  · rcases mem_parameters.1 hmem with hmem | hmem
    · exact hfits.demixing.covered definition (hdemixing ▸ hmem)
    · exact hfits.reconGain.covered definition (hreconGain ▸ hmem)
  · obtain ⟨hdemixingOnce, hreconGainOnce⟩ := honce kinds h.listed
    have hexact : ParameterList.IsExact { scope := { known := registry.parameters } } :=
      .refl _
    have hperm := hexact.addsAll hstart hadds hdemixingOnce hreconGainOnce
    rw [ParameterList.IsExact, hdemixing, hreconGain] at hperm
    exact hperm

end

/-- An element that was read is readable, and what it brought can be merged. -/
theorem parse_eq_ok {mode : ReadMode} {registry : Registry} {body : Bytes}
    {element : AudioElement} {definitions : List Parameter}
    (h : parse mode registry body = .ok (some (element, definitions))) :
    element.Readable registry ∧ element.Brings registry body definitions := by
  obtain ⟨config, kinds, raw, hread, hassigned⟩ := exists_isReadFrom h
  exact ⟨hread.readable hassigned, hread.brings hassigned⟩

end AudioElement

end Iamf
