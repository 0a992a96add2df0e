import Iamf.Proofs.Element.Openable

/-!
# `Iamf.Proofs.Element.Shared`: which layer has taken which substream

A body lists the ids of all substreams first and the layers last, and nothing but their
order says which belong together. Each layer takes the next substreams, as many as it
says: none at all, if it says so. Of these the first ones are stereo; if a layer couples
more substreams than it takes, all of them are, and the next layer begins with its own
first one all the same.

* `Layer.IsShare`: what a layer makes of the substreams that it has taken.
* `AudioElement.forall₂_of_assignEach`: every substream gets the part that there is for it.
* `exists_runs_of_forall₂`: the parts of a layer are a run of them.
* `AudioElement.IsListedIn`: the front of a body, up to the ids of the substreams.
* `AudioElement.isSharedOut_of_parse`: an element that was read, substream by substream.
-/

set_option autoImplicit false

namespace Iamf

/-! ### Runs -/

/-- Values for the items of several lists fall into runs, one for each of the lists. -/
theorem exists_runs_of_forall₂ {α β γ : Type} {items : α → List β} {fits : β → γ → Prop}
    {owners : List α} :
    ∀ {values : List γ}, List.Forall₂ fits (owners.flatMap items) values →
      ∃ runs : List (List γ), values = runs.flatten
        ∧ List.Forall₂ (fun owner run => List.Forall₂ fits (items owner) run) owners runs := by
  induction owners with
  | nil =>
    intro values h
    cases h
    exact ⟨[], rfl, .nil⟩
  | cons owner owners ih =>
    intro values h
    rw [List.flatMap_cons] at h
    have hfirst := List.forall₂_take (items owner).length h
    have hothers := List.forall₂_drop (items owner).length h
    rw [List.take_left] at hfirst
    rw [List.drop_left] at hothers
    obtain ⟨runs, hruns, hfit⟩ := ih hothers
    refine ⟨values.take (items owner).length :: runs, ?_, .cons hfirst hfit⟩
    rw [List.flatten_cons, ← hruns, List.take_append_drop]

/-- What a layer makes of a substream that it has taken. -/
structure Substream.IsTaken (config : CodecConfig) (stereo : Bool) (substream : Substream) :
    Prop where
  channelLayout_eq : substream.channelLayout = if stereo then .stereo else .mono
  decoderConfig_eq : config.decoderConfigFor (if stereo then 2 else 1)
    = .ok substream.decoderConfig

/-- The substreams that a layer has taken: as many as it says, of which the first ones are
stereo. -/
structure Layer.IsShare (config : CodecConfig) (layer : Layer) (run : List Substream) :
    Prop where
  length_eq : run.length = layer.substreamCount.toNat
  taken : ∀ (offset : Nat) (substream : Substream), run[offset]? = some substream →
    substream.IsTaken config (decide (offset < layer.coupledCount.toNat))

theorem Layer.isShare_of_forall₂ {config : CodecConfig} {layer : Layer} {run : List Substream}
    (h : List.Forall₂ (Substream.IsTaken config) layer.stereoFlags run) :
    layer.IsShare config run := by
  have hlength : layer.stereoFlags.length = layer.substreamCount.toNat := by
    rw [stereoFlags, List.length_map, List.length_range]
  refine ⟨h.length_eq ▸ hlength, fun offset substream hsubstream => ?_⟩
  obtain ⟨hoffset, rfl⟩ := List.getElem?_eq_some_iff.1 hsubstream
  have htaken := h.get (h.length_eq ▸ hoffset) hoffset
  simp only [List.get_eq_getElem, stereoFlags, List.getElem_map, List.getElem_range] at htaken
  exact htaken

/-- What all substreams under a codec config have from it, and their places in a stream. -/
structure Substream.IsUnder (config : CodecConfig) (index : Nat) (substream : Substream) :
    Prop where
  codec_eq : substream.codec = config.codec
  frameSize_eq : substream.frameSize = config.frameSize
  sampleRate_eq : substream.sampleRate = config.sampleRate
  seekPreroll_eq : substream.seekPreroll = config.seekPreroll
  streamIndex_eq : substream.streamIndex = index

namespace AudioElement

/-- The front of the body of an element: its id, its kind, its codec config, the number of
its substreams, and their ids in order. -/
def IsListedIn (body : Bytes) (element : AudioElement) : Prop :=
  ∃ (id : Bytes) (head : UInt8) (codecConfig count : Bytes) (pieces : List Bytes) (rest : Bytes),
    body = id ++ head :: (codecConfig ++ (count ++ (pieces.flatten ++ rest)))
      ∧ Leb128.IsNumber id element.id
      ∧ ElementKind.ofCode (head >>> 5) = element.kind
      ∧ Leb128.IsNumber codecConfig element.codecConfig
      ∧ (∃ number, Leb128.IsNumber count number ∧ number.toNat = element.substreams.length)
      ∧ List.Forall₂ Leb128.IsNumber pieces (element.substreams.map (·.id))

/-- The layers cut the substreams into runs, in order, and each layer has taken its own. -/
def IsSharedOut (config : CodecConfig) (element : AudioElement) : Prop :=
  ∃ runs : List (List Substream), element.substreams = runs.flatten
    ∧ List.Forall₂ (Layer.IsShare config) element.layers runs

variable {config : CodecConfig} {raw element : AudioElement}

/-- Each substream gets the part that there is for it, as long as there are any. -/
theorem forall₂_of_assignEach {id : UInt32} {stereo : List Bool} :
    ∀ {substreams assigned : List Substream},
      assignEach id config stereo substreams = .ok assigned →
      List.Forall₂ (Substream.IsTaken config) stereo (assigned.take stereo.length) := by
  induction stereo with
  | nil => exact fun _ => .nil
  | cons first stereo ih =>
    intro substreams assigned h
    cases substreams with
    | nil => exact absurd h (by simp [assignEach, outcome_throw_eq_ok])
    | cons substream substreams =>
      simp only [assignEach, Substream.assign, outcome_bind_eq_ok, outcome_pure_eq_ok] at h
      obtain ⟨_, ⟨decoderConfig, hdecoder, rfl⟩, others, hothers, rfl⟩ := h
      exact .cons ⟨rfl, hdecoder⟩ (ih hothers)

/-- If the layers take all substreams, they share them out among them. -/
theorem isSharedOut_of_assignSubstreams (h : raw.assignSubstreams config = .ok element)
    (hlayered : layeredCount raw.layers = raw.substreams.length) :
    element.IsSharedOut config := by
  simp only [assignSubstreams, outcome_bind_eq_ok, outcome_pure_eq_ok] at h
  obtain ⟨substreams, hassigned, rfl⟩ := h
  have hids : substreams.map (·.id) = raw.substreams.map (·.id) :=
    map_of_assignEach (fun _ _ _ => rfl) hassigned
  have hlength : substreams.length = raw.substreams.length := by
    simpa using congrArg List.length hids
  have htaken := forall₂_of_assignEach hassigned
  rw [length_flatMap_stereoFlags, hlayered, ← hlength, List.take_length] at htaken
  obtain ⟨runs, hruns, hshares⟩ := exists_runs_of_forall₂ htaken
  exact ⟨runs, hruns, hshares.imp fun _ _ hshare => Layer.isShare_of_forall₂ hshare⟩

/-- What substreams had from their codec config before they were shared out, they have
afterwards. -/
theorem isUnder_of_assignSubstreams (h : raw.assignSubstreams config = .ok element) {first : Nat}
    (hraw : raw = (raw.unassigned config).numberFrom first) {place : Nat} {substream : Substream}
    (hplace : element.substreams[place]? = some substream) :
    substream.IsUnder config (first + place) := by
  simp only [assignSubstreams, outcome_bind_eq_ok, outcome_pure_eq_ok] at h
  obtain ⟨substreams, hassigned, rfl⟩ := h
  -- All but what a layer gives is looked at as a whole.
  have hkept : substreams.map (fun substream =>
        { substream with channelLayout := .mono, decoderConfig := [] })
      = raw.substreams.map fun substream =>
        { substream with channelLayout := .mono, decoderConfig := [] } :=
    map_of_assignEach (fun _ _ _ => rfl) hassigned
  have hsame := congrArg (·[place]?) hkept
  rw [hraw] at hsame
  simp only [List.getElem?_map, hplace, numberFrom, unassigned, List.getElem?_zipIdx,
    Option.map_map, Option.map_some] at hsame
  obtain ⟨before, -, hbefore⟩ := Option.map_eq_some_iff.1 hsame.symm
  simp only [Function.comp_apply, Substream.ofConfig, Substream.mk.injEq] at hbefore
  obtain ⟨-, hindex, hcodec, hframeSize, hsampleRate, hseekPreroll, -⟩ := hbefore
  rw [Nat.zero_add] at hindex
  exact ⟨hcodec.symm, hframeSize.symm, hsampleRate.symm, hseekPreroll.symm, hindex.symm⟩

theorem readSubstream_isNumber {subject : String} {bytes : Bytes} {substream : Substream}
    {after : Reader} (h : readSubstream config ⟨subject, [], bytes⟩ = .ok (substream, after)) :
    ∃ front rest, bytes = front ++ rest ∧ after = ⟨subject, [], rest⟩
      ∧ Leb128.IsNumber front substream.id := by
  simp only [readSubstream, Read.bind_eq_ok, Read.pure_eq_ok, Prod.mk.injEq] at h
  obtain ⟨id, _, hid, rfl, rfl⟩ := h
  exact Leb128.read_eq_ok hid

variable {mode : ReadMode} {registry : Registry} {body : Bytes} {definitions : List Parameter}

/-- The substreams of an element that was read are those that its body lists. -/
theorem isListedIn_of_parse (h : parse mode registry body = .ok (some (element, definitions))) :
    element.IsListedIn body := by
  obtain ⟨id, _, head, _, config, _, raw, _, hid, -, hhead, hconfig, -, -, hcontents, hassigned⟩ :=
    exists_contents_of_parse h
  obtain ⟨first, _, rfl, rfl, hfirst⟩ := Leb128.read_eq_ok hid
  obtain ⟨_, rfl, rfl⟩ := Read.byte_eq_ok hhead
  obtain ⟨second, _, rfl, rfl, hsecond⟩ := Leb128.read_eq_ok hconfig
  simp only [readContents_eq, Read.bind_eq_ok, Read.pure_eq_ok, Prod.mk.injEq] at hcontents
  obtain ⟨count, _, hcount, _, _, hcheck, substreams, _, hsubstreams, _, _, -, _, _, -, list, _, -,
    layers, _, -, _, _, -, ⟨rfl, -⟩, -⟩ := hcontents
  obtain ⟨third, _, rfl, rfl, hthird⟩ := Leb128.read_eq_ok hcount
  cases Parameter.checkCount_eq_ok hcheck
  have hcounted := (Read.times_eq_ok hsubstreams).1
  obtain ⟨pieces, rest, rfl, -, hpieces⟩ :=
    Read.exists_pieces_of_times readSubstream_isNumber hsubstreams
  -- Neither their places nor the layers change the ids.
  obtain ⟨shared, rfl, hids, -, -⟩ := assignSubstreams_eq_ok hassigned
  rw [ofParts, numberFrom_map _ _ fun _ _ => rfl] at hids
  have hlength := congrArg List.length hids
  rw [List.length_map, List.length_map] at hlength
  refine ⟨first, head, second, third, pieces, rest, rfl, hfirst, rfl, hsecond,
    ⟨count, hthird, hcounted.symm.trans hlength.symm⟩, ?_⟩
  rw [hids]
  exact List.forall₂_map_right_iff.2 hpieces

/-- An element that was read, of channels or a scene with a layer, has a codec config in
the registry, and its body lists its substreams by their ids. Its layers cut them into
runs: each takes the next ones, as many as it says, and makes those of them that it
couples stereo and the others mono, with the decoder configuration for two channels or for
one. All else they have from the codec config, and their places in the stream follow
those that there are. -/
theorem isSharedOut_of_parse (h : parse mode registry body = .ok (some (element, definitions)))
    (hlayers : element.kind = .channel ∨ element.kind = .scene ∧ element.layers ≠ []) :
    element.IsListedIn body
      ∧ ∃ config, registry.codecConfig? element.codecConfig = some config
        ∧ element.IsSharedOut config
        ∧ ∀ (place : Nat) (substream : Substream), element.substreams[place]? = some substream →
          substream.IsUnder config (registry.streamCount + place) := by
  refine ⟨isListedIn_of_parse h, ?_⟩
  obtain ⟨config, kinds, raw, hread, hassigned⟩ := exists_isReadFrom h
  have hsame := hassigned
  obtain ⟨substreams, rfl, -⟩ := assignSubstreams_eq_ok hsame
  have hlayered := hread.layered (hlayers.imp_right And.right)
  exact ⟨config, hread.codecConfig ▸ hread.found,
    isSharedOut_of_assignSubstreams hassigned hlayered,
    fun _ _ hplace => isUnder_of_assignSubstreams hassigned hread.substreams hplace⟩

/-- A registry with an Opus config and an element of one substream under it. -/
def opusRegistry : Registry :=
  let config : CodecConfig := {
    id := 7
    codec := .opus
    frameSize := 960
    seekPreroll := -4
    sampleRate := CodecConfig.opusSampleRate
    decoderConfig := CodecConfig.opusMagic ++ [1, 2, 0x38, 0x01, 0x80, 0xBB, 0, 0, 0, 0, 0] }
  { codecConfigs := [config]
    audioElements :=
      [{ id := 0
         kind := .scene
         codecConfig := 7
         substreams := [.ofConfig 10 config]
         layers := [.monoScene [0] 1]
         demixing := none
         reconGain := none
         defaultWeight := 0 }] }

/-- An element of three layers: one of two substreams, the first of them stereo, one that
takes none but couples one, and one that takes one and couples three. -/
def unevenElement : Bytes :=
  [0x81, 0x00, 0x00, 0x07, 0x03, 20, 0x95, 0x01, 22, 0x00,
    0x60, 0x10, 0x02, 0x01, 0x20, 0x00, 0x01, 0x30, 0x01, 0x03]

/-- The element is read, and the layer in the middle takes nothing away from the last one. -/
theorem isSharedOut_of_parse_uneven :
    ∃ element definitions,
      parse {} opusRegistry unevenElement = .ok (some (element, definitions))
        ∧ element.kind = .channel
        ∧ element.substreams.map (fun substream =>
            (substream.id, substream.channelLayout, substream.decoderConfig.getD 9 0,
              substream.streamIndex))
          = [(20, .stereo, 2, 1), (149, .mono, 1, 2), (22, .stereo, 2, 3)]
        ∧ element.IsListedIn unevenElement
        ∧ ∃ config, opusRegistry.codecConfig? element.codecConfig = some config
          ∧ element.IsSharedOut config
          ∧ ∀ (place : Nat) (substream : Substream), element.substreams[place]? = some substream →
            substream.IsUnder config (opusRegistry.streamCount + place) := by
  have hread : (parse {} opusRegistry unevenElement).map (·.map fun read =>
      decide (read.1.kind = .channel ∧ read.1.substreams.map (fun substream =>
          (substream.id, substream.channelLayout, substream.decoderConfig.getD 9 0,
            substream.streamIndex))
        = [(20, .stereo, 2, 1), (149, .mono, 1, 2), (22, .stereo, 2, 3)]))
      = .ok (some true) := by decide +kernel
  obtain ⟨result, hresult, hfound⟩ := outcome_map_eq_ok.1 hread
  obtain ⟨⟨element, definitions⟩, rfl, hparts⟩ := Option.map_eq_some_iff.1 hfound
  obtain ⟨hkind, hsubstreams⟩ := of_decide_eq_true hparts
  obtain ⟨hlisted, hshared⟩ := isSharedOut_of_parse hresult (.inl hkind)
  exact ⟨element, definitions, hresult, hkind, hsubstreams, hlisted, hshared⟩

end AudioElement

end Iamf
