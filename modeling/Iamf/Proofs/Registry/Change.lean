import Iamf.Proofs.Element.Readable
import Iamf.Proofs.Mix.Readable

/-!
# `Iamf.Proofs.Registry.Change`: what an operation can do to a registry

Four operations change a registry, two of which build a descriptor from bytes
and from a model. `Change` lists what can come of any of them, each outcome
with everything that was checked on the way, so that an invariant is looked at
once per outcome and never again at the operations.

* `change_perform`: an operation changes a registry in one of these ways,
  whether it succeeds or fails.
-/

set_option autoImplicit false

namespace Iamf.Registry

open Parameter (Acceptable Covers)

/-- One thing that a caller can do with a registry. -/
inductive Operation where
  /-- Registering a codec config. -/
  | addCodecConfig (config : CodecConfig)
  /-- Registering an audio element. -/
  | addAudioElement (element : AudioElement)
  /-- Registering a mix presentation. -/
  | addMixPresentation (mix : MixPresentation)
  /-- Reading the body of a descriptor. -/
  | parseDescriptor (mode : ReadMode) (kind : Obu.Kind) (body : Bytes)
  deriving DecidableEq, Repr

/-- The program of an operation. -/
def Operation.program : Operation → Update Unit
  | addCodecConfig config => Registry.addCodecConfig config
  | addAudioElement element => Registry.addAudioElement element
  | addMixPresentation mix => Registry.addMixPresentation mix
  | parseDescriptor mode kind body => Registry.parseDescriptor mode kind body

/-- The registry that a program leaves, whether it succeeds or fails. -/
def left {α : Type} (program : Update α) (registry : Registry) : Registry :=
  match program registry with
  | .ok _ after => after
  | .error _ after => after

/-- The registry after an operation. -/
def perform (registry : Registry) (operation : Operation) : Registry :=
  left operation.program registry

/-- The registry after some operations on an empty one. -/
def performAll (operations : List Operation) : Registry :=
  operations.foldl perform .empty

/-- An element that can be registered with these definitions. -/
structure AdmitsElement (registry : Registry) (element : AudioElement)
    (definitions : List Parameter) : Prop where
  fresh : registry.audioElement? element.id = none
  codecConfig : (registry.codecConfig? element.codecConfig).isSome
  numbered : element.substreams.map (·.streamIndex)
    = List.range' registry.streamCount element.substreams.length
  nodup : (element.substreams.map (·.id)).Nodup
  untaken : ∀ substream ∈ element.substreams, registry.substream? substream.id = none
  acceptable : Acceptable registry.parameters definitions
  covered : ∀ definition ∈ element.parameters,
    ∃ latest ∈ definitions, latest.Agrees definition

/-- A mix presentation that can be registered with these definitions. -/
structure AdmitsMix (registry : Registry) (mix : MixPresentation)
    (definitions : List Parameter) : Prop where
  fresh : registry.mixPresentation? mix.id = none
  elements : ∀ member ∈ mix.elements, (registry.audioElement? member.element).isSome
  acceptable : Acceptable registry.parameters definitions
  covered : ∀ definition ∈ mix.parameters, ∃ latest ∈ definitions, latest.Agrees definition

/-- What an operation can do to a registry. -/
inductive Change (registry : Registry) : Registry → Prop where
  | nothing : Change registry registry
  | sequenceHeader (header : SequenceHeader) :
      Change registry { registry with sequenceHeader := some header }
  | codecConfig (config : CodecConfig) (fresh : registry.codecConfig? config.id = none) :
      Change registry { registry with codecConfigs := registry.codecConfigs ++ [config] }
  | audioElement (element : AudioElement) (definitions : List Parameter)
      (admits : registry.AdmitsElement element definitions) :
      Change registry { registry.mergeParameters definitions with
        audioElements := registry.audioElements ++ [element] }
  | mixPresentation (mix : MixPresentation) (definitions : List Parameter)
      (admits : registry.AdmitsMix mix definitions) :
      Change registry { registry.mergeParameters definitions with
        mixPresentations := registry.mixPresentations ++ [mix] }

/-! ### Running programs -/

/-- A program that goes on from an outcome leaves the registry alone if that is a failure. -/
theorem left_lift_bind {α : Type} {motive : Registry → Prop} {outcome : Except Error α}
    {next : α → Update Unit} {registry : Registry} (hfailed : motive registry)
    (h : ∀ value, outcome = .ok value → motive (left (next value) registry)) :
    motive (left (liftExcept outcome >>= next) registry) := by
  cases houtcome : outcome with
  | error error => exact hfailed
  | ok value => exact h value houtcome

theorem change_lift_bind {α : Type} {outcome : Except Error α} {next : α → Update Unit}
    {registry : Registry}
    (h : ∀ value, outcome = .ok value → Change registry (left (next value) registry)) :
    Change registry (left (liftExcept outcome >>= next) registry) :=
  left_lift_bind (motive := Change registry) .nothing h

/-- A program that starts with a look at the registry. -/
theorem left_get_bind {α : Type} (next : Registry → Update α) (registry : Registry) :
    left (get >>= next) registry = left (next registry) registry := rfl

theorem change_addCodecConfig (registry : Registry) (config : CodecConfig) :
    Change registry (left (addCodecConfig config) registry) := by
  rw [addCodecConfig, left_get_bind]
  by_cases hfresh : registry.codecConfig? config.id = none
  · rw [ensure_of hfresh]
    exact .codecConfig config hfresh
  · rw [ensure, if_neg hfresh]
    exact .nothing

/-! ### Elements -/

/-- How often an id occurs among those of some substreams. -/
theorem count_map_id (substreams : List Substream) (id : UInt32) :
    (substreams.map (·.id)).count id = (substreams.filter (·.id = id)).length := by
  rw [List.count_eq_countP, List.countP_map, List.countP_eq_length_filter]
  rfl

/-- Ids that each occur once are distinct. -/
theorem nodup_of_count {substreams : List Substream}
    (h : ∀ substream ∈ substreams,
      (substreams.filter (·.id = substream.id)).length ≤ 1) :
    (substreams.map (·.id)).Nodup := by
  rw [List.nodup_iff_count_le_one]
  intro id
  by_cases hmem : id ∈ substreams.map (·.id)
  · obtain ⟨substream, hsubstream, rfl⟩ := List.mem_map.1 hmem
    rw [count_map_id]
    exact h substream hsubstream
  · rw [List.count_eq_zero_of_not_mem hmem]
    exact Nat.zero_le 1

/-- A substream is free if the registry has no substream of its id, and the
element no other one. -/
theorem isTaken_eq_false {registry : Registry} {element : AudioElement} {substream : Substream} :
    registry.isTaken element substream = false
      ↔ registry.substream? substream.id = none
        ∧ (element.substreams.filter (·.id = substream.id)).length ≤ 1 := by
  simp [isTaken]

/-- Registering an element, once it has been prepared or read. -/
theorem change_commitAudioElement {registry : Registry} {element : AudioElement}
    {definitions : List Parameter} (hfresh : registry.audioElement? element.id = none)
    (hconfig : (registry.codecConfig? element.codecConfig).isSome)
    (hnumbered : element.substreams.map (·.streamIndex)
      = List.range' registry.streamCount element.substreams.length)
    (hacceptable : Acceptable registry.parameters definitions)
    (hcovered : ∀ definition ∈ element.parameters,
      ∃ latest ∈ definitions, latest.Agrees definition) :
    Change registry (left (commitAudioElement element definitions) registry) := by
  rw [commitAudioElement, left_get_bind]
  cases hfind : element.substreams.find? (registry.isTaken element) with
  -- A taken id makes the operation fail before anything is changed.
  | some substream => exact .nothing
  | none =>
    have hfree : ∀ substream ∈ element.substreams, registry.substream? substream.id = none
        ∧ (element.substreams.filter (·.id = substream.id)).length ≤ 1 := by
      intro substream hmem
      exact isTaken_eq_false.1 (by simpa using List.find?_eq_none.1 hfind substream hmem)
    exact .audioElement element definitions ⟨hfresh, hconfig, hnumbered,
      nodup_of_count fun substream hmem => (hfree substream hmem).2,
      fun substream hmem => (hfree substream hmem).1, hacceptable, hcovered⟩

/-- Sharing out the substreams of a numbered element leaves them numbered. -/
theorem map_streamIndex_of_assigned {element assigned : AudioElement} {config : CodecConfig}
    {first : Nat} (h : (element.numberFrom first).assignSubstreams config = .ok assigned) :
    assigned.substreams.map (·.streamIndex)
      = List.range' first assigned.substreams.length := by
  obtain ⟨substreams, rfl, hids, hindices, -⟩ := AudioElement.assignSubstreams_eq_ok h
  have hlength : substreams.length = element.substreams.length := by
    have hmap := congrArg List.length hids
    rwa [List.length_map, List.length_map, AudioElement.numberFrom_length] at hmap
  show substreams.map (·.streamIndex) = List.range' first substreams.length
  rw [hindices, AudioElement.numberFrom_map_streamIndex, hlength]

theorem change_parseAudioElement (registry : Registry) (mode : ReadMode) (body : Bytes) :
    Change registry (left (parseDescriptor mode .audioElement body) registry) := by
  rw [parseDescriptor, left_get_bind]
  refine change_lift_bind fun parsed hparse => ?_
  cases parsed with
  | none => exact .nothing
  | some pair =>
    obtain ⟨element, definitions⟩ := pair
    obtain ⟨hreadable, hbrings⟩ := AudioElement.parse_eq_ok hparse
    obtain ⟨config, hconfig, -, hassigned⟩ := hreadable.assigned
    refine change_commitAudioElement hreadable.fresh ?_ (map_streamIndex_of_assigned hassigned)
      hbrings.acceptable ?_
    · rw [hconfig]
      rfl
    · intro definition hmem
      obtain ⟨latest, hfind, hagrees⟩ := hbrings.covered definition hmem
      exact ⟨latest, List.mem_of_find?_eq_some hfind, hagrees⟩

/-- How an element is prepared: it is of a new id, with a known config, well formed,
and what comes of it agrees with the parameters of the registry. -/
theorem prepareAudioElement_cases {registry : Registry} {element prepared : AudioElement}
    (h : registry.prepareAudioElement element = .ok prepared) :
    registry.audioElement? element.id = none ∧ element.validate = .ok ()
      ∧ ∃ config assigned, registry.codecConfig? element.codecConfig = some config
        ∧ element.assignSubstreams config = .ok assigned
        ∧ prepared = (assigned.numberFrom registry.streamCount).linkParameters
        ∧ Acceptable registry.parameters prepared.parameters := by
  rw [prepareAudioElement, outcome_bind_eq_ok] at h
  obtain ⟨_, hfresh, h⟩ := h
  rw [outcome_ensure_eq_ok] at hfresh
  cases hconfig : registry.codecConfig? element.codecConfig with
  | none => exact absurd h (by simp [hconfig, outcome_throw_eq_ok])
  | some config =>
    simp only [hconfig, outcome_bind_eq_ok, outcome_pure_eq_ok] at h
    obtain ⟨_, hvalid, assigned, hassigned, _, hcheck, rfl⟩ := h
    exact ⟨hfresh, hvalid, config, assigned, rfl, hassigned, rfl,
      acceptable_of_checkParameters hcheck⟩

/-- What a prepared element is: of a new id, with a known config, numbered behind
the substreams of the registry, and with parameters that agree. -/
theorem prepareAudioElement_eq_ok {registry : Registry} {element prepared : AudioElement}
    (h : registry.prepareAudioElement element = .ok prepared) :
    registry.audioElement? prepared.id = none
      ∧ (registry.codecConfig? prepared.codecConfig).isSome
      ∧ prepared.substreams.map (·.streamIndex)
        = List.range' registry.streamCount prepared.substreams.length
      ∧ Acceptable registry.parameters prepared.parameters := by
  obtain ⟨hfresh, -, config, assigned, hconfig, hassigned, rfl, hacceptable⟩ :=
    prepareAudioElement_cases h
  obtain ⟨substreams, rfl, -⟩ := AudioElement.assignSubstreams_eq_ok hassigned
  -- Sharing out, numbering and linking leave the id and the config as they were.
  refine ⟨hfresh, ?_, ?_, hacceptable⟩
  · show (registry.codecConfig? element.codecConfig).isSome
    rw [hconfig]
    rfl
  · have hnumbers := AudioElement.numberFrom_map_streamIndex { element with substreams }
      registry.streamCount
    have hlength := AudioElement.numberFrom_length { element with substreams }
      registry.streamCount
    rw [← hlength] at hnumbers
    exact hnumbers

theorem change_addAudioElement (registry : Registry) (element : AudioElement) :
    Change registry (left (addAudioElement element) registry) := by
  rw [addAudioElement, left_get_bind]
  refine change_lift_bind fun prepared hprepare => ?_
  obtain ⟨hfresh, hconfig, hnumbered, hacceptable⟩ := prepareAudioElement_eq_ok hprepare
  exact change_commitAudioElement hfresh hconfig hnumbered hacceptable
    fun definition hmem => ⟨definition, hmem, .refl definition⟩

/-! ### Mix presentations -/

/-- Registering a presentation, once it has been prepared or read. -/
theorem change_commitMixPresentation {registry : Registry} {mix : MixPresentation}
    {definitions : List Parameter} (h : registry.AdmitsMix mix definitions) :
    Change registry (left (commitMixPresentation mix definitions) registry) :=
  .mixPresentation mix definitions h

/-- Linking the gains of a presentation changes none of its references. -/
theorem map_element_linkParameters (mix : MixPresentation) :
    mix.linkParameters.elements.map (·.element) = mix.elements.map (·.element) := by
  simp only [MixPresentation.elements, MixPresentation.linkParameters, List.map_flatMap,
    List.flatMap_map, List.map_map, Function.comp_def]

/-- A prepared presentation can be registered with its own parameters. -/
theorem prepareMixPresentation_eq_ok {registry : Registry} {mix prepared : MixPresentation}
    (h : registry.prepareMixPresentation mix = .ok prepared) :
    registry.AdmitsMix prepared prepared.parameters := by
  rw [prepareMixPresentation, outcome_bind_eq_ok] at h
  obtain ⟨_, hfresh, h⟩ := h
  rw [outcome_ensure_eq_ok] at hfresh
  cases hmissing : mix.elements.find? fun member =>
      registry.audioElement? member.element = none with
  | some member => exact absurd h (by simp [hmissing, outcome_throw_eq_ok])
  | none =>
    simp only [hmissing, outcome_bind_eq_ok, outcome_pure_eq_ok] at h
    obtain ⟨_, hcheck, rfl⟩ := h
    refine ⟨hfresh, ?_, acceptable_of_checkParameters hcheck,
      fun definition hmem => ⟨definition, hmem, .refl definition⟩⟩
    intro member hmem
    -- The references were checked before the gains were linked.
    have href : member.element ∈ mix.elements.map (·.element) :=
      map_element_linkParameters mix ▸ List.mem_map_of_mem hmem
    obtain ⟨original, horiginal, heq⟩ := List.mem_map.1 href
    have hfound := List.find?_eq_none.1 hmissing original horiginal
    rw [← heq, Option.isSome_iff_ne_none]
    simpa using hfound

theorem change_addMixPresentation (registry : Registry) (mix : MixPresentation) :
    Change registry (left (addMixPresentation mix) registry) := by
  rw [addMixPresentation, left_get_bind]
  exact change_lift_bind fun _ hprepare =>
    change_commitMixPresentation (prepareMixPresentation_eq_ok hprepare)

theorem change_parseMixPresentation (registry : Registry) (mode : ReadMode) (body : Bytes) :
    Change registry (left (parseDescriptor mode .mixPresentation body) registry) := by
  rw [parseDescriptor, left_get_bind]
  refine change_lift_bind fun pair hparse => ?_
  obtain ⟨mix, definitions⟩ := pair
  obtain ⟨hreadable, rfl⟩ := MixPresentation.parse_eq_ok hparse
  have hsound := (Scope.sound_of_known registry.parameters).storeAll hreadable.allowed
  have hacceptable := hsound.acceptable
  rw [Scope.known_storeAll] at hacceptable
  refine change_commitMixPresentation ⟨hreadable.fresh, ?_, hacceptable, ?_⟩
  · intro member hmem
    obtain ⟨submix, hsubmix, hmember⟩ := List.mem_flatMap.1 hmem
    exact ((hreadable.submixes submix hsubmix).elements member hmember).resolved
  · intro definition hmem
    -- What is pending of an id may come from a later element of the presentation.
    rw [← MixPresentation.map_fst_placed registry, List.mem_map] at hmem
    obtain ⟨placed, hplaced, rfl⟩ := hmem
    obtain ⟨latest, hfind, hagrees⟩ := Scope.covers_storeAll hreadable.allowed hplaced
    exact ⟨latest, List.mem_of_find?_eq_some hfind, hagrees⟩

/-! ### Operations -/

theorem change_parseDescriptor (registry : Registry) (mode : ReadMode) (kind : Obu.Kind)
    (body : Bytes) : Change registry (left (parseDescriptor mode kind body) registry) := by
  cases kind with
  | audioElement => exact change_parseAudioElement registry mode body
  | mixPresentation => exact change_parseMixPresentation registry mode body
  | sequenceHeader =>
    rw [parseDescriptor, left_get_bind]
    exact change_lift_bind fun header _ => .sequenceHeader header
  | codecConfig =>
    rw [parseDescriptor, left_get_bind]
    exact change_lift_bind fun config _ => change_addCodecConfig registry config
  | _ => exact .nothing

/-- An operation changes a registry in one of the listed ways, whether it
succeeds or fails. -/
theorem change_perform (registry : Registry) (operation : Operation) :
    Change registry (registry.perform operation) := by
  cases operation with
  | addCodecConfig config => exact change_addCodecConfig registry config
  | addAudioElement element => exact change_addAudioElement registry element
  | addMixPresentation mix => exact change_addMixPresentation registry mix
  | parseDescriptor mode kind body => exact change_parseDescriptor registry mode kind body

end Iamf.Registry
