import Iamf.Proofs.Codec.Readable
import Iamf.Proofs.Registry.Traced
import Mathlib.Data.List.Infix

/-!
# `Iamf.Proofs.Registry.Recorded`: the stage at which every descriptor came

A descriptor is read against the descriptors before it, and these may come in
another order when the registry is written. So of every element and every
presentation it is recorded that it was readable at some stage, which had the
same elements, or the same presentations, before it. That is all that matters:
readability carries over to every other registry that is such a stage.

* `Recorded.registers`: reading a descriptor keeps the record.
* `AudioElement.Readable.carry`, `MixPresentation.Readable.carry`: from the
  stage of the record to another one.
-/

set_option autoImplicit false

namespace Iamf

/-! ### Items and those before them -/

/-- Each item is what is said of it and the items before it. -/
def Each {α : Type} (holds : List α → α → Prop) (items : List α) : Prop :=
  ∀ before item behind, items = before ++ item :: behind → holds before item

namespace Each

variable {α : Type} {holds other : List α → α → Prop} {items : List α}

theorem nil (holds : List α → α → Prop) : Each holds [] := by
  intro before item behind h
  exact absurd (congrArg List.length h) (by simp)

theorem imp (h : Each holds items) (himp : ∀ before item, holds before item → other before item) :
    Each other items :=
  fun before item behind heq => himp before item (h before item behind heq)

/-- One more item, behind all others. -/
theorem append_singleton {last : α} (h : Each holds items) (hlast : holds items last) :
    Each holds (items ++ [last]) := by
  intro before item behind heq
  rcases List.eq_nil_or_concat' behind with rfl | ⟨others, final, rfl⟩
  · obtain ⟨rfl, hitem⟩ := List.append_inj' heq rfl
    cases hitem
    exact hlast
  · rw [← List.cons_append, ← List.append_assoc] at heq
    exact h before item others (List.append_inj' heq rfl).1

end Each

namespace Registry

open Parameter (latest?)

/-! ### Stages -/

/-- A registry is a stage of another one, which has more descriptors behind those
of the first. -/
structure Within (stage registry : Registry) : Prop where
  codecConfigs : stage.codecConfigs <+: registry.codecConfigs
  audioElements : stage.audioElements <+: registry.audioElements
  mixPresentations : stage.mixPresentations <+: registry.mixPresentations

theorem Within.trans {first second third : Registry} (h : first.Within second)
    (h' : second.Within third) : first.Within third :=
  ⟨h.codecConfigs.trans h'.codecConfigs, h.audioElements.trans h'.audioElements,
    h.mixPresentations.trans h'.mixPresentations⟩

/-- Reading a descriptor leads to a later stage. -/
theorem Registers.within {mode : ReadMode} {registry after : Registry} {body : Bytes}
    {kind : Obu.Kind} (h : Registers mode registry body kind after) : registry.Within after := by
  cases h with
  | sequenceHeader | unsupported | other =>
    exact ⟨List.prefix_rfl, List.prefix_rfl, List.prefix_rfl⟩
  | codecConfig => exact ⟨List.prefix_append _ _, List.prefix_rfl, List.prefix_rfl⟩
  | audioElement => exact ⟨List.prefix_rfl, List.prefix_append _ _, List.prefix_rfl⟩
  | mixPresentation => exact ⟨List.prefix_rfl, List.prefix_rfl, List.prefix_append _ _⟩

/-- What is found at a stage is found later. -/
theorem find?_of_prefix {α : Type} {test : α → Bool} {items more : List α} {item : α}
    (h : items <+: more) (hfind : items.find? test = some item) :
    more.find? test = some item := by
  obtain ⟨others, rfl⟩ := h
  rw [List.find?_append, hfind, Option.some_or]

/-- For a parameter of elements only the elements of a stage matter. -/
theorem Traced.parameter?_element {stage registry : Registry} (h : stage.Traced)
    (hregistry : registry.Traced) (hwithin : stage.Within registry) {definition : Parameter}
    (hmem : definition ∈ registry.elementDefinitions) :
    stage.parameter? definition.id = latest? stage.elementDefinitions definition.id := by
  have hnone : latest? stage.mixDefinitions definition.id = none := by
    refine Parameter.latest?_eq_none fun other hother => ?_
    have hlater : other ∈ registry.mixDefinitions :=
      (List.IsPrefix.flatMap hwithin.mixPresentations _).subset hother
    exact (hregistry.ne hmem hlater).symm
  rw [h.latest, h.latest?_embedded, hnone, Option.or_none]

/-- For a parameter of presentations only the presentations of a stage matter. -/
theorem Traced.parameter?_mix {stage registry : Registry} (h : stage.Traced)
    (hregistry : registry.Traced) (hwithin : stage.Within registry) {definition : Parameter}
    (hmem : definition ∈ registry.mixDefinitions) :
    stage.parameter? definition.id = latest? stage.mixDefinitions definition.id := by
  have hnone : latest? stage.elementDefinitions definition.id = none := by
    refine Parameter.latest?_eq_none fun other hother => ?_
    have hlater : other ∈ registry.elementDefinitions :=
      (List.IsPrefix.flatMap hwithin.audioElements _).subset hother
    exact hregistry.ne hlater hmem
  rw [h.latest, h.latest?_embedded, hnone, Option.none_or]

/-! ### The record -/

/-- An element was readable at a stage that had these elements. -/
def RecordsElement (registry : Registry) (before : List AudioElement) (element : AudioElement) :
    Prop :=
  (element.parameters.map (·.id)).Nodup ∧ ∃ stage : Registry, stage.Traced
    ∧ stage.Within registry ∧ stage.audioElements = before ∧ element.Readable stage

/-- A presentation was readable at a stage that had these presentations. -/
def RecordsMix (registry : Registry) (before : List MixPresentation) (mix : MixPresentation) :
    Prop :=
  ∃ stage : Registry, stage.Traced ∧ stage.Within registry
    ∧ stage.mixPresentations = before ∧ mix.Readable stage

/-- A registry all of whose descriptors were readable at some stage. -/
structure Recorded (registry : Registry) : Prop where
  traced : registry.Traced
  codecConfigs : ∀ config ∈ registry.codecConfigs, config.Readable
  audioElements : Each registry.RecordsElement registry.audioElements
  mixPresentations : Each registry.RecordsMix registry.mixPresentations

theorem recorded_empty : Recorded .empty :=
  ⟨traced_empty, fun _ hmem => absurd hmem List.not_mem_nil, .nil _, .nil _⟩

variable {registry after : Registry}

theorem RecordsElement.mono {before : List AudioElement} {element : AudioElement}
    (h : registry.RecordsElement before element) (hwithin : registry.Within after) :
    after.RecordsElement before element := by
  obtain ⟨hnodup, stage, htraced, hstage, hbefore, hreadable⟩ := h
  exact ⟨hnodup, stage, htraced, hstage.trans hwithin, hbefore, hreadable⟩

theorem RecordsMix.mono {before : List MixPresentation} {mix : MixPresentation}
    (h : registry.RecordsMix before mix) (hwithin : registry.Within after) :
    after.RecordsMix before mix := by
  obtain ⟨stage, htraced, hstage, hbefore, hreadable⟩ := h
  exact ⟨stage, htraced, hstage.trans hwithin, hbefore, hreadable⟩

/-- Reading a descriptor keeps the record, unless it is an element that lists a
kind twice. -/
theorem Recorded.registers {mode : ReadMode} {body : Bytes} {kind : Obu.Kind}
    (h : registry.Recorded) (hregisters : Registers mode registry body kind after)
    (honce : kind = .audioElement → AudioElement.ListsOnce body) : after.Recorded := by
  have htraced := h.traced.registers hregisters honce
  have hwithin := hregisters.within
  have helements := h.audioElements.imp fun _ _ hrecord => hrecord.mono hwithin
  have hmixes := h.mixPresentations.imp fun _ _ hrecord => hrecord.mono hwithin
  cases hregisters with
  | sequenceHeader | unsupported | other => exact ⟨htraced, h.codecConfigs, helements, hmixes⟩
  | codecConfig config parsed fresh =>
    refine ⟨htraced, fun other hmem => ?_, helements, hmixes⟩
    rcases List.mem_append.1 hmem with hmem | hmem
    · exact h.codecConfigs other hmem
    · rw [List.mem_singleton.1 hmem]
      exact CodecConfig.parse_eq_ok parsed
  | audioElement element definitions parsed free =>
    obtain ⟨hreadable, hbrings⟩ := AudioElement.parse_eq_ok parsed
    refine ⟨htraced, h.codecConfigs, helements.append_singleton ?_, hmixes⟩
    refine ⟨?_, registry, h.traced, hwithin, rfl, hreadable⟩
    exact ((hbrings.exact (honce rfl)).map (·.id)).nodup_iff.1 hbrings.nodup
  | mixPresentation mix definitions parsed =>
    obtain ⟨hreadable, -⟩ := MixPresentation.parse_eq_ok parsed
    exact ⟨htraced, h.codecConfigs, helements,
      hmixes.append_singleton ⟨registry, h.traced, hwithin, rfl, hreadable⟩⟩

end Registry

/-! ### From one stage to another -/

namespace AudioElement

/-- An element that was readable at one stage is readable at every stage that has
the same elements and all codec configs. -/
theorem Readable.carry {stage other registry : Registry} {element : AudioElement}
    (h : element.Readable stage) (hstage : stage.Traced) (hother : other.Traced)
    (hregistry : registry.Traced) (hwithin : stage.Within registry)
    (hwithin' : other.Within registry) (hconfigs : other.codecConfigs = registry.codecConfigs)
    (helements : other.audioElements = stage.audioElements)
    (hmem : element ∈ registry.audioElements) : element.Readable other := by
  -- Only elements define the parameters of elements, and both stages have the same elements.
  have hparameter : ∀ definition ∈ element.parameters,
      Scope.find? { known := other.parameters } definition.id
        = Scope.find? { known := stage.parameters } definition.id := by
    intro definition hdefinition
    have hembedded : definition ∈ registry.elementDefinitions :=
      List.mem_flatMap.2 ⟨element, hmem, hdefinition⟩
    have hsame : other.parameter? definition.id = stage.parameter? definition.id := by
      rw [hother.parameter?_element hregistry hwithin' hembedded,
        hstage.parameter?_element hregistry hwithin hembedded, Registry.elementDefinitions,
        Registry.elementDefinitions, helements]
    rw [Scope.find?_eq_or, Scope.find?_eq_or]
    exact hsame
  have hcount : other.streamCount = stage.streamCount := by
    rw [Registry.streamCount, Registry.streamCount, Registry.substreams, Registry.substreams,
      helements]
  obtain ⟨config, hfind, hknown, hassigned⟩ := h.assigned
  refine ⟨?_, h.code, ⟨config, ?_, hknown, hcount ▸ hassigned⟩, h.count, h.channel, ?_, ?_,
    h.weight, h.layers⟩
  · rw [Registry.audioElement?, helements]
    exact h.fresh
  · rw [Registry.codecConfig?, hconfigs]
    exact Registry.find?_of_prefix hwithin.codecConfigs hfind
  · intro definition hdefinition
    obtain ⟨hkind, hallows⟩ := h.demixing definition hdefinition
    exact ⟨hkind, hallows.of_find?_eq
      (hparameter definition (mem_parameters.2 (.inl hdefinition)))⟩
  · intro definition hdefinition
    obtain ⟨hkind, hallows⟩ := h.reconGain definition hdefinition
    exact ⟨hkind, hallows.of_find?_eq
      (hparameter definition (mem_parameters.2 (.inr hdefinition)))⟩

end AudioElement

namespace Scope

/-- Only the latest definitions of their ids matter to some definitions. -/
theorem AllowsAll.of_find?_eq {placed : List Placed} :
    ∀ {scope other : Scope}, scope.AllowsAll placed →
      (∀ place ∈ placed, other.find? place.1.id = scope.find? place.1.id) →
      other.AllowsAll placed := by
  induction placed with
  | nil => exact fun _ _ => trivial
  | cons first placed ih =>
    intro scope other h heq
    obtain ⟨hfirst, hothers⟩ := List.forall_mem_cons.1 heq
    refine ⟨h.1.of_find?_eq hfirst, ih h.2 fun place hplace => ?_⟩
    by_cases hid : first.1.id = place.1.id
    · rw [← hid, find?_store_self, find?_store_self]
    · rw [find?_store_ne _ hid, find?_store_ne _ hid]
      exact hothers place hplace

end Scope

namespace MixPresentation

/-- The definitions of a presentation stand in the same places wherever the
elements that it refers to are the same. -/
theorem placed_congr {stage other : Registry} {mix : MixPresentation}
    (h : ∀ submix ∈ mix.submixes, ∀ member ∈ submix.elements,
      other.audioElement? member.element = stage.audioElement? member.element) :
    mix.placed other = mix.placed stage := by
  refine List.flatMap_congr fun submix hsubmix => ?_
  rw [Submix.placed, Submix.placed]
  congr 1
  refine List.map_congr_left fun member hmember => ?_
  rw [SubmixElement.placed, SubmixElement.placed, h submix hsubmix member hmember]

/-- A presentation that was readable at one stage is readable at every stage that
has the same presentations and all elements. -/
theorem Readable.carry {stage other registry : Registry} {mix : MixPresentation}
    (h : mix.Readable stage) (hstage : stage.Traced) (hother : other.Traced)
    (hregistry : registry.Traced) (hwithin : stage.Within registry)
    (hwithin' : other.Within registry) (helements : other.audioElements = registry.audioElements)
    (hmixes : other.mixPresentations = stage.mixPresentations)
    (hmem : mix ∈ registry.mixPresentations) : mix.Readable other := by
  -- Elements are never replaced, so the ones that are referred to are the same later on.
  have helement : ∀ submix ∈ mix.submixes, ∀ member ∈ submix.elements,
      other.audioElement? member.element = stage.audioElement? member.element := by
    intro submix hsubmix member hmember
    obtain ⟨element, hfind⟩ := Option.isSome_iff_exists.1
      ((h.submixes submix hsubmix).elements member hmember).resolved
    rw [hfind, Registry.audioElement?, helements]
    exact Registry.find?_of_prefix hwithin.audioElements hfind
  -- Only presentations define mix gains, and both stages have the same presentations.
  have hparameter : ∀ place ∈ mix.placed stage,
      Scope.find? { known := other.parameters } place.1.id
        = Scope.find? { known := stage.parameters } place.1.id := by
    intro place hplace
    have hembedded : place.1 ∈ registry.mixDefinitions := by
      refine List.mem_flatMap.2 ⟨mix, hmem, ?_⟩
      rw [← map_fst_placed stage]
      exact List.mem_map_of_mem hplace
    have hsame : other.parameter? place.1.id = stage.parameter? place.1.id := by
      rw [hother.parameter?_mix hregistry hwithin' hembedded,
        hstage.parameter?_mix hregistry hwithin hembedded, Registry.mixDefinitions,
        Registry.mixDefinitions, hmixes]
    rw [Scope.find?_eq_or, Scope.find?_eq_or]
    exact hsame
  refine ⟨?_, h.labelCount, h.annotations, h.submixCount, fun submix hsubmix => ?_, ?_⟩
  · rw [Registry.mixPresentation?, hmixes]
    exact h.fresh
  · have hsubmixReadable := h.submixes submix hsubmix
    refine { hsubmixReadable with elements := fun member hmember => ?_ }
    have hmemberReadable := hsubmixReadable.elements member hmember
    exact { hmemberReadable with
      resolved := helement submix hsubmix member hmember ▸ hmemberReadable.resolved }
  · rw [placed_congr helement]
    exact h.allowed.of_find?_eq hparameter

end MixPresentation

end Iamf
