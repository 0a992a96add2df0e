import Iamf.Proofs.Registry.Coherent

/-!
# `Iamf.Proofs.Registry.Registers`: reading a descriptor, and what it takes

`Registers` lists the ways in which the body of a descriptor can go into a
registry, each with what was parsed and what was checked. It says when reading
succeeds as well as what has succeeded, so it serves both for the stream that a
registry came from and for the stream that is written from it.

* `parseDescriptor_eq_ok`: reading succeeds exactly in the listed ways.
* `Coherent.registers`: reading a descriptor keeps a registry coherent.
-/

set_option autoImplicit false

namespace Iamf.Registry

/-- The ways in which the body of a descriptor goes into a registry. -/
inductive Registers (mode : ReadMode) (registry : Registry) (body : Bytes) :
    Obu.Kind → Registry → Prop where
  | sequenceHeader (header : SequenceHeader)
      (parsed : SequenceHeader.parse mode.strict body = .ok header) :
      Registers mode registry body .sequenceHeader
        { registry with sequenceHeader := some header }
  | codecConfig (config : CodecConfig)
      (parsed : CodecConfig.parse mode.strict body = .ok config)
      (fresh : registry.codecConfig? config.id = none) :
      Registers mode registry body .codecConfig
        { registry with codecConfigs := registry.codecConfigs ++ [config] }
  | unsupported (parsed : AudioElement.parse mode registry body = .ok none) :
      Registers mode registry body .audioElement registry
  | audioElement (element : AudioElement) (definitions : List Parameter)
      (parsed : AudioElement.parse mode registry body = .ok (some (element, definitions)))
      (free : ∀ substream ∈ element.substreams, registry.isTaken element substream = false) :
      Registers mode registry body .audioElement
        { registry.mergeParameters definitions with
          audioElements := registry.audioElements ++ [element] }
  | mixPresentation (mix : MixPresentation) (definitions : List Parameter)
      (parsed : MixPresentation.parse mode registry body = .ok (mix, definitions)) :
      Registers mode registry body .mixPresentation
        { registry.mergeParameters definitions with
          mixPresentations := registry.mixPresentations ++ [mix] }
  | other {kind : Obu.Kind} (hkind : kind ≠ .sequenceHeader ∧ kind.isDescriptor = false) :
      Registers mode registry body kind registry

theorem addCodecConfig_eq_ok {config : CodecConfig} {registry after : Registry} :
    addCodecConfig config registry = .ok () after
      ↔ registry.codecConfig? config.id = none
        ∧ { registry with codecConfigs := registry.codecConfigs ++ [config] } = after := by
  rw [addCodecConfig, Stateful.get_bind,
    Stateful.bind_eq_ok]
  simp only [Stateful.ensure_eq_ok, Stateful.modify_eq_ok]
  constructor
  · rintro ⟨_, _, ⟨hfresh, rfl⟩, rfl⟩
    exact ⟨hfresh, rfl⟩
  · rintro ⟨hfresh, rfl⟩
    exact ⟨(), _, ⟨hfresh, rfl⟩, rfl⟩

theorem commitAudioElement_eq_ok {element : AudioElement} {definitions : List Parameter}
    {registry after : Registry} :
    commitAudioElement element definitions registry = .ok () after
      ↔ (∀ substream ∈ element.substreams, registry.isTaken element substream = false)
        ∧ { registry.mergeParameters definitions with
            audioElements := registry.audioElements ++ [element] } = after := by
  rw [commitAudioElement, Stateful.get_bind]
  cases hfind : element.substreams.find? (registry.isTaken element) with
  | some substream =>
    -- A substream that is taken excludes either side.
    obtain ⟨htaken, hmem⟩ := And.intro (List.find?_some hfind) (List.mem_of_find?_eq_some hfind)
    constructor
    · intro h
      cases h
    · rintro ⟨hfree, -⟩
      rw [hfree substream hmem] at htaken
      cases htaken
  | none =>
    rw [Stateful.bind_eq_ok]
    simp only [Stateful.modify_eq_ok]
    constructor
    · rintro ⟨_, _, rfl, rfl⟩
      exact ⟨fun substream hmem => by simpa using List.find?_eq_none.1 hfind substream hmem, rfl⟩
    · rintro ⟨-, rfl⟩
      exact ⟨(), _, rfl, rfl⟩

theorem commitMixPresentation_eq_ok {mix : MixPresentation} {definitions : List Parameter}
    {registry after : Registry} :
    commitMixPresentation mix definitions registry = .ok () after
      ↔ { registry.mergeParameters definitions with
          mixPresentations := registry.mixPresentations ++ [mix] } = after := by
  rw [commitMixPresentation, Stateful.bind_eq_ok]
  simp only [Stateful.modify_eq_ok]
  constructor
  · rintro ⟨_, _, rfl, rfl⟩
    rfl
  · rintro rfl
    exact ⟨(), _, rfl, rfl⟩

/-- Reading the body of a descriptor succeeds in the listed ways, and in no
other. -/
theorem parseDescriptor_eq_ok {mode : ReadMode} {kind : Obu.Kind} {body : Bytes}
    {registry after : Registry} :
    parseDescriptor mode kind body registry = .ok () after
      ↔ Registers mode registry body kind after := by
  rw [parseDescriptor, Stateful.get_bind]
  constructor
  · -- The kind tells which reader ran, and what it does next.
    intro h
    cases kind <;> simp only [Stateful.bind_eq_ok, Stateful.liftExcept_eq_ok] at h
    case sequenceHeader =>
      obtain ⟨header, _, ⟨hparse, rfl⟩, h⟩ := h
      rw [setSequenceHeader, Stateful.modify_eq_ok] at h
      exact h ▸ .sequenceHeader header hparse
    case codecConfig =>
      obtain ⟨config, _, ⟨hparse, rfl⟩, h⟩ := h
      obtain ⟨hfresh, rfl⟩ := addCodecConfig_eq_ok.1 h
      exact .codecConfig config hparse hfresh
    case audioElement =>
      obtain ⟨parsed, _, ⟨hparse, rfl⟩, h⟩ := h
      cases parsed with
      | none =>
        obtain ⟨-, rfl⟩ := Stateful.pure_eq_ok.1 h
        exact .unsupported hparse
      | some pair =>
        obtain ⟨hfree, rfl⟩ := commitAudioElement_eq_ok.1 h
        exact .audioElement pair.1 pair.2 hparse hfree
    case mixPresentation =>
      obtain ⟨⟨mix, definitions⟩, _, ⟨hparse, rfl⟩, h⟩ := h
      obtain rfl := commitMixPresentation_eq_ok.1 h
      exact .mixPresentation mix definitions hparse
    all_goals
      obtain ⟨-, rfl⟩ := Stateful.pure_eq_ok.1 h
      exact .other ⟨by simp, rfl⟩
  · -- Each way has what the steps of its kind ask for.
    intro h
    cases h with
    | sequenceHeader header parsed =>
      exact Stateful.bind_eq_ok.2 ⟨header, registry,
        Stateful.liftExcept_eq_ok.2 ⟨parsed, rfl⟩, rfl⟩
    | codecConfig config parsed fresh =>
      exact Stateful.bind_eq_ok.2 ⟨config, registry,
        Stateful.liftExcept_eq_ok.2 ⟨parsed, rfl⟩, addCodecConfig_eq_ok.2 ⟨fresh, rfl⟩⟩
    | unsupported parsed =>
      exact Stateful.bind_eq_ok.2 ⟨none, registry,
        Stateful.liftExcept_eq_ok.2 ⟨parsed, rfl⟩, rfl⟩
    | audioElement element definitions parsed free =>
      exact Stateful.bind_eq_ok.2 ⟨some (element, definitions), registry,
        Stateful.liftExcept_eq_ok.2 ⟨parsed, rfl⟩, commitAudioElement_eq_ok.2 ⟨free, rfl⟩⟩
    | mixPresentation mix definitions parsed =>
      exact Stateful.bind_eq_ok.2 ⟨(mix, definitions), registry,
        Stateful.liftExcept_eq_ok.2 ⟨parsed, rfl⟩, commitMixPresentation_eq_ok.2 rfl⟩
    | other hkind =>
      cases kind <;> first | rfl | exact absurd rfl hkind.1 | exact absurd hkind.2 (by decide)

/-- Reading a descriptor keeps a registry coherent. -/
theorem Coherent.registers {mode : ReadMode} {registry after : Registry} {body : Bytes}
    {kind : Obu.Kind} (h : registry.Coherent)
    (hregisters : Registers mode registry body kind after) : after.Coherent := by
  have hchange := change_parseDescriptor registry mode kind body
  rw [left, parseDescriptor_eq_ok.2 hregisters] at hchange
  exact h.change hchange

end Iamf.Registry
