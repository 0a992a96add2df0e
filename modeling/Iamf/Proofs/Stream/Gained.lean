import Iamf.Proofs.Stream.Reopened

/-!
# `Iamf.Proofs.Stream.Gained`: what a header adds to a registry

A header keeps the ids of the registry that it was written for, whatever else it
leaves out. So if it can be read at all, into whatever registry, the ids that it
adds are known without looking at what was read: they stand behind those that were
there. Ids are distinct in every registry that was read. That is why a header with
a codec config or a presentation is not read a second time, and why one without
them says nothing but its profile.

* `Descriptors.gains`: the ids that a header adds.
* `Descriptors.registersAll_again`: which headers are read a second time.
* `Reading.foldl_step_of_describes`: descriptors that are read without a failure have
  gone into the registry.
-/

set_option autoImplicit false

namespace Iamf

namespace Registry

/-! ### Steps back -/

section

variable {mode : ReadMode} {registry after : Registry} {obus others : List Obu.Complete}

/-- Bodies in a row have led to a registry in between. -/
theorem RegistersAll.exists_middle (h : RegistersAll mode registry (obus ++ others) after) :
    ∃ middle, RegistersAll mode registry obus middle ∧ RegistersAll mode middle others after := by
  induction obus generalizing registry with
  | nil => exact ⟨registry, .nil registry, h⟩
  | cons obu obus ih =>
    cases h with
    | cons first behind =>
      obtain ⟨middle, hbefore, hbehind⟩ := ih behind
      exact ⟨middle, .cons first hbefore, hbehind⟩

/-- Where bodies that are made from the items of a list have gone into a registry, what
each of them has led to goes along the list. -/
theorem RegistersAll.reached {α : Type} {made : α → Obu.Complete → Prop} {items : List α}
    (reached : List α → Registry → Prop) (hmade : List.Forall₂ made items obus)
    (h : RegistersAll mode registry obus after)
    (hstep : ∀ before item obu stage next, made item obu →
      Registers mode stage obu.body obu.header.kind next → reached before stage →
      reached (before ++ [item]) next)
    (hstart : reached [] registry) : reached items after := by
  suffices hall : ∀ before, reached before registry → reached (before ++ items) after from
    hall [] hstart
  clear hstart
  induction hmade generalizing registry with
  | nil =>
    cases h
    intro before hreached
    rw [List.append_nil]
    exact hreached
  | @cons item obu items obus hfirst _ ih =>
    cases h with
    | cons first behind =>
      intro before hreached
      have hnext := ih behind (before ++ [item]) (hstep _ _ _ _ _ hfirst first hreached)
      rwa [List.append_assoc] at hnext

end

/-! ### What is gained -/

/-- A registry has gained what is left of descriptors that have been written: known
codecs, and the ids of the descriptors, behind those that it started with. -/
structure Gains (start : Registry) (configs : List CodecConfig) (elements : List AudioElement)
    (mixes : List MixPresentation) (stage : Registry) : Prop where
  known : ∀ config ∈ stage.codecConfigs, ∀ fourCC, config.codec ≠ .unknown fourCC
  configured : elements ≠ [] → stage.codecConfigs ≠ []
  codecConfigs : stage.codecConfigs.map (·.id)
    = start.codecConfigs.map (·.id) ++ configs.map (·.id)
  substreams : stage.substreams.map (·.id)
    = start.substreams.map (·.id) ++ (elements.flatMap (·.substreams)).map (·.id)
  mixPresentations : stage.mixPresentations.map (·.id)
    = start.mixPresentations.map (·.id) ++ mixes.map (·.id)

variable {mode : ReadMode} {start stage after : Registry} {configs : List CodecConfig}
  {elements : List AudioElement} {mixes : List MixPresentation} {obu : Obu.Complete}

/-- Reading a sequence header sets the header, and nothing else. -/
theorem registers_sequenceHeader_iff {header : SequenceHeader}
    (hmade : obu.IsMadeOf .sequenceHeader none header.encode) :
    Registers mode stage obu.body obu.header.kind after
      ↔ after = { stage with sequenceHeader := some header } := by
  rw [hmade.kind, hmade.body]
  constructor
  · intro h
    cases h with
    | sequenceHeader read parsed =>
      rw [SequenceHeader.parse_encode] at parsed
      cases parsed
      rfl
    | other hkind => exact absurd rfl hkind.1
  · rintro rfl
    exact .sequenceHeader header (SequenceHeader.parse_encode header mode.strict)

/-- A codec config is gained, if it is read at all. -/
theorem Gains.codecConfig {config : CodecConfig} (h : start.Gains configs elements mixes stage)
    (hmade : obu.IsEncoded .codecConfig config.encode)
    (hregisters : Registers mode stage obu.body obu.header.kind after) :
    start.Gains (configs ++ [config]) elements mixes after := by
  obtain ⟨body, hencode, hobu⟩ := hmade
  rw [hobu.kind, hobu.body] at hregisters
  cases hregisters with
  | codecConfig read parsed fresh =>
    obtain ⟨hid, hknown⟩ := CodecConfig.identity_of_parse hencode parsed
    refine ⟨?_, fun _ => by simp, ?_, h.substreams, h.mixPresentations⟩
    · intro other hmem
      rcases List.mem_append.1 hmem with hold | hnew
      · exact h.known other hold
      · exact List.mem_singleton.1 hnew ▸ hknown
    · simp only [List.map_append, List.map_singleton, h.codecConfigs, hid, List.append_assoc]
  | other hkind => cases hkind.2

/-- So are an element and its substreams. It must have found a codec config, and none
of those that are there is of an unknown codec, for which it would be passed over. -/
theorem Gains.audioElement {element : AudioElement}
    (h : start.Gains configs elements mixes stage)
    (hmade : obu.IsEncoded .audioElement element.encode)
    (hregisters : Registers mode stage obu.body obu.header.kind after) :
    start.Gains configs (elements ++ [element]) mixes after := by
  obtain ⟨body, hencode, hobu⟩ := hmade
  rw [hobu.kind, hobu.body] at hregisters
  cases hregisters with
  | unsupported parsed =>
    obtain ⟨-, read, definitions, hsome, -⟩ :=
      AudioElement.identity_of_parse h.known hencode hobu.length_lt parsed
    cases hsome
  | audioElement read definitions parsed free =>
    obtain ⟨hconfigured, _, _, hsome, hids⟩ :=
      AudioElement.identity_of_parse h.known hencode hobu.length_lt parsed
    cases hsome
    refine ⟨h.known, fun _ => hconfigured, h.codecConfigs, ?_, h.mixPresentations⟩
    have hsame := h.substreams
    simp only [Registry.substreams, List.flatMap_append, List.flatMap_singleton,
      List.map_append] at hsame ⊢
    rw [hsame, hids, List.append_assoc]
  | other hkind => cases hkind.2

/-- So is a presentation. -/
theorem Gains.mixPresentation {mix : MixPresentation}
    (h : start.Gains configs elements mixes stage)
    (hmade : obu.IsEncoded .mixPresentation mix.encode)
    (hregisters : Registers mode stage obu.body obu.header.kind after) :
    start.Gains configs elements (mixes ++ [mix]) after := by
  obtain ⟨body, hencode, hobu⟩ := hmade
  rw [hobu.kind, hobu.body] at hregisters
  cases hregisters with
  | mixPresentation read definitions parsed =>
    refine ⟨h.known, h.configured, h.codecConfigs, h.substreams, ?_⟩
    have hid := MixPresentation.identity_of_parse hencode parsed
    simp only [List.map_append, List.map_singleton, h.mixPresentations, hid, List.append_assoc]
  | other hkind => cases hkind.2

end Registry

namespace Muxer

open Registry (RegistersAll Registers Gains)

variable {registry opened : Registry} {mode : ReadMode}

/-- A header that is read adds the ids of its descriptors. -/
theorem Descriptors.gains (descriptors : Descriptors registry) {start after : Registry}
    (hknown : ∀ config ∈ start.codecConfigs, ∀ fourCC, config.codec ≠ .unknown fourCC)
    (h : RegistersAll mode start descriptors.obus after) :
    start.Gains registry.codecConfigs registry.audioElements registry.mixPresentations after := by
  cases h with
  | cons first behind =>
    obtain rfl := (Registry.registers_sequenceHeader_iff descriptors.sequence).1 first
    obtain ⟨filled, hfront, hmixes⟩ := behind.exists_middle
    obtain ⟨configured, hconfigs, helements⟩ := hfront.exists_middle
    refine hmixes.reached (start.Gains registry.codecConfigs registry.audioElements)
      descriptors.mixes
      (fun _ _ _ _ _ hmade hregisters hgains => hgains.mixPresentation hmade hregisters) ?_
    refine helements.reached
      (fun elements stage => start.Gains registry.codecConfigs elements [] stage)
      descriptors.elements
      (fun _ _ _ _ _ hmade hregisters hgains => hgains.audioElement hmade hregisters) ?_
    refine hconfigs.reached (fun configs stage => start.Gains configs [] [] stage)
      descriptors.configs
      (fun _ _ _ _ _ hmade hregisters hgains => hgains.codecConfig hmade hregisters) ?_
    exact ⟨hknown, fun hne => absurd rfl hne, (List.append_nil _).symm, (List.append_nil _).symm,
      (List.append_nil _).symm⟩

/-- The ids of a header that was read into an empty registry are the ids of what it was
written for. -/
theorem Descriptors.gains_empty (descriptors : Descriptors registry)
    (h : RegistersAll mode .empty descriptors.obus opened) :
    Registry.empty.Gains registry.codecConfigs registry.audioElements registry.mixPresentations
      opened :=
  descriptors.gains (fun _ hmem => absurd hmem List.not_mem_nil) h

end Muxer

/-- The header of a registry declares no id that has to be new. Elements are not among
its descriptors then, since they would have no codec config. -/
def Registry.IsRepeatable (registry : Registry) : Prop :=
  registry.codecConfigs = [] ∧ registry.mixPresentations = []

instance (registry : Registry) : Decidable registry.IsRepeatable :=
  inferInstanceAs (Decidable (_ ∧ _))

namespace Muxer

open Registry (RegistersAll Registers Gains)

variable {registry opened after : Registry} {mode : ReadMode}

/-- A header without codec configs and presentations is a sequence header, so all that it
does is to set that. -/
theorem Descriptors.registersAll_of_isRepeatable (descriptors : Descriptors registry)
    (hrepeatable : registry.IsRepeatable)
    (h : RegistersAll mode .empty descriptors.obus opened) {start : Registry} :
    RegistersAll mode start descriptors.obus after
      ↔ after = { start with sequenceHeader := some (Muxer.sequenceHeader registry) } := by
  have hgains := descriptors.gains_empty h
  have hnone : opened.codecConfigs = [] := by
    have hids := hgains.codecConfigs
    rw [hrepeatable.1] at hids
    exact List.map_eq_nil_iff.1 hids
  have helements : registry.audioElements = [] := by
    by_contra hsome
    exact hgains.configured hsome hnone
  have hconfigObus := descriptors.configs
  have helementObus := descriptors.elements
  have hmixObus := descriptors.mixes
  rw [hrepeatable.1, List.forall₂_nil_left_iff] at hconfigObus
  rw [helements, List.forall₂_nil_left_iff] at helementObus
  rw [hrepeatable.2, List.forall₂_nil_left_iff] at hmixObus
  have hobus : descriptors.obus = [descriptors.sequenceHeader] := by
    rw [obus, hconfigObus, helementObus, hmixObus]
    rfl
  rw [hobus, ← Registry.registers_sequenceHeader_iff descriptors.sequence]
  constructor
  · intro hall
    cases hall with
    | cons first behind =>
      cases behind
      exact first
  · intro hfirst
    exact .cons hfirst (.nil _)

/-- A header that was read once is read once more if it declares nothing that has to be
new, and otherwise it is not. -/
theorem Descriptors.registersAll_again (descriptors : Descriptors registry)
    (h : RegistersAll mode .empty descriptors.obus opened) :
    RegistersAll mode opened descriptors.obus after
      ↔ registry.IsRepeatable ∧ after = opened := by
  have hsame : registry.IsRepeatable →
      (RegistersAll mode opened descriptors.obus after ↔ after = opened) := by
    intro hrepeatable
    have hset := (descriptors.registersAll_of_isRepeatable hrepeatable h).1 h
    rw [descriptors.registersAll_of_isRepeatable hrepeatable h, hset]
  constructor
  · intro hagain
    have hfirst := descriptors.gains_empty h
    have hsecond := descriptors.gains hfirst.known hagain
    have hcoherent := hagain.coherent (h.coherent Registry.coherent_empty)
    -- Ids that are there twice would not be distinct.
    have htwice : ∀ ids : List UInt32, (ids ++ ids).Nodup → ids = [] := by
      intro ids hnodup
      by_contra hne
      obtain ⟨id, hid⟩ := List.exists_mem_of_ne_nil ids hne
      exact (List.nodup_append.1 hnodup).2.2 id hid id hid rfl
    have hconfigs := hcoherent.codecConfigs
    have hmixes := hcoherent.mixPresentations
    rw [hsecond.codecConfigs, hfirst.codecConfigs] at hconfigs
    rw [hsecond.mixPresentations, hfirst.mixPresentations] at hmixes
    have hrepeatable : registry.IsRepeatable :=
      ⟨List.map_eq_nil_iff.1 (htwice _ hconfigs), List.map_eq_nil_iff.1 (htwice _ hmixes)⟩
    exact ⟨hrepeatable, (hsame hrepeatable).1 hagain⟩
  · rintro ⟨hrepeatable, heq⟩
    exact (hsame hrepeatable).2 heq

end Muxer

/-! ### Readings among descriptors -/

namespace Reading

variable {config : DemuxerConfig} {reading : Reading}

/-- A descriptor that did not fail has gone into the registry. -/
theorem registers_of_descriptor {obu : Obu.Complete}
    (hends : Demuxer.endsDescriptors obu.header.kind = false)
    (h : (descriptor config reading obu).failure = none) :
    Registry.Registers config.mode reading.registry obu.body obu.header.kind
      (descriptor config reading obu).registry := by
  cases hkind : obu.header.kind
  case sequenceHeader | codecConfig | audioElement | mixPresentation =>
    simp only [descriptor, hkind] at h ⊢
    cases hparse : Registry.parseDescriptor config.mode _ obu.body reading.registry with
    | ok _ registry => exact Registry.parseDescriptor_eq_ok.1 hparse
    | error error registry =>
      rw [hparse] at h
      cases h
  case parameterBlock | audioFrame | impliedFrame =>
    rw [hkind] at hends
    cases hends
  all_goals
    simp only [descriptor, hkind]
    exact .other ⟨by simp, rfl⟩

/-- OBUs that do not end the descriptors do not open a reading. If they are read without
a failure, they have gone into the registry. -/
theorem foldl_step_of_describes (config : DemuxerConfig) {obus : List Obu.Complete}
    (hends : ∀ obu ∈ obus, Demuxer.endsDescriptors obu.header.kind = false)
    (hfresh : reading.IsFresh) :
    (obus.foldl (step config) reading).opened = false
      ∧ ((obus.foldl (step config) reading).failure = none →
        (obus.foldl (step config) reading).IsFresh
          ∧ Registry.RegistersAll config.mode reading.registry obus
              (obus.foldl (step config) reading).registry) := by
  induction obus generalizing reading with
  | nil => exact ⟨hfresh.opened, fun _ => ⟨hfresh, .nil _⟩⟩
  | cons obu obus ih =>
    obtain ⟨hfirst, hothers⟩ := List.forall_mem_cons.1 hends
    rw [List.foldl_cons, step_of_descriptor hfresh.failure hfresh.opened hfirst]
    set reached := { reading with consumed := reading.consumed + obu.bytes.length }
    have hregisters : (descriptor config reached obu).failure = none →
        Registry.Registers config.mode reading.registry obu.body obu.header.kind
          (descriptor config reached obu).registry := registers_of_descriptor hfirst
    -- Only the registry and the failure have changed, so the reading is as fresh as it was.
    obtain ⟨registry, failure, hsame⟩ := descriptor_same config reached obu
    rw [hsame] at hregisters ⊢
    cases failure with
    | some error =>
      rw [foldl_step_of_failed rfl]
      exact ⟨hfresh.opened, fun hnone => by cases hnone⟩
    | none =>
      have hstill : IsFresh { reached with registry, failure := none } :=
        ⟨rfl, hfresh.opened, hfresh.values, hfresh.packets⟩
      obtain ⟨hopened, hclean⟩ := ih hothers hstill
      refine ⟨hopened, fun hnone => ?_⟩
      obtain ⟨hstill, hall⟩ := hclean hnone
      exact ⟨hstill, .cons (hregisters rfl) hall⟩

end Reading

end Iamf
