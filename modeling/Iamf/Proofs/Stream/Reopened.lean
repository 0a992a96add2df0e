import Iamf.Proofs.Element.Written
import Iamf.Proofs.Mix.Written
import Iamf.Proofs.Registry.Recorded
import Iamf.Proofs.Stream.Packets

/-!
# `Iamf.Proofs.Stream.Reopened`: a registry that was written and opened again

The header that a muxer writes has the descriptors of a registry in another
order than the stream from which the registry came: configs first, elements next
and presentations last, each in their own order. Every descriptor was readable
at a stage of the first stream, and by then what matters to it was there; it is
there again when its turn comes in the header. So the bodies are read one after
the other, each into a stage that is a copy of a part of the registry.

* `RegistersAll.recorded`: what a stream that was opened has recorded.
* `Descriptors.exists_registersAll`: the written descriptors are read as a copy.
* `reopen_writeHeader`: a header that was written opens as a copy.
-/

set_option autoImplicit false

namespace Iamf

/-- An OBU goes into a registry as the body that it was made from does. -/
theorem Obu.Complete.IsMadeOf.registers {kind : Obu.Kind} {trim : Option Obu.Trim} {body : Bytes}
    {obu : Obu.Complete} {mode : ReadMode} {registry after : Registry}
    (h : obu.IsMadeOf kind trim body)
    (hregisters : Registry.Registers mode registry body kind after) :
    Registry.Registers mode registry obu.body obu.header.kind after := by
  rw [h.kind, h.body]
  exact hregisters

namespace Registry

/-! ### What a stream has recorded -/

section

variable {mode : ReadMode} {registry middle after : Registry} {obus others : List Obu.Complete}

theorem RegistersAll.recorded (h : RegistersAll mode registry obus after)
    (hstart : registry.Recorded)
    (honce : ∀ obu ∈ obus, obu.header.kind = .audioElement → AudioElement.ListsOnce obu.body) :
    after.Recorded := by
  induction h with
  | nil => exact hstart
  | cons first _ ih =>
    obtain ⟨hfirst, hothers⟩ := List.forall_mem_cons.1 honce
    exact ih (hstart.registers first hfirst) hothers

theorem RegistersAll.append (h : RegistersAll mode registry obus middle)
    (h' : RegistersAll mode middle others after) :
    RegistersAll mode registry (obus ++ others) after := by
  induction h with
  | nil => exact h'
  | cons first _ ih => exact .cons first (ih h')

/-- Bodies that are made from the items of a list go into a registry if each does
at the stage that those before it have led to. -/
theorem RegistersAll.of_forall₂ {α : Type} {made : α → Obu.Complete → Prop} {items : List α}
    (reached : List α → Registry → Prop) (hmade : List.Forall₂ made items obus)
    (hstep : ∀ before item behind obu stage, items = before ++ item :: behind → made item obu →
      reached before stage → ∃ after, Registers mode stage obu.body obu.header.kind after
        ∧ reached (before ++ [item]) after)
    (hstart : reached [] registry) :
    ∃ after, RegistersAll mode registry obus after ∧ reached items after := by
  -- Items move over from those behind to those before, and the registry with them.
  suffices hall : ∀ before behind obus stage, items = before ++ behind →
      List.Forall₂ made behind obus → reached before stage →
      ∃ after, RegistersAll mode stage obus after ∧ reached items after from
    hall [] items obus registry rfl hmade hstart
  intro before behind obus stage hsplit hmade hreached
  induction hmade generalizing before stage with
  | nil =>
    rw [List.append_nil] at hsplit
    exact ⟨stage, .nil stage, hsplit ▸ hreached⟩
  | cons hfirst _ ih =>
    obtain ⟨next, hregisters, hnext⟩ := hstep before _ _ _ stage hsplit hfirst hreached
    obtain ⟨after, hothers, hafter⟩ := ih (before ++ [_]) next (by rw [hsplit]; simp) hnext
    exact ⟨after, .cons hregisters hothers, hafter⟩

end

/-! ### Stages of a copy -/

/-- Where keys are distinct, an item is not found among those before it. -/
theorem find?_before {α β : Type} [DecidableEq β] {key : α → β} {before behind : List α}
    {item : α} (h : ((before ++ item :: behind).map key).Nodup) :
    before.find? (key · = key item) = none := by
  rw [List.map_append, List.map_cons, List.nodup_append] at h
  rw [List.find?_eq_none]
  intro other hother
  have hne := h.2.2 (key other) (List.mem_map_of_mem hother) (key item) List.mem_cons_self
  simpa using hne

/-- A registry has got as far as these descriptors of another one. -/
structure Reaches (stage : Registry) (header : SequenceHeader) (configs : List CodecConfig)
    (elements : List AudioElement) (mixes : List MixPresentation) : Prop where
  traced : stage.Traced
  sequenceHeader : stage.sequenceHeader = some header
  codecConfigs : stage.codecConfigs = configs
  audioElements : stage.audioElements = elements
  mixPresentations : stage.mixPresentations = mixes

variable {registry stage : Registry} {header : SequenceHeader} {obu : Obu.Complete}

/-- The substreams of an element, or of one with the same substream ids, are free
where only the ids of the elements before it are taken. -/
theorem Coherent.untaken {before behind : List AudioElement} {element read : AudioElement}
    (h : registry.Coherent) (hsplit : registry.audioElements = before ++ element :: behind)
    (hstage : stage.substreams.map (·.id) = (before.flatMap (·.substreams)).map (·.id))
    (hids : read.substreams.map (·.id) = element.substreams.map (·.id)) {substream : Substream}
    (hmem : substream ∈ read.substreams) : stage.isTaken read substream = false := by
  have hnodup := h.substreams
  rw [Registry.substreams, hsplit, List.flatMap_append, List.flatMap_cons, List.map_append,
    List.map_append, List.nodup_append, ← hids, ← hstage] at hnodup
  obtain ⟨-, hown, hapart⟩ := hnodup
  have hid : substream.id ∈ read.substreams.map (·.id) := List.mem_map_of_mem hmem
  rw [isTaken_eq_false, substream?, List.find?_eq_none]
  constructor
  · intro other hother
    simpa using hapart other.id (List.mem_map_of_mem hother) substream.id
      (List.mem_append_left _ hid)
  · rw [← count_map_id]
    exact List.nodup_iff_count_le_one.1 (List.nodup_append.1 hown).1 substream.id

/-- A codec config goes behind those before it. -/
theorem Reaches.codecConfig (mode : ReadMode)
    {before behind : List CodecConfig} {config : CodecConfig}
    (h : stage.Reaches header before [] []) (hrecorded : registry.Recorded)
    (hsplit : registry.codecConfigs = before ++ config :: behind)
    (hmade : obu.IsEncoded .codecConfig config.encode) :
    ∃ after, Registers mode stage obu.body obu.header.kind after
      ∧ after.Reaches header (before ++ [config]) [] [] := by
  obtain ⟨body, hencode, hobu⟩ := hmade
  have hreadable := hrecorded.codecConfigs config (hsplit ▸ by simp)
  have hfresh : stage.codecConfig? config.id = none := by
    rw [codecConfig?, h.codecConfigs]
    exact find?_before (hsplit ▸ hrecorded.traced.coherent.codecConfigs)
  have hregisters : Registers mode stage body .codecConfig
      { stage with codecConfigs := stage.codecConfigs ++ [config] } :=
    .codecConfig config (CodecConfig.parse_encode hreadable hencode mode.strict) hfresh
  refine ⟨_, hobu.registers hregisters, ?_, h.sequenceHeader, ?_, h.audioElements,
    h.mixPresentations⟩
  · exact h.traced.registers hregisters (by simp)
  · rw [h.codecConfigs]

/-- An element goes behind those before it, once all configs are there. -/
theorem Reaches.audioElement (mode : ReadMode)
    {before behind : List AudioElement} {element : AudioElement}
    (h : stage.Reaches header registry.codecConfigs before []) (hrecorded : registry.Recorded)
    (hsplit : registry.audioElements = before ++ element :: behind)
    (hmade : obu.IsEncoded .audioElement element.encode) :
    ∃ after, Registers mode stage obu.body obu.header.kind after
      ∧ after.Reaches header registry.codecConfigs (before ++ [element]) [] := by
  obtain ⟨body, hencode, hobu⟩ := hmade
  obtain ⟨hnodup, origin, htraced, hwithin, hbefore, horigin⟩ :=
    hrecorded.audioElements before element behind hsplit
  have hstage : stage.Within registry :=
    ⟨h.codecConfigs ▸ List.prefix_rfl, h.audioElements ▸ hsplit ▸ List.prefix_append _ _,
      h.mixPresentations ▸ List.nil_prefix⟩
  -- When it was first registered, the same elements were there but perhaps not all configs.
  have hreadable : element.Readable stage :=
    horigin.carry htraced h.traced hrecorded.traced hwithin hstage h.codecConfigs
      (h.audioElements.trans hbefore.symm) (hsplit ▸ by simp)
  have hregisters : Registers mode stage body .audioElement
      { stage.mergeParameters element.parameters with
        audioElements := stage.audioElements ++ [element] } :=
    .audioElement element element.parameters
      (AudioElement.parse_encode hreadable hnodup hencode mode)
      fun _ hmem => hrecorded.traced.coherent.untaken hsplit
        (by rw [Registry.substreams, h.audioElements]) rfl hmem
  refine ⟨_, hobu.registers hregisters, ?_, h.sequenceHeader, h.codecConfigs, ?_,
    h.mixPresentations⟩
  · exact h.traced.addElement hreadable hnodup (List.Perm.refl _)
      (h.traced.coherent.registers hregisters)
  · rw [h.audioElements]

/-- A presentation goes behind those before it, once all elements are there. -/
theorem Reaches.mixPresentation (mode : ReadMode)
    {before behind : List MixPresentation} {mix : MixPresentation}
    (h : stage.Reaches header registry.codecConfigs registry.audioElements before)
    (hrecorded : registry.Recorded)
    (hsplit : registry.mixPresentations = before ++ mix :: behind)
    (hmade : obu.IsEncoded .mixPresentation mix.encode) :
    ∃ after, Registers mode stage obu.body obu.header.kind after
      ∧ after.Reaches header registry.codecConfigs registry.audioElements (before ++ [mix]) := by
  obtain ⟨body, hencode, hobu⟩ := hmade
  obtain ⟨origin, htraced, hwithin, hbefore, horigin⟩ :=
    hrecorded.mixPresentations before mix behind hsplit
  have hstage : stage.Within registry :=
    ⟨h.codecConfigs ▸ List.prefix_rfl, h.audioElements ▸ List.prefix_rfl,
      h.mixPresentations ▸ hsplit ▸ List.prefix_append _ _⟩
  -- When it was first registered, the same presentations were there but perhaps not all
  -- elements.
  have hreadable : mix.Readable stage :=
    horigin.carry htraced h.traced hrecorded.traced hwithin hstage h.audioElements
      (h.mixPresentations.trans hbefore.symm) (hsplit ▸ by simp)
  have hregisters := Registers.mixPresentation mix _
    (MixPresentation.parse_encode hreadable hencode mode)
  refine ⟨_, hobu.registers hregisters, ?_, h.sequenceHeader, h.codecConfigs,
    h.audioElements, ?_⟩
  · exact h.traced.registers hregisters (by simp)
  · rw [h.mixPresentations]

end Registry

/-! ### Written descriptors -/

/-- A sequence header is read back as it was. -/
theorem SequenceHeader.parse_encode (header : SequenceHeader) (strict : Bool) :
    parse strict header.encode = .ok header := by
  refine Read.Exhausts.parse ?_ "sequence header"
  refine (Read.Consumes.bytes magic).bind (Read.Takes.ensure_bind rfl ?_)
  refine (Read.Consumes.byte header.primaryProfile).bind ?_
  exact ((Read.Consumes.byte header.additionalProfile).weaken fun _ _ => trivial).bind_nil
    (Read.Exhausts.finish_bind (Read.Takes.pure header))

namespace Muxer

variable {registry : Registry}

/-- The sequence header comes first. -/
theorem registers_sequenceHeader (registry : Registry) (mode : ReadMode) :
    Registry.Registers mode .empty (Muxer.sequenceHeader registry).encode .sequenceHeader
      { sequenceHeader := some (Muxer.sequenceHeader registry) } :=
  .sequenceHeader _ (SequenceHeader.parse_encode _ _)

/-- The bodies of written descriptors go into a registry one after the other if each
does at the stages that the ones before it lead to. -/
theorem Descriptors.exists_registersAll (descriptors : Descriptors registry) (mode : ReadMode)
    (reached : List CodecConfig → List AudioElement → List MixPresentation → Registry → Prop)
    (hstart : reached [] [] [] { sequenceHeader := some (Muxer.sequenceHeader registry) })
    (hconfig : ∀ before config behind (obu : Obu.Complete) stage,
      registry.codecConfigs = before ++ config :: behind →
      obu.IsEncoded .codecConfig config.encode → reached before [] [] stage →
      ∃ after, Registry.Registers mode stage obu.body obu.header.kind after
        ∧ reached (before ++ [config]) [] [] after)
    (helement : ∀ before element behind (obu : Obu.Complete) stage,
      registry.audioElements = before ++ element :: behind →
      obu.IsEncoded .audioElement element.encode → reached registry.codecConfigs before [] stage →
      ∃ after, Registry.Registers mode stage obu.body obu.header.kind after
        ∧ reached registry.codecConfigs (before ++ [element]) [] after)
    (hmix : ∀ before mix behind (obu : Obu.Complete) stage,
      registry.mixPresentations = before ++ mix :: behind →
      obu.IsEncoded .mixPresentation mix.encode →
      reached registry.codecConfigs registry.audioElements before stage →
      ∃ after, Registry.Registers mode stage obu.body obu.header.kind after
        ∧ reached registry.codecConfigs registry.audioElements (before ++ [mix]) after) :
    ∃ copy, Registry.RegistersAll mode .empty descriptors.obus copy
      ∧ reached registry.codecConfigs registry.audioElements registry.mixPresentations copy := by
  -- All configs come before the elements, and all elements before the presentations.
  obtain ⟨configured, hconfigs, hconfigured⟩ := Registry.RegistersAll.of_forall₂
    (fun configs stage => reached configs [] [] stage) descriptors.configs hconfig hstart
  obtain ⟨filled, helements, hfilled⟩ := Registry.RegistersAll.of_forall₂
    (fun elements stage => reached registry.codecConfigs elements [] stage)
    descriptors.elements helement hconfigured
  obtain ⟨copy, hmixes, hcopy⟩ := Registry.RegistersAll.of_forall₂
    (fun mixes stage => reached registry.codecConfigs registry.audioElements mixes stage)
    descriptors.mixes hmix hfilled
  exact ⟨copy, .cons (descriptors.sequence.registers (registers_sequenceHeader registry mode))
    ((hconfigs.append helements).append hmixes), hcopy⟩

/-- The bodies of written descriptors lead to a registry that has reached all
descriptors of the one that was written, if that was read itself. -/
theorem Descriptors.exists_reaches (descriptors : Descriptors registry) (mode : ReadMode)
    (hrecorded : registry.Recorded) :
    ∃ copy, Registry.RegistersAll mode .empty descriptors.obus copy
      ∧ copy.Reaches (Muxer.sequenceHeader registry) registry.codecConfigs
          registry.audioElements registry.mixPresentations :=
  descriptors.exists_registersAll mode
    (fun configs elements mixes stage =>
      stage.Reaches (Muxer.sequenceHeader registry) configs elements mixes)
    ⟨Registry.traced_empty.registers (registers_sequenceHeader registry mode) (by simp), rfl, rfl,
      rfl, rfl⟩
    (fun _ _ _ _ _ hsplit hmade hreached => hreached.codecConfig mode hrecorded hsplit hmade)
    (fun _ _ _ _ _ hsplit hmade hreached => hreached.audioElement mode hrecorded hsplit hmade)
    (fun _ _ _ _ _ hsplit hmade hreached => hreached.mixPresentation mode hrecorded hsplit hmade)

end Muxer

/-! ### Opening written descriptors -/

namespace Reading

variable {config : DemuxerConfig} {reading : Reading} {after : Registry}

/-- A body that goes into a registry does so among the descriptors. -/
theorem descriptor_of_registers {obu : Obu.Complete}
    (h : Registry.Registers config.mode reading.registry obu.body obu.header.kind after) :
    descriptor config reading obu = { reading with registry := after } := by
  have hparse := Registry.parseDescriptor_eq_ok.2 h
  cases hkind : obu.header.kind
  case sequenceHeader | codecConfig | audioElement | mixPresentation =>
    rw [hkind] at hparse
    simp only [descriptor, hkind, hparse]
  all_goals
    rw [hkind] at h
    cases h
    simp only [descriptor, hkind]

theorem step_of_registers {obu : Obu.Complete} (hfailure : reading.failure = none)
    (hopened : reading.opened = false)
    (hends : Demuxer.endsDescriptors obu.header.kind = false)
    (h : Registry.Registers config.mode reading.registry obu.body obu.header.kind after) :
    step config reading obu
      = { reading with
          registry := after, consumed := reading.consumed + obu.bytes.length } :=
  (step_of_descriptor hfailure hopened hends).trans (descriptor_of_registers h)

/-- Bodies that go into a registry are read without a failure. -/
theorem foldl_step_of_registersAll {obus : List Obu.Complete}
    (h : Registry.RegistersAll config.mode reading.registry obus after)
    (hends : ∀ obu ∈ obus, Demuxer.endsDescriptors obu.header.kind = false)
    (hfresh : reading.IsFresh) :
    (obus.foldl (step config) reading).IsFresh
      ∧ (obus.foldl (step config) reading).registry = after := by
  induction obus generalizing reading with
  | nil =>
    cases h
    exact ⟨hfresh, rfl⟩
  | cons obu obus ih =>
    obtain ⟨hfirst, hothers⟩ := List.forall_mem_cons.1 hends
    cases h with
    | cons first others =>
      rw [List.foldl_cons, step_of_registers hfresh.failure hfresh.opened hfirst first]
      exact ih others hothers ⟨hfresh.failure, hfresh.opened, hfresh.values, hfresh.packets⟩

end Reading

/-- OBUs whose bodies go into a registry are a stream that opens with it. -/
theorem Demuxer.ofInput_of_registersAll {config : DemuxerConfig} {input : Input}
    {obus : List Obu.Complete} {registry : Registry}
    (h : Registry.RegistersAll config.mode .empty obus registry)
    (hbytes : input.rest = obus.flatMap (·.bytes)) (hends : input.failure = none)
    (hsize : ∀ obu ∈ obus, obu.header.totalLength ≤ config.maxObuSize)
    (hdescribes : ∀ obu ∈ obus, endsDescriptors obu.header.kind = false) :
    (ofInput config input).map (·.registry) = .ok registry := by
  -- As a fold over its OBUs the stream is read to its end, where the registry is the given one.
  have hstart : Registry.RegistersAll config.mode ({} : Reading).registry obus registry := h
  obtain ⟨hfresh, hregistry⟩ :=
    Reading.foldl_step_of_registersAll hstart hdescribes ⟨rfl, rfl, rfl, rfl⟩
  have hphase := ofInput_of_descriptors config input hbytes hends hsize hdescribes
  cases hopen : ofInput config input with
  | error error =>
    rw [hopen] at hphase
    rw [hfresh.failure] at hphase
    cases hphase
  | ok opened =>
    rw [hopen] at hphase
    exact congrArg Except.ok (hphase.2.symm.trans hregistry)

/-- A registry has the descriptors of another one, answers alike, and has the
profile that the number of its elements asks for. -/
structure Registry.Restores (copy registry : Registry) : Prop extends registry.Answers copy where
  codecConfigs : copy.codecConfigs = registry.codecConfigs
  mixPresentations : copy.mixPresentations = registry.mixPresentations
  sequenceHeader : copy.sequenceHeader
    = if 1 < registry.audioElements.length then some ⟨1, 1⟩ else some ⟨0, 0⟩

/-- A registry with all descriptors of another one is a copy of it. -/
theorem Registry.Reaches.restores {copy registry : Registry}
    (h : copy.Reaches (Muxer.sequenceHeader registry) registry.codecConfigs
      registry.audioElements registry.mixPresentations)
    (htraced : registry.Traced) : copy.Restores registry where
  codecConfigs := h.codecConfigs
  audioElements := h.audioElements
  mixPresentations := h.mixPresentations
  parameters := fun id => by
    rw [h.traced.latest, htraced.latest, embedded, embedded, h.audioElements, h.mixPresentations]
  sequenceHeader := by
    rw [h.sequenceHeader, Muxer.sequenceHeader]
    split <;> rfl

namespace Muxer

/-- The registry of a stream that was opened comes back when its header is written
and opened again, as long as no element of the stream listed a kind of parameter
twice. -/
theorem reopen_writeHeader {config again : DemuxerConfig} {input : Input} {registry : Registry}
    {muxer : Muxer} (hmax : Obu.maxSize ≤ again.maxObuSize)
    (hopened : (Demuxer.ofInput config input).map (·.registry) = .ok registry)
    (honce : ∀ obus : List Obu.Complete, obus.flatMap (·.bytes) <+: input.rest →
      ∀ obu ∈ obus, obu.header.kind = .audioElement → AudioElement.ListsOnce obu.body)
    (hwritten : writeHeader { registry } = .ok () muxer) (hfits : DescriptorsFit registry) :
    ∃ copy : Registry, copy.Restores registry
      ∧ ∀ input : Input, input.rest = muxer.sink.written → input.failure = none →
        (Demuxer.ofInput again input).map (·.registry) = .ok copy := by
  obtain ⟨header, hheader, rfl⟩ := writeHeader_eq_ok hwritten
  obtain ⟨descriptors, rfl⟩ := encodeHeader_eq_ok hheader hfits
  have hrecorded : registry.Recorded := by
    obtain ⟨demuxer, hdemuxer, rfl⟩ := outcome_map_eq_ok.1 hopened
    obtain ⟨obus, hbegins, hall⟩ := Demuxer.ofInput_eq_ok hdemuxer
    exact hall.recorded Registry.recorded_empty (honce obus hbegins)
  obtain ⟨copy, hall, hcopy⟩ := descriptors.exists_reaches again.mode hrecorded
  refine ⟨copy, hcopy.restores hrecorded.traced, fun input hinput hends => ?_⟩
  exact Demuxer.ofInput_of_registersAll hall hinput hends
    (fun obu hobu => Nat.le_trans (descriptors.of_mem hobu).2 hmax)
    fun obu hobu => (descriptors.of_mem hobu).1

/-- The sequence header of the mono stream. -/
def monoSequenceObu : Obu.Complete where
  header := { kind := .sequenceHeader, size := 6, headerLength := 2, bodyLength := 6 }
  bytes := [0xF8, 0x06, 0x69, 0x61, 0x6D, 0x66, 0x00, 0x00]
  parsed := by rfl
  whole := by rfl

/-- The codec config of the mono stream. -/
def monoConfigObu : Obu.Complete where
  header := { kind := .codecConfig, size := 15, headerLength := 2, bodyLength := 15 }
  bytes := [0x00, 0x0F, 0x01, 0x69, 0x70, 0x63, 0x6D, 0xC0, 0x07, 0x00, 0x00, 0x01, 0x10, 0x00,
    0x00, 0xBB, 0x80]
  parsed := by rfl
  whole := by rfl

/-- The element of the mono stream. -/
def monoElementObu : Obu.Complete where
  header := { kind := .audioElement, size := 22, headerLength := 2, bodyLength := 22 }
  bytes := [0x08, 0x16, 0x05, 0x00, 0x01, 0x01, 0x14, 0x01, 0x01, 0x07, 0x80, 0xF7, 0x02, 0x00,
    0xC0, 0x07, 0xC0, 0x07, 0x00, 0x00, 0x20, 0x00, 0x01, 0x00]
  parsed := by rfl
  whole := by rfl

theorem listsOnce_mono : AudioElement.ListsOnce monoElementObu.body := by
  have hkinds : AudioElement.readListedKinds.parse "audio element" monoElementObu.body
      = .ok [some .demixing] := by
    decide +kernel
  intro kinds h
  rw [hkinds, Except.ok.injEq] at h
  subst h
  decide

/-- The mono stream comes back, read strictly. -/
theorem reopen_writeHeader_mono :
    ∃ copy : Registry, copy.Restores { monoRegistry with sequenceHeader := some ⟨0, 0⟩ }
      ∧ ∀ input : Input, input.rest = monoHeader → input.failure = none →
        (Demuxer.ofInput { strict := true } input).map (·.registry) = .ok copy := by
  have hopened : (Demuxer.ofInput {} { rest := monoHeader }).map (·.registry)
      = .ok { monoRegistry with sequenceHeader := some ⟨0, 0⟩ } := by
    decide +kernel
  have honce : ∀ obus : List Obu.Complete, obus.flatMap (·.bytes) <+: monoHeader →
      ∀ obu ∈ obus, obu.header.kind = .audioElement → AudioElement.ListsOnce obu.body := by
    intro obus hbegins obu hmem hkind
    have hmono : obus <+: [monoSequenceObu, monoConfigObu, monoElementObu] :=
      Obu.Complete.prefix_of_flatMap_prefix hbegins
    have hcases := hmono.subset hmem
    simp only [List.mem_cons, List.not_mem_nil, or_false] at hcases
    rcases hcases with rfl | rfl | rfl
    · cases hkind
    · cases hkind
    · exact listsOnce_mono
  have hwritten : writeHeader { registry := { monoRegistry with sequenceHeader := some ⟨0, 0⟩ } }
      = .ok () (started { monoRegistry with sequenceHeader := some ⟨0, 0⟩ } monoHeader) :=
    writeHeader_eq rfl
  have hfits : DescriptorsFit { monoRegistry with sequenceHeader := some ⟨0, 0⟩ } :=
    ⟨descriptorsFit_mono.codecConfigs, descriptorsFit_mono.audioElements,
      descriptorsFit_mono.mixPresentations⟩
  exact reopen_writeHeader (Nat.le_refl _) hopened honce hwritten hfits

end Muxer

end Iamf
