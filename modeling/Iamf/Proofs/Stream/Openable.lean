import Iamf.Proofs.Codec.Openable
import Iamf.Proofs.Element.Openable
import Iamf.Proofs.Mix.Openable
import Iamf.Proofs.Stream.Reopened
import Iamf.Proofs.Stream.Sized

/-!
# `Iamf.Proofs.Stream.Openable`: a header that was written can be opened

A registry that was built by hand says many things that its header has no room
for, so the registry that comes back is another one. But it has the same ids,
and definitions of the same shapes, and that is all that a descriptor asks of
those before it. So where every descriptor is one that a reader takes on its
own (`Registry.IsOpenable`), it takes them all in a row. None of what that asks
for can be left out, since the writer tests none of it: `Muxer.IsRefused`.

* `Registry.Coherent.consistent`: all definitions of a registry fit together.
* `Registry.Mirrors`: what is left of the descriptors that were written.
* `Muxer.open_writeHeader`: a header that was written can be opened.
* `Muxer.isRefused_of_long`: one with a config that is too long cannot.
-/

set_option autoImplicit false

namespace Iamf

namespace Registry

open Parameter (Consistent Reflect)

/-- Descriptors that a writer takes and a reader does too. -/
structure IsOpenable (registry : Registry) : Prop where
  codecConfigs : ∀ config ∈ registry.codecConfigs, config.IsOpenable
  audioElements : ∀ element ∈ registry.audioElements, element.IsOpenable
  mixPresentations : ∀ mix ∈ registry.mixPresentations, mix.IsOpenable

/-- All definitions of an id that elements and presentations embed have the shape of
the registered one. -/
theorem Coherent.consistent {registry : Registry} (h : registry.Coherent) :
    Consistent registry.embedded := by
  intro first hfirst second hsecond hid
  obtain ⟨latest, hlatest, hagrees⟩ := h.defined first hfirst
  obtain ⟨other, hother, hagrees'⟩ := h.defined second hsecond
  rw [hid, hother, Option.some.injEq] at hlatest
  exact (hlatest ▸ hagrees).symm.trans hagrees'

/-- The ids of an element and of its substreams. -/
def elementIds (element : AudioElement) : UInt32 × List UInt32 :=
  (element.id, element.substreams.map (·.id))

/-- A registry has what is left of these descriptors of another one when they have
been written and read: their ids, known codecs, and the shapes of definitions. -/
structure Mirrors (registry : Registry) (configs : List CodecConfig)
    (elements : List AudioElement) (mixes : List MixPresentation) (stage : Registry) : Prop where
  codecConfigs : stage.codecConfigs.map (·.id) = configs.map (·.id)
  known : ∀ config ∈ stage.codecConfigs, ∀ fourCC, config.codec ≠ .unknown fourCC
  audioElements : stage.audioElements.map elementIds = elements.map elementIds
  mixPresentations : stage.mixPresentations.map (·.id) = mixes.map (·.id)
  parameters : Reflect registry.embedded stage.parameters

/-- Whether something is found by its key depends on the keys only. -/
theorem isSome_find?_of_map {α β : Type} [DecidableEq β] {key : α → β} {items others : List α}
    (h : items.map key = others.map key) (wanted : β) :
    (items.find? (key · = wanted)).isSome = (others.find? (key · = wanted)).isSome := by
  have hiff : ∀ list : List α,
      (list.find? (key · = wanted)).isSome = true ↔ wanted ∈ list.map key := by
    intro list
    simp only [List.find?_isSome, decide_eq_true_eq, List.mem_map]
  rw [Bool.eq_iff_iff, hiff, hiff, h]

theorem find?_eq_none_of_map {α β : Type} [DecidableEq β] {key : α → β} {items others : List α}
    (h : items.map key = others.map key) {wanted : β}
    (hnone : others.find? (key · = wanted) = none) : items.find? (key · = wanted) = none := by
  rw [← Option.isNone_iff_eq_none, ← Option.not_isSome, isSome_find?_of_map h wanted, hnone]
  rfl

variable {registry stage : Registry} {configs : List CodecConfig} {elements : List AudioElement}
  {mixes : List MixPresentation} {obu : Obu.Complete}

theorem Mirrors.map_elementId (h : registry.Mirrors configs elements mixes stage) :
    stage.audioElements.map (·.id) = elements.map (·.id) := by
  have hids := congrArg (List.map Prod.fst) h.audioElements
  simpa only [List.map_map, Function.comp_def, elementIds] using hids

theorem Mirrors.map_substreamId (h : registry.Mirrors configs elements mixes stage) :
    stage.substreams.map (·.id) = (elements.flatMap (·.substreams)).map (·.id) := by
  have hids := congrArg (List.flatMap Prod.snd) h.audioElements
  simpa only [Registry.substreams, List.flatMap_map, List.map_flatMap, elementIds] using hids

theorem Mirrors.mergeParameters {definitions : List Parameter}
    (h : registry.Mirrors configs elements mixes stage)
    (hnew : Reflect registry.embedded definitions) :
    Reflect registry.embedded (stage.mergeParameters definitions).parameters :=
  h.parameters.merged hnew

/-- A codec config goes behind those before it. -/
theorem Mirrors.codecConfig (mode : ReadMode) {before behind : List CodecConfig}
    {config : CodecConfig} (h : registry.Mirrors before [] [] stage)
    (hcoherent : registry.Coherent) (hopenable : registry.IsOpenable)
    (hsplit : registry.codecConfigs = before ++ config :: behind)
    (hmade : obu.IsEncoded .codecConfig config.encode) :
    ∃ after, Registers mode stage obu.body obu.header.kind after
      ∧ registry.Mirrors (before ++ [config]) [] [] after := by
  obtain ⟨body, hencode, hobu⟩ := hmade
  obtain ⟨read, hparse, hid, hknown⟩ := CodecConfig.exists_parse_encode
    (hopenable.codecConfigs config (hsplit ▸ by simp)) hencode mode.strict
  have hfresh : stage.codecConfig? read.id = none := by
    rw [hid]
    exact find?_eq_none_of_map h.codecConfigs (find?_before (hsplit ▸ hcoherent.codecConfigs))
  refine ⟨_, hobu.registers (.codecConfig read hparse hfresh), ?_, ?_, h.audioElements,
    h.mixPresentations, h.parameters⟩
  · simp only [List.map_append, List.map_singleton, h.codecConfigs, hid]
  · intro config hmem
    rcases List.mem_append.1 hmem with hold | hnew
    · exact h.known config hold
    · exact List.mem_singleton.1 hnew ▸ hknown

/-- An element goes behind those before it, once all configs are there. -/
theorem Mirrors.audioElement {mode : ReadMode} (hlenient : mode.strict = false)
    {before behind : List AudioElement} {element : AudioElement}
    (h : registry.Mirrors registry.codecConfigs before [] stage)
    (hcoherent : registry.Coherent) (hopenable : registry.IsOpenable)
    (hsplit : registry.audioElements = before ++ element :: behind)
    (hmade : obu.IsEncoded .audioElement element.encode) :
    ∃ after, Registers mode stage obu.body obu.header.kind after
      ∧ registry.Mirrors registry.codecConfigs (before ++ [element]) [] after := by
  obtain ⟨body, hencode, hobu⟩ := hmade
  have hmem : element ∈ registry.audioElements := hsplit ▸ by simp
  -- The config that is found is another one than before, but of the same id.
  have hresolved : (stage.codecConfig? element.codecConfig).isSome :=
    (isSome_find?_of_map h.codecConfigs _).trans (hcoherent.configResolved element hmem)
  obtain ⟨config, hfind⟩ := Option.isSome_iff_exists.1 hresolved
  have hfresh : stage.audioElement? element.id = none :=
    find?_eq_none_of_map h.map_elementId (find?_before (hsplit ▸ hcoherent.audioElements))
  have hsources : element.parameters ⊆ registry.embedded := fun definition hdefinition =>
    List.mem_append_left _ (List.mem_flatMap.2 ⟨element, hmem, hdefinition⟩)
  obtain ⟨read, definitions, hparse, hid, hsubstreams, hnew⟩ := AudioElement.exists_parse_encode
    hlenient (hopenable.audioElements element hmem) hencode hobu.length_lt hfresh hfind
    (h.known config (List.mem_of_find?_eq_some hfind)) hcoherent.consistent hsources h.parameters
  refine ⟨_, hobu.registers (.audioElement read definitions hparse fun _ hsubstream =>
      hcoherent.untaken hsplit h.map_substreamId hsubstreams hsubstream),
    h.codecConfigs, h.known, ?_, h.mixPresentations, h.mergeParameters hnew⟩
  simp only [List.map_append, List.map_singleton, h.audioElements, elementIds, hid, hsubstreams]

/-- A presentation goes behind those before it, once all elements are there. -/
theorem Mirrors.mixPresentation (mode : ReadMode) {before behind : List MixPresentation}
    {mix : MixPresentation}
    (h : registry.Mirrors registry.codecConfigs registry.audioElements before stage)
    (hcoherent : registry.Coherent) (hopenable : registry.IsOpenable)
    (hsplit : registry.mixPresentations = before ++ mix :: behind)
    (hmade : obu.IsEncoded .mixPresentation mix.encode) :
    ∃ after, Registers mode stage obu.body obu.header.kind after
      ∧ registry.Mirrors registry.codecConfigs registry.audioElements (before ++ [mix]) after := by
  obtain ⟨body, hencode, hobu⟩ := hmade
  have hmem : mix ∈ registry.mixPresentations := hsplit ▸ by simp
  have hfresh : stage.mixPresentation? mix.id = none :=
    find?_eq_none_of_map h.mixPresentations
      (find?_before (hsplit ▸ hcoherent.mixPresentations))
  have hresolved : ∀ member ∈ mix.elements, (stage.audioElement? member.element).isSome :=
    fun member hmember => (isSome_find?_of_map h.map_elementId _).trans
      (hcoherent.elementResolved mix hmem member hmember)
  have hsources : mix.parameters ⊆ registry.embedded := fun definition hdefinition =>
    List.mem_append_right _ (List.mem_flatMap.2 ⟨mix, hmem, hdefinition⟩)
  obtain ⟨read, definitions, hparse, hid, hnew⟩ := MixPresentation.exists_parse_encode mode
    (hopenable.mixPresentations mix hmem) hencode hobu.length_lt hfresh hresolved
    hcoherent.consistent hsources h.parameters
  refine ⟨_, hobu.registers (.mixPresentation read definitions hparse), h.codecConfigs, h.known,
    h.audioElements, ?_, h.mergeParameters hnew⟩
  simp only [List.map_append, List.map_singleton, h.mixPresentations, hid]

end Registry

namespace Muxer

open Registry (Operation performAll)

/-- Descriptors that a writer takes and a reader does too lead to a registry that
mirrors them. -/
theorem Descriptors.exists_mirrors {registry : Registry} (descriptors : Descriptors registry)
    {mode : ReadMode} (hlenient : mode.strict = false) (hcoherent : registry.Coherent)
    (hopenable : registry.IsOpenable) :
    ∃ copy, Registry.RegistersAll mode .empty descriptors.obus copy
      ∧ registry.Mirrors registry.codecConfigs registry.audioElements
          registry.mixPresentations copy :=
  descriptors.exists_registersAll mode registry.Mirrors
    ⟨rfl, by simp, rfl, rfl, Parameter.reflect_nil _⟩
    (fun _ _ _ _ _ hsplit hmade h => h.codecConfig mode hcoherent hopenable hsplit hmade)
    (fun _ _ _ _ _ hsplit hmade h => h.audioElement hlenient hcoherent hopenable hsplit hmade)
    (fun _ _ _ _ _ hsplit hmade h => h.mixPresentation mode hcoherent hopenable hsplit hmade)

/-- However a registry was built, a header that was written for it can be opened,
not strictly, as long as its descriptors are ones that a reader takes and not
too long. The registry that comes back has the same ids. -/
theorem open_writeHeader {config : DemuxerConfig} {operations : List Operation}
    {muxer : Muxer} (hmax : Obu.maxSize ≤ config.maxObuSize)
    (hlenient : config.mode.strict = false) (hopenable : (performAll operations).IsOpenable)
    (hwritten : writeHeader { registry := performAll operations } = .ok () muxer)
    (hfits : DescriptorsFit (performAll operations)) :
    ∃ copy, (performAll operations).Mirrors (performAll operations).codecConfigs
        (performAll operations).audioElements (performAll operations).mixPresentations copy
      ∧ ∀ input : Input, input.rest = muxer.sink.written → input.failure = none →
        (Demuxer.ofInput config input).map (·.registry) = .ok copy := by
  obtain ⟨header, hheader, rfl⟩ := writeHeader_eq_ok hwritten
  obtain ⟨descriptors, rfl⟩ := encodeHeader_eq_ok hheader hfits
  have hcoherent := Registry.coherent_performAll operations
  obtain ⟨copy, hall, hcopy⟩ := descriptors.exists_mirrors hlenient hcoherent hopenable
  refine ⟨copy, hcopy, fun input hinput hends => ?_⟩
  exact Demuxer.ofInput_of_registersAll hall hinput hends
    (fun obu hobu => Nat.le_trans (descriptors.of_mem hobu).2 hmax)
    fun obu hobu => (descriptors.of_mem hobu).1

/-- An Opus config without the magic, and of another sample rate. -/
def looseConfig : CodecConfig :=
  { monoConfig with codec := .opus, sampleRate := 7, decoderConfig := List.replicate 11 0 }

/-- An element with a gain that is rounded and a definition of which little is sent. -/
def looseElement : AudioElement :=
  { monoElement with
    layers := [{ Layer.scalable 0 1 0 with outputGain := some ⟨0xFF, ⟨1, 3⟩⟩ }]
    demixing := some { monoDefinition with selfTimed := false, duration := 5 } }

/-- The element as it is registered. -/
def looseRegistered : AudioElement :=
  { looseElement with
    substreams := [{ Substream.ofConfig 20 monoConfig with
      decoderConfig := (List.replicate 11 0).set 9 1
      channelLayout := .mono }] }

/-- Registering both, and the config once more, which fails. -/
def looseOperations : List Operation :=
  [.addCodecConfig looseConfig, .addAudioElement looseElement, .addCodecConfig looseConfig]

/-- The header of what is then registered. -/
def looseHeader : Bytes :=
  [0xF8, 0x06, 0x69, 0x61, 0x6D, 0x66, 0x00, 0x00,
    0x00, 0x14, 0x01, 0x4F, 0x70, 0x75, 0x73, 0xC0, 0x07, 0x00, 0x00,
    0x00, 0x00, 0x00, 0x00, 0x00, 0x00, 0x00, 0x00, 0x00, 0x00, 0x00,
    0x08, 0x14, 0x05, 0x00, 0x01, 0x01, 0x14, 0x01, 0x01, 0x07, 0x80, 0xF7, 0x02, 0x80, 0x00,
    0x20, 0x08, 0x01, 0x00, 0xFC, 0x00, 0x55]

theorem performAll_loose : performAll looseOperations = {
    codecConfigs := [looseConfig]
    audioElements := [looseRegistered]
    parameters := looseRegistered.parameters } := by
  decide +kernel

theorem isOpenable_loose : (performAll looseOperations).IsOpenable := by
  rw [performAll_loose]
  refine ⟨fun config hmem => ?_, fun element hmem => ?_,
    fun _ hmem => absurd hmem List.not_mem_nil⟩
  · cases List.mem_singleton.1 hmem
    show CodecConfig.minOpusConfigSize ≤ (CodecConfig.withoutMagic looseConfig.decoderConfig).length
    decide
  · cases List.mem_singleton.1 hmem
    have hnone : looseRegistered.reconGain = none := rfl
    refine ⟨⟨by decide, rfl⟩, fun _ => rfl, fun definition hdefinition => ?_,
      by simp [hnone], fun definition hdefinition => ?_, fun hkind => by cases hkind⟩
    · cases Option.mem_def.1 hdefinition
      rfl
    · cases List.mem_singleton.1 hdefinition
      exact fun hself => absurd hself (by decide)

theorem descriptorsFit_loose : DescriptorsFit (performAll looseOperations) := by
  rw [performAll_loose]
  refine ⟨fun config hmem body h => ?_, fun element hmem body h => ?_,
    fun _ hmem => absurd hmem List.not_mem_nil⟩
  · cases List.mem_singleton.1 hmem
    cases h
    decide
  · cases List.mem_singleton.1 hmem
    cases h
    decide

/-- The loose descriptors can be opened, although little of them comes back as it was. -/
theorem open_writeHeader_loose :
    ∃ copy, (performAll looseOperations).Mirrors [looseConfig] [looseRegistered] [] copy
      ∧ ∀ input : Input, input.rest = looseHeader → input.failure = none →
        (Demuxer.ofInput {} input).map (·.registry) = .ok copy := by
  have hwritten : writeHeader { registry := performAll looseOperations }
      = .ok () (started (performAll looseOperations) looseHeader) := by
    rw [performAll_loose]
    exact writeHeader_eq rfl
  have hopened := @open_writeHeader {} looseOperations _ (Nat.le_refl _) rfl isOpenable_loose
    hwritten descriptorsFit_loose
  rw [performAll_loose] at hopened ⊢
  exact hopened

/-! ### Headers that cannot be opened -/

/-- Operations that all succeed, and lead to a header that is written but cannot be
opened. -/
def IsRefused (operations : List Operation) : Prop :=
  ∃ registry muxer, operations.forM Operation.program .empty = .ok () registry
    ∧ writeHeader { registry } = .ok () muxer
    ∧ ∀ demuxer, Demuxer.ofBytes {} muxer.sink.written ≠ .ok demuxer

theorem isRefused_of_error {operations : List Operation} {registry : Registry} {header : Bytes}
    (error : Error) (hrun : operations.forM Operation.program .empty = .ok () registry)
    (hheader : encodeHeader registry = .ok header)
    (herror : (Demuxer.ofBytes {} header).map (·.registry) = .error error) :
    IsRefused operations := by
  refine ⟨registry, _, hrun, writeHeader_eq hheader, fun demuxer hopened => ?_⟩
  have hwritten : (started registry header).sink.written = header := rfl
  rw [hwritten] at hopened
  rw [hopened] at herror
  cases herror

/-- The header of a registry with one element at most and no presentations. -/
theorem encodeHeader_of_mapM {registry : Registry} {configs elements : List Bytes}
    (hone : ¬ 1 < registry.audioElements.length) (hnone : registry.mixPresentations = [])
    (hconfigs : registry.codecConfigs.mapM (fun config => encodeObu .codecConfig config.encode)
      = .ok configs)
    (helements : registry.audioElements.mapM
      (fun element => encodeObu .audioElement element.encode) = .ok elements) :
    encodeHeader registry = .ok ([0xF8, 0x06, 0x69, 0x61, 0x6D, 0x66, 0x00, 0x00]
      ++ configs.flatten ++ elements.flatten) := by
  have hsequence : encodeObu .sequenceHeader (pure (sequenceHeader registry).encode)
      = .ok [0xF8, 0x06, 0x69, 0x61, 0x6D, 0x66, 0x00, 0x00] := by
    rw [sequenceHeader, if_neg hone]
    rfl
  simp only [encodeHeader, hsequence, hconfigs, helements, hnone]
  show Except.ok (_ ++ []) = _
  rw [List.append_nil]

/-- A codec config whose body is not too long, but whose OBU is, cannot be opened. -/
theorem isRefused_of_long {config : CodecConfig} {body : Bytes}
    (hencode : config.encode = .ok body) (hbody : body.length ≤ Obu.maxSize)
    (hlong : Obu.maxSize < Obu.wireLength none body.length) :
    IsRefused [.addCodecConfig config] := by
  have hobu : Obu.encode .codecConfig body
      = .ok (Obu.Header.writtenBytes .codecConfig none body.length ++ body) := by
    rw [Obu.encode, Obu.Header.encode_of_size _ hbody]
    rfl
  have hconfigs : [config].mapM (fun config => encodeObu .codecConfig config.encode)
      = .ok [Obu.Header.writtenBytes .codecConfig none body.length ++ body] := by
    rw [List.mapM_cons, hencode]
    show (do let piece ← Obu.encode .codecConfig body; _) = _
    rw [hobu]
    rfl
  have hheader := @encodeHeader_of_mapM { codecConfigs := [config] } _ [] (Nat.not_lt_zero 1) rfl
    hconfigs rfl
  refine ⟨{ codecConfigs := [config] }, _, rfl, writeHeader_eq hheader, fun demuxer hopened => ?_⟩
  -- If it could be opened, the OBU would not be too long.
  have hfits := descriptorsFit_of_ofBytes (Nat.le_refl _) hheader hopened
  exact absurd (hfits.codecConfigs config (List.mem_singleton_self _) body hencode)
    (Nat.not_le.2 hlong)

/-- A config with a stream info of some zeros. -/
def longConfig (count : Nat) : CodecConfig :=
  { monoConfig with codec := .flac, decoderConfig := List.replicate count 0 }

theorem isRefused_longConfig {count : Nat} (hwritten : count + 13 ≤ Obu.maxSize)
    (hlong : Obu.maxSize < count + 15) : IsRefused [.addCodecConfig (longConfig count)] := by
  have hhead : (Leb128.encode monoConfig.id ++ Bytes.ofUInt32 Codec.flac.fourCC
      ++ Leb128.encode monoConfig.frameSize ++ Bytes.ofInt16 monoConfig.seekPreroll).length
        = 9 := by
    decide
  have hinfo : (longConfig count).decoderConfig.length = count := List.length_replicate
  obtain ⟨body, hencode, hlength⟩ : ∃ body, (longConfig count).encode = .ok body
      ∧ body.length = 9 + (count + 4) := by
    refine ⟨_, rfl, ?_⟩
    rw [List.length_append]
    exact congrArg₂ (· + ·) hhead (congrArg (· + 4) hinfo)
  refine isRefused_of_long hencode (by omega) ?_
  have hsize := (Leb128.size_le (UInt32.ofNat body.length)).1
  simp only [Obu.wireLength, Obu.Header.encodeTrim, List.length_nil, Nat.add_zero]
  omega

/-- A definition that has one subblock more than there may be, if it has as many as
it says. -/
def crowdedDefinition (subblocks : List Subblock) : Parameter :=
  { Parameter.single 7 .reconGain 48000 65537 with
    constantDuration := 1
    subblocks
    element := some 5 }

/-- An element with the definition. -/
def crowdedElement (subblocks : List Subblock) : AudioElement :=
  { monoElement with demixing := none, reconGain := some (crowdedDefinition subblocks) }

/-- The OBU of the element. -/
def crowdedBytes : Bytes :=
  [0x08, 0x14, 0x05, 0x00, 0x01, 0x01, 0x14, 0x01, 0x02, 0x07, 0x80, 0xF7, 0x02, 0x00, 0x81,
    0x80, 0x04, 0x01, 0x20, 0x00, 0x01, 0x00]

section

variable {subblocks : List Subblock}

/-- None of its subblocks takes a byte, so the definition is a short one. -/
theorem encodeDefinition_crowded (hlength : subblocks.length = 65537)
    (hempty : ∀ subblock ∈ subblocks, subblock = .empty .reconGain 1) :
    (crowdedDefinition subblocks).encodeDefinition
      = .ok [0x07, 0x80, 0xF7, 0x02, 0x00, 0x81, 0x80, 0x04, 0x01] := by
  have himplied : (Parameter.impliedSubblocks 65537 1).toNat = 65537 := by decide
  have hcheck : (crowdedDefinition subblocks).checkTimeline = .ok () := by
    refine Parameter.checkTimeline_eq_ok.2 ⟨fun _ => himplied.trans hlength.symm, ?_⟩
    intro subblock hmem
    rw [hempty subblock hmem]
    rfl
  have hnone : (crowdedDefinition subblocks).subblocks.flatMap
      (Parameter.encodeDefinedSubblock (crowdedDefinition subblocks).constantDuration) = [] := by
    refine List.flatMap_eq_nil_iff.2 fun subblock hmem => ?_
    rw [hempty subblock hmem]
    rfl
  have hself : (crowdedDefinition subblocks).selfTimed = true := rfl
  simp only [Parameter.encodeDefinition, hself, if_true, hcheck, hnone, List.append_nil]
  show Except.ok (Leb128.encode 7 ++ Leb128.encode 48000 ++ [0x00]
    ++ (Leb128.encode 65537 ++ Leb128.encode 1 ++ [])) = _
  decide

theorem isRefused_crowded (hlength : subblocks.length = 65537)
    (hempty : ∀ subblock ∈ subblocks, subblock = .empty .reconGain 1) :
    IsRefused [.addCodecConfig monoConfig, .addAudioElement (crowdedElement subblocks)] := by
  have hparameters : (crowdedElement subblocks).encodeParameters
      = .ok [0x01, 0x02, 0x07, 0x80, 0xF7, 0x02, 0x00, 0x81, 0x80, 0x04, 0x01] := by
    show (do let definition ← (crowdedDefinition subblocks).encodeDefinition; _) = _
    rw [encodeDefinition_crowded hlength hempty]
    rfl
  have hencode : (crowdedElement subblocks).encode = .ok (crowdedBytes.drop 2) := by
    rw [AudioElement.encode, hparameters]
    rfl
  have helements : [crowdedElement subblocks].mapM
      (fun element => encodeObu .audioElement element.encode) = .ok [crowdedBytes] := by
    rw [List.mapM_cons, hencode]
    rfl
  have hconfigs : [monoConfig].mapM (fun config => encodeObu .codecConfig config.encode)
      = .ok [[0x00, 0x0F, 0x01, 0x69, 0x70, 0x63, 0x6D, 0xC0, 0x07, 0x00, 0x00, 0x01, 0x10,
        0x00, 0x00, 0xBB, 0x80]] := rfl
  have hheader := @encodeHeader_of_mapM
    ⟨none, [monoConfig], [crowdedElement subblocks], [], [crowdedDefinition subblocks]⟩ _ _
    (Nat.lt_irrefl 1) rfl hconfigs helements
  exact isRefused_of_error (.outOfRange "num_subblocks" 65537) rfl hheader (by decide +kernel)

end

/-- Registrations that go against one thing each that an openable descriptor has to
have. -/
def unopenable : List (List Operation) :=
  [[.addCodecConfig { monoConfig with codec := .opus }],
    [.addCodecConfig { monoConfig with codec := .aac }],
    [.addCodecConfig { monoConfig with codec := .flac }]]
  ++ [{ monoElement with kind := .reserved 1, demixing := none },
    { monoElement with kind := .reserved 2 },
    { monoElement with demixing := some (.single 7 .reconGain 48000 960) },
    { monoElement with demixing := none, reconGain := some monoDefinition },
    { monoElement with kind := .scene, layers := [.monoScene [0, 1] 1], demixing := none },
    { monoElement with
      kind := .scene
      layers := [{ Layer.monoScene [0] 1 with ambisonicsMode := some .projection }]
      demixing := none }].map
    fun element => [.addCodecConfig monoConfig, .addAudioElement element]

/-- All of them are refused, as are too many subblocks and too many bytes. -/
theorem isRefused_unopenable :
    (∀ operations ∈ unopenable, IsRefused operations)
      ∧ IsRefused [.addCodecConfig monoConfig,
        .addAudioElement (crowdedElement (List.replicate 65537 (.empty .reconGain 1)))]
      ∧ IsRefused [.addCodecConfig (longConfig (Obu.maxSize - 13))] := by
  refine ⟨?_, isRefused_crowded List.length_replicate fun _ hmem => List.eq_of_mem_replicate hmem,
    isRefused_longConfig (by decide) (by decide)⟩
  simp only [unopenable, List.map_cons, List.map_nil, List.cons_append, List.nil_append,
    List.forall_mem_cons]
  refine ⟨?opus, ?aac, ?flac, ?code, ?channel, ?demixing, ?reconGain, ?order, ?matrix, by simp⟩
  case opus =>
    exact isRefused_of_error (.truncated "opus decoder config") rfl rfl (by decide +kernel)
  case aac =>
    exact isRefused_of_error (.truncated "AudioSpecificConfig") rfl rfl (by decide +kernel)
  case flac =>
    exact isRefused_of_error (.truncated "FLAC STREAMINFO") rfl rfl (by decide +kernel)
  case channel =>
    exact isRefused_of_error (.invalidData (.parametersOnElement 1 (.reserved 2) 5)) rfl rfl
      (by decide +kernel)
  case order =>
    exact isRefused_of_error (.outOfRange "output_channel_count" 2) rfl rfl (by decide +kernel)
  case code | matrix =>
    exact isRefused_of_error (.truncated "audio element") rfl rfl (by decide +kernel)
  case demixing | reconGain =>
    exact isRefused_of_error (.invalidData (.unusedSubstreams 1)) rfl rfl (by decide +kernel)

end Muxer

end Iamf
