import Iamf.Proofs.Element.Openable

/-!
# `Iamf.Proofs.Element.Reencoded`: audio elements that were read can be written again

A body may list unknown parameters, and of one kind more than one, of which only the
last stays in the element. It may have bytes left over, and numbers that are longer
than they have to be. None of that is in the element. So it can be written where it is
well formed, and what is written gives the element back.

Not every element that is read is well formed. The layers of a body may couple more
substreams than they take, and a scene whose mode is not known has no layer at all.

* `nodup_parameters`: the parameters of an element that was read have different ids.
* `Readable.exists_encode_iff`: a readable element can be written if it is well formed.
* `encode_of_parseElement`: what is written of an element that was read.
-/

set_option autoImplicit false

namespace Iamf

namespace AudioElement

variable {registry : Registry} {element : AudioElement}

/-- Down-mixing and recon gain of an element that was read have different ids: what a
body brings has one definition of an id, and that has one kind. -/
theorem nodup_parameters {body : Bytes} {definitions : List Parameter}
    (h : element.Readable registry) (hbrings : element.Brings registry body definitions) :
    (element.parameters.map (·.id)).Nodup := by
  rw [parameters]
  cases hdemixing : element.demixing with
  | none => cases element.reconGain <;> simp
  | some first =>
    cases hreconGain : element.reconGain with
    | none => simp
    | some second =>
      have hne : first.id ≠ second.id := by
        intro hid
        obtain ⟨latest, hlatest, hfirst⟩ :=
          hbrings.covered first (mem_parameters.2 (.inl hdemixing))
        obtain ⟨other, hother, hsecond⟩ :=
          hbrings.covered second (mem_parameters.2 (.inr hreconGain))
        rw [hid, hother, Option.some.injEq] at hlatest
        have hkind : first.kind = second.kind :=
          hfirst.kind.symm.trans (hlatest ▸ hsecond.kind)
        rw [(h.demixing first hdemixing).1, (h.reconGain second hreconGain).1] at hkind
        cases hkind
      simpa using hne

/-! ### What can be written -/

theorem exists_encodeListed (kind : ParameterKind) {parameter : Option Parameter} (tail : Bytes)
    (h : ∀ definition ∈ parameter, ∃ bytes, definition.encodeDefinition = .ok bytes) :
    ∃ bytes, encodeListed kind parameter tail = .ok bytes := by
  cases parameter with
  | none => exact ⟨[], rfl⟩
  | some definition =>
    obtain ⟨bytes, hbytes⟩ := h definition rfl
    exact ⟨_, encodeListed_eq hbytes kind tail⟩

theorem Readable.exists_encodeParameters (h : element.Readable registry) :
    ∃ bytes, element.encodeParameters = .ok bytes := by
  -- What was allowed where it was read has a timeline that passes the test of the writer.
  have hdefinition : ∀ definition ∈ element.parameters,
      ∃ bytes, definition.encodeDefinition = .ok bytes := fun _ hmem =>
    ⟨_, Parameter.encodeDefinition_eq (h.allows hmem).timed⟩
  obtain ⟨demixing, hdemixing⟩ := exists_encodeListed .demixing [element.defaultWeight <<< 4]
    fun definition hmem => hdefinition definition (mem_parameters.2 (.inl hmem))
  obtain ⟨reconGain, hreconGain⟩ := exists_encodeListed .reconGain []
    fun definition hmem => hdefinition definition (mem_parameters.2 (.inr hmem))
  rw [encodeParameters_eq, hdemixing, hreconGain]
  exact ⟨_, rfl⟩

/-- The layer of a scene that was read has no more channels than a byte counts, and for
each of them a component or a column of the matrix. -/
theorem exists_encodeAmbisonics {substreamCount : Nat} {layer : Layer}
    (h : layer.IsScene substreamCount) :
    ∃ bytes, encodeAmbisonics substreamCount layer = .ok bytes := by
  cases h with
  | @mono components count hcount hchannels horder =>
    have hcomponents : (Layer.monoScene components count).channelLayout.ambisonicChannels?
        = some components := ChannelLayout.ambisonicChannels?_ambisonicMap components
    refine ⟨_, encodeAmbisonics_of_components (by simp [Layer.monoScene]) ?_ hcomponents⟩
    rw [← ChannelLayout.length_ambisonicChannels? hcomponents]
    exact Nat.le_of_lt_succ hchannels
  | @projection channels count coupledCount matrix hcount horder hlength hmatrix =>
    refine ⟨_, encodeAmbisonics_of_projection rfl ?_⟩
    rw [ChannelLayout.channelCount, UInt8.toNat_toUInt16]
    exact Nat.le_of_lt_succ channels.toNat_lt

theorem Readable.exists_encodeLayers (h : element.Readable registry)
    (hvalid : element.validate = .ok ()) : ∃ bytes, element.encodeLayers = .ok bytes := by
  have hlayers := h.layers
  rw [HasReadableLayers] at hlayers
  rw [encodeLayers]
  cases hkind : element.kind with
  | channel => exact ⟨_, rfl⟩
  | scene =>
    -- A scene without a layer is not well formed.
    obtain ⟨layer, hlayer⟩ := List.length_eq_one_iff.1 ((validate_eq_ok hvalid).2 hkind).1
    simp only [hkind, hlayer] at hlayers ⊢
    exact exists_encodeAmbisonics (hlayers layer (List.mem_singleton_self layer)).2
  | reserved code => exact ⟨_, rfl⟩

/-- A readable element can be written just if it is well formed. -/
theorem Readable.exists_encode_iff (h : element.Readable registry) :
    (∃ body, element.encode = .ok body) ↔ element.validate = .ok () := by
  constructor
  · rintro ⟨body, hencode⟩
    exact (encode_eq_ok hencode).1
  · intro hvalid
    obtain ⟨parameters, hparameters⟩ := h.exists_encodeParameters
    obtain ⟨layers, hlayers⟩ := h.exists_encodeLayers hvalid
    rw [encode, hvalid, hparameters, hlayers]
    exact ⟨_, rfl⟩

/-- An element that was read can be written just if it is well formed. Where it was read,
what is written is read as the same element in every field, however strictly, and as one
that brings only the parameters that it embeds. -/
theorem encode_of_parseElement {mode : ReadMode} {body : Bytes} {definitions : List Parameter}
    (h : parse mode registry body = .ok (some (element, definitions))) :
    ((∃ rewritten, element.encode = .ok rewritten) ↔ element.validate = .ok ())
      ∧ ∀ rewritten, element.encode = .ok rewritten → ∀ again : ReadMode,
        parse again registry rewritten = .ok (some (element, element.parameters)) := by
  obtain ⟨hreadable, hbrings⟩ := parse_eq_ok h
  refine ⟨hreadable.exists_encode_iff, fun rewritten hencode again => ?_⟩
  exact parse_encode hreadable (nodup_parameters hreadable hbrings) hencode again

/-- A registry with one codec config, and a definition of recon gain from before. -/
def pcmRegistry : Registry where
  codecConfigs :=
    [{ id := 0
       codec := .pcm { littleEndian := true, depth := .bits16 }
       frameSize := 4
       seekPreroll := 0
       sampleRate := 48000
       decoderConfig := [] }]
  parameters :=
    [{ id := 9
       kind := .reconGain
       rate := 1
       selfTimed := false
       duration := 8
       constantDuration := 8
       subblocks := []
       element := some 3 }]

/-- A stereo element that lists an unknown parameter, down-mixing twice, and the recon gain
that there was. Its layer has an output gain, and a byte is left over. -/
def wordyElement : Bytes :=
  [0x01, 0x00, 0x00, 0x01, 0x14, 0x04,
    0x05, 0x01, 0xAA,
    0x01, 0x07, 0x01, 0x80, 0x30,
    0x01, 0x08, 0x01, 0x00, 0x04, 0x00, 0x02, 0x01, 0x40, 0x03, 0xA0, 0x50,
    0x02, 0x09, 0x01, 0x80,
    0x20, 0x1C, 0x01, 0x01, 0xFC, 0xFF, 0x00,
    0x55]

/-- A scene whose mode is not known. -/
def modelessScene : Bytes :=
  [0x01, 0x20, 0x00, 0x01, 0x14, 0x00, 0x02]

/-- The element is read with what it brings, written, and read again with what it embeds.
The scene is read but cannot be written. -/
theorem encode_of_parseElement_wordy :
    (∃ element definitions, parse {} pcmRegistry wordyElement = .ok (some (element, definitions))
      ∧ definitions.map (·.id) = [7, 8, 9] ∧ element.parameters.map (·.id) = [8, 9]
      ∧ ∃ rewritten, element.encode = .ok rewritten ∧ ∀ again : ReadMode,
        parse again pcmRegistry rewritten = .ok (some (element, element.parameters)))
    ∧ ∃ scene definitions, parse {} pcmRegistry modelessScene = .ok (some (scene, definitions))
      ∧ ¬ ∃ rewritten, scene.encode = .ok rewritten := by
  refine ⟨?element, ?scene⟩
  case element =>
    have hread : (parse {} pcmRegistry wordyElement).map (·.map fun read =>
        (read.1.validate, read.2.map (·.id), read.1.parameters.map (·.id)))
        = .ok (some (.ok (), [7, 8, 9], [8, 9])) := by decide +kernel
    obtain ⟨result, hresult, hfound⟩ := outcome_map_eq_ok.1 hread
    obtain ⟨⟨element, definitions⟩, rfl, hparts⟩ := Option.map_eq_some_iff.1 hfound
    simp only [Prod.mk.injEq] at hparts
    obtain ⟨hvalid, hbrought, hembedded⟩ := hparts
    obtain ⟨hwritable, hagain⟩ := encode_of_parseElement hresult
    obtain ⟨rewritten, hencode⟩ := hwritable.2 hvalid
    exact ⟨element, definitions, hresult, hbrought, hembedded, rewritten, hencode,
      hagain rewritten hencode⟩
  case scene =>
    have hread : (parse {} pcmRegistry modelessScene).map (·.map fun read =>
        decide (read.1.validate = .ok ())) = .ok (some false) := by decide +kernel
    obtain ⟨result, hresult, hfound⟩ := outcome_map_eq_ok.1 hread
    obtain ⟨⟨scene, definitions⟩, rfl, hinvalid⟩ := Option.map_eq_some_iff.1 hfound
    exact ⟨scene, definitions, hresult, fun hwritten =>
      of_decide_eq_false hinvalid ((encode_of_parseElement hresult).1.1 hwritten)⟩

end AudioElement

end Iamf
