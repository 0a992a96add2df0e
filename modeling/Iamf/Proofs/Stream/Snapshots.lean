import Iamf.Proofs.Parameter.Parsed
import Iamf.Proofs.Stream.Invariants
import Iamf.Proofs.Stream.Packets

/-!
# `Iamf.Proofs.Stream.Snapshots`: the values that come with a packet

A packet carries the latest values of every kind since the last temporal
delimiter. They were read from parameter blocks that may lie far back in the
stream, beyond other packets and beyond failures, so what holds of them is an
invariant of the demuxer: the definition of their id accounts for them.

The registry that accounts for them is the one that opening the stream gives;
no later OBU changes it.

* `Registry.Explains`: what is known of values that were read.
* `Demuxer.keeps_applyBlock`: a block that is read puts such values into their slot.
* `Demuxer.supports_transcript`: every packet of a stream has a substream, and its
  values are explained, each in its slot.
-/

set_option autoImplicit false

namespace Iamf

open Stateful (Keeps)

/-! ### Slots -/

/-- The values of one kind. -/
def Snapshot.slot (snapshot : Snapshot) : ParameterKind → Option Parameter
  | .mixGain => snapshot.mixGain
  | .demixing => snapshot.demixing
  | .reconGain => snapshot.reconGain

/-- Newer values take the slot of their kind and leave the others alone. -/
theorem Snapshot.slot_update (snapshot : Snapshot) (values : Parameter) (kind : ParameterKind) :
    (snapshot.update values).slot kind
      = if kind = values.kind then some values else snapshot.slot kind := by
  rw [update]
  cases values.kind <;> cases kind <;> rfl

/-! ### Values that are accounted for -/

/-- Only layers that an element has can carry recon gain. -/
theorem AudioElement.hasReconGain_of_mem {element : AudioElement} {layer : Nat}
    (h : layer ∈ element.reconGainLayers) :
    element.layers[layer]?.any (·.hasReconGain) = true := by
  simp only [reconGainLayers, List.mem_map, List.mem_filter] at h
  obtain ⟨⟨found, _⟩, ⟨hmem, hgain⟩, rfl⟩ := h
  have hget : element.layers[_]? = some found :=
    List.mk_mem_zipIdx_iff_getElem?.1 (List.mem_of_mem_take hmem)
  rw [hget]
  exact hgain

namespace Registry

/-- The registry says how a set of values has to look: as the definition of its id
does, in whatever the definition fixes, and as its kind and its timeline do in the
rest. -/
structure Explains (registry : Registry) (values : Parameter) : Prop where
  /-- The definition agrees with the values, down to the durations if it has them. -/
  defined : ∃ definition, registry.parameter? values.id = some definition
    ∧ values.kind = definition.kind ∧ values.rate = definition.rate
    ∧ values.selfTimed = definition.selfTimed ∧ values.element = definition.element
    ∧ (values.selfTimed = true → values.duration = definition.duration
        ∧ values.constantDuration = definition.constantDuration
        ∧ values.subblocks.map (·.duration) = definition.subblocks.map (·.duration))
  /-- All subblocks are of the kind of the parameter. -/
  kinds : ∀ subblock ∈ values.subblocks, subblock.kind = values.kind
  bounded : values.subblocks.length ≤ maxSubblocks
  /-- A constant duration says how many subblocks there are and how long they are. -/
  regular : values.constantDuration ≠ 0 →
    values.subblocks.length = values.duration.toNat / values.constantDuration.toNat
      ∧ ∀ subblock ∈ values.subblocks, subblock.duration = values.constantDuration
  /-- Modes of down-mixing have three bits. -/
  modes : ∀ subblock ∈ values.subblocks, ∀ mode, subblock.value = .demixing mode → mode < 8
  /-- Recon gain is zero where no layer of the element carries it. -/
  tables : ∀ subblock ∈ values.subblocks, ∀ table, subblock.value = .reconGain table →
    ∃ id element, values.element = some id ∧ registry.audioElement? id = some element
      ∧ ∀ layer, element.layers[layer]?.any (·.hasReconGain) = false → table.row layer = .zero

/-- The layers of a recon gain definition are those of the element it is linked to. -/
theorem carryingLayers_eq_ok {registry : Registry} {definition : Parameter} {carrying : List Nat}
    (h : definition.carryingLayers registry = .ok carrying)
    (hkind : definition.kind = .reconGain) :
    ∃ id element, definition.element = some id ∧ registry.audioElement? id = some element
      ∧ carrying = element.reconGainLayers := by
  rw [Parameter.carryingLayers, if_pos hkind, reconGainLayers] at h
  cases hlink : definition.element with
  | none => exact absurd h (by simp [hlink, outcome_throw_eq_ok])
  | some id =>
    cases helement : registry.audioElement? id with
    | none => exact absurd h (by simp [hlink, helement, outcome_throw_eq_ok])
    | some element =>
      simp only [hlink, helement, outcome_pure_eq_ok] at h
      exact ⟨id, element, rfl, helement, h.symm⟩

/-- Values that were read are accounted for. -/
theorem explains_of_parseBlock {mode : ReadMode} {registry : Registry} {body : Bytes}
    {values : Parameter} (hgrounded : registry.Grounded)
    (h : Parameter.parseBlock mode registry body = .ok (some values)) :
    registry.Explains values := by
  obtain ⟨definition, carrying, hfind, hcarrying, hconforms⟩ :=
    Parameter.parseBlock_eq_ok hgrounded h
  have hground := hgrounded definition (List.mem_of_find?_eq_some hfind)
  exact {
    defined := ⟨definition, hfind, hconforms.kind, hconforms.rate, hconforms.selfTimed,
      hconforms.element, fun hself => hconforms.copied (hconforms.selfTimed ▸ hself)⟩
    kinds := fun subblock hmem => (hconforms.fits subblock hmem).kind_eq.trans hconforms.kind.symm
    bounded := hconforms.bounded
    regular := by
      intro hne
      obtain ⟨hcount, hall⟩ := hconforms.isRegular hground.timed_isTimed hne
      exact ⟨by rw [← hcount, Parameter.impliedSubblocks, UInt32.toNat_div], hall⟩
    modes := by
      intro subblock hmem mode hvalue
      have hfits := hconforms.fits subblock hmem
      rw [hvalue] at hfits
      have hkind := hfits.kind_eq
      -- For a value of this kind, to fit is to have a mode below eight.
      rw [← hkind] at hfits
      exact UInt8.lt_iff_toNat_lt.2 hfits
    tables := by
      intro subblock hmem table hvalue
      have hfits := hconforms.fits subblock hmem
      rw [hvalue] at hfits
      have hkind := hfits.kind_eq
      obtain ⟨id, element, hlink, helement, rfl⟩ := carryingLayers_eq_ok hcarrying hkind.symm
      refine ⟨id, element, hconforms.element.trans hlink, helement, fun layer hnone => ?_⟩
      rw [← hkind] at hfits
      by_cases hlayer : layer < maxLayers
      · refine hfits layer hlayer fun hmem => ?_
        rw [AudioElement.hasReconGain_of_mem hmem] at hnone
        cases hnone
      · -- A table has no rows beyond the layers that an element may have.
        rw [GainTable.row, dif_neg hlayer] }

/-- The slots of a snapshot hold values of their kind that are accounted for. -/
def ExplainsAll (registry : Registry) (snapshot : Snapshot) : Prop :=
  ∀ kind values, snapshot.slot kind = some values → values.kind = kind ∧ registry.Explains values

/-- A packet belongs to a substream, and its values are accounted for. -/
structure Supports (registry : Registry) (packet : Packet) : Prop where
  substream : ∃ found, registry.substream? packet.substream = some found
    ∧ found.streamIndex = packet.streamIndex
  values : registry.ExplainsAll packet.values

theorem explainsAll_empty (registry : Registry) : registry.ExplainsAll {} := by
  intro kind values h
  cases kind <;> cases h

theorem ExplainsAll.update {registry : Registry} {snapshot : Snapshot} {values : Parameter}
    (h : registry.ExplainsAll snapshot) (hvalues : registry.Explains values) :
    registry.ExplainsAll (snapshot.update values) := by
  intro kind found hslot
  rw [Snapshot.slot_update] at hslot
  split at hslot
  · rename_i hkind
    cases hslot
    exact ⟨hkind.symm, hvalues⟩
  · exact h kind found hslot

end Registry

/-! ### The invariant of a demuxer -/

namespace Demuxer

variable {registry : Registry}

/-- The registry is fixed and accounts for all values that are kept. -/
structure Explained (fixed : Registry) (demuxer : Demuxer) : Prop where
  registry : demuxer.registry = fixed
  values : fixed.ExplainsAll demuxer.values

theorem sustains_explained : Sustains (Explained registry) fun _ => True where
  source := fun _ _ h _ => ⟨h.registry, h.values⟩
  cleared := fun _ h => ⟨h.registry, registry.explainsAll_empty⟩
  owed := fun _ _ _ _ => trivial

/-- A parameter block puts values into their slot that are accounted for. -/
theorem keeps_applyBlock (hgrounded : registry.Grounded) (body : Bytes) :
    Keeps (Explained registry) (fun _ => True) (fun _ => True) (applyBlock body) := by
  refine .get_bind fun demuxer hdemuxer => ?_
  refine (Stateful.keeps_liftExcept (fun values hvalues => hvalues)
    fun _ _ => trivial).bind fun found hfound => ?_
  cases found with
  | none => exact Stateful.keeps_pure trivial
  | some values =>
    rw [hdemuxer.registry] at hfound
    exact fun _ _ => .ok ⟨hdemuxer.registry,
      hdemuxer.values.update (Registry.explains_of_parseBlock hgrounded hfound)⟩ trivial

/-- A packet has the substream of its frame and the values that are kept. -/
theorem supports_packetOf {demuxer : Demuxer} {header : Obu.Header} {body : Bytes}
    {packet : Packet} (hdemuxer : demuxer.Explained registry)
    (h : demuxer.packetOf header body = .ok packet) : registry.Supports packet := by
  simp only [packetOf, outcome_bind_eq_ok] at h
  obtain ⟨⟨id, data⟩, -, h⟩ := h
  cases hfind : demuxer.registry.substream? id with
  | none =>
    rw [hfind] at h
    exact absurd h (by simp [outcome_throw_eq_ok])
  | some found =>
    simp only [hfind, outcome_pure_eq_ok] at h
    subst h
    exact ⟨⟨found, hdemuxer.registry ▸ hfind, rfl⟩, hdemuxer.values⟩

/-- A step of the second phase keeps the values explained, and so is what it gives. -/
theorem explained_packetStep (hgrounded : registry.Grounded) :
    Keeps (Explained registry) (PacketStep.Gives registry.Supports) (fun _ => True) packetStep :=
  sustains_explained.endures.keeps_packetStep
    (fun _ _ _ _ hdemuxer h => supports_packetOf hdemuxer h)
    (fun _ _ _ _ _ _ => trivial)
    (keeps_applyBlock hgrounded)

/-- No values are kept while a stream is opened. -/
theorem values_of_ofInput {config : DemuxerConfig} {input : Input} {opened : Demuxer}
    (h : ofInput config input = .ok opened) : opened.values = {} := by
  -- Of all that the first phase does, only a delimiter touches the values, and it clears them.
  have hsustains : Sustains (fun demuxer => demuxer.values = {}) fun _ => True :=
    ⟨fun _ _ h _ => h, fun _ _ => rfl, fun _ _ _ _ => trivial⟩
  exact readDescriptors_of_keeps (hsustains.endures.keeps_descriptorStep fun _ _ =>
    .get_bind fun _ _ => keeps_onRegistry (fun _ _ hvalues => hvalues)
      (fun _ _ => Stateful.kept_anything _) fun _ _ => trivial) rfl h

/-- Whatever packets a stream gives, also behind failures, the registry that opening
it gave has their substreams and accounts for the values that come with them. -/
theorem supports_transcript {config : DemuxerConfig} {calls : Nat} {input : Input}
    {seen : Transcript} (h : transcript config calls input = .ok seen) :
    ∀ packet, .ok (some packet) ∈ seen.results → seen.registry.Supports packet := by
  simp only [transcript, outcome_bind_eq_ok, outcome_pure_eq_ok] at h
  obtain ⟨opened, hopen, rfl⟩ := h
  -- The registry that opening gave is the fixed one: no call changes it any more.
  have hstart : opened.Explained opened.registry :=
    ⟨rfl, values_of_ofInput hopen ▸ opened.registry.explainsAll_empty⟩
  have hstep := explained_packetStep (grounded_of_ofInput hopen)
  intro packet hmem
  exact results_of_keeps (keeps_readPacket hstep) calls hstart _ hmem

/-- A mono stream with a frame and the down-mixing mode for it. -/
def valuedStream : Bytes :=
  Muxer.monoHeader
    ++ [0x20, 0x00, 0x18, 0x02, 0x07, 0x40, 0x28, 0x04, 0x14, 0x01, 0x02, 0x03]

set_option maxRecDepth 4000 in
/-- The packet of the stream comes with the mode. -/
theorem supports_transcript_mono :
    ∃ seen, transcript {} 1 { rest := valuedStream } = .ok seen
      ∧ .ok (some Muxer.monoPacket) ∈ seen.results
      ∧ Muxer.monoPacket.values.slot .demixing = some Muxer.monoValues
      ∧ seen.registry.Supports Muxer.monoPacket := by
  have hread : (transcript {} 1 { rest := valuedStream }).map (·.results)
      = .ok [.ok (some Muxer.monoPacket)] := by decide +kernel
  obtain ⟨seen, hseen, hresults⟩ := outcome_map_eq_ok.1 hread
  have hmem : .ok (some Muxer.monoPacket) ∈ seen.results :=
    hresults ▸ List.mem_singleton_self _
  exact ⟨seen, hseen, hmem, rfl, supports_transcript hseen _ hmem⟩

end Demuxer

end Iamf
