import Iamf.Proofs.Registry.Blamed
import Iamf.Proofs.Stream.Invariants
import Iamf.Proofs.Stream.Opened

/-!
# `Iamf.Proofs.Stream.Blamed`: streams are to blame for themselves

A demuxer fails because the bytes are malformed, or because its input failed;
nothing else can go wrong. So with an input that only ends every error is invalid
data, that of opening the stream and those of all calls behind it, whatever came
before them.

Behind the descriptors even less can go wrong. A registry that was read is grounded,
so whatever a parameter block looks up there is found, and the one reference that may
lead nowhere is that of an audio frame to its substream.

* `Registry.keeps_parseDescriptor`: the errors of descriptors.
* `Demuxer.played_packetStep`: those of the OBUs behind them.
* `Demuxer.owed_of_ofInput`, `Demuxer.owed_of_mem_results`: those of a whole stream.
-/

set_option autoImplicit false

namespace Iamf

open Error.IncludesBytes (of_bytes)
open Stateful (Kept Keeps)

namespace Error

variable {failure : Option String} {error : Error}

/-- What an input with this failure at its end can make a reader fail with: the
bytes may be to blame, or the failure. -/
def IsOwed (failure : Option String) (error : Error) : Prop :=
  error.isInvalidData = true ∨ ∃ text ∈ failure, error = .io text

/-- What reading packets from it can fail with: what reading can fail with at all, or a
frame of a substream that is not there. -/
def IsPlayed (failure : Option String) (error : Error) : Prop :=
  error.IsCut failure ∨ ∃ id, error = .unknownReference .substream id

theorem IsCut.isOwed (h : error.IsCut failure) : error.IsOwed failure :=
  h.imp_left fun hbytes => (of_bytes hbytes : error.IsInvalid)

theorem IsPlayed.isOwed (h : error.IsPlayed failure) : error.IsOwed failure := by
  rcases h with hcut | ⟨id, rfl⟩
  · exact hcut.isOwed
  · exact .inl rfl

end Error

/-- The body of a descriptor is to blame where it cannot be registered. -/
theorem Registry.keeps_parseDescriptor (mode : ReadMode) (kind : Obu.Kind) (body : Bytes) :
    Keeps (fun _ => True) (fun _ => True) (fun error => error.isInvalidData = true)
      (parseDescriptor mode kind body) := by
  refine .get_bind fun registry _ => ?_
  cases kind
  case sequenceHeader =>
    exact (Stateful.keeps_liftExcept (fun _ _ => trivial) fun _ =>
      (SequenceHeader.blames_read mode.strict).parse).and_then fun header =>
        Stateful.keeps_modify fun _ _ => trivial
  case codecConfig =>
    exact (Stateful.keeps_liftExcept (fun _ _ => trivial) fun _ =>
      (CodecConfig.blames_read mode.strict).parse).and_then fun config =>
        .get_bind fun registry _ => Keeps.and_then (Stateful.keeps_ensure fun _ => rfl) fun _ =>
          Stateful.keeps_modify fun _ _ => trivial
  case audioElement =>
    refine (Stateful.keeps_liftExcept (fun _ _ => trivial) fun _ =>
      (AudioElement.blames_read mode registry).parse).and_then fun found => ?_
    cases found with
    | none => exact Stateful.keeps_pure trivial
    | some found =>
      refine .get_bind fun registry _ => ?_
      split
      · exact fun _ _ => .error trivial rfl
      · exact (Stateful.keeps_modify fun _ _ => trivial).and_then fun _ =>
          Stateful.keeps_modify fun _ _ => trivial
  case mixPresentation =>
    exact (Stateful.keeps_liftExcept (fun _ _ => trivial) fun _ =>
      (MixPresentation.blames_read mode registry).parse).and_then fun found =>
        (Stateful.keeps_modify fun _ _ => trivial).and_then fun _ =>
          Stateful.keeps_modify fun _ _ => trivial
  all_goals exact Stateful.keeps_pure trivial

namespace Demuxer

variable {failure : Option String}

/-- The input of a demuxer fails at its end as said, or does not fail. -/
abbrev EndsWith (failure : Option String) (demuxer : Demuxer) : Prop :=
  demuxer.source.EndsWith failure

theorem sustains_endsWith : Sustains (EndsWith failure) (Error.IsOwed failure) where
  source := fun _ _ h hsource => hsource.trans h
  cleared := fun _ h => h
  owed := fun _ _ h herror => h ▸ herror.isOwed

theorem owed_descriptorStep :
    Keeps (EndsWith failure) (fun _ => True) (Error.IsOwed failure) descriptorStep :=
  -- The registry knows nothing of the input, so its errors are never failures of that.
  sustains_endsWith.endures.keeps_descriptorStep fun kind body => .get_bind fun demuxer _ =>
    keeps_onRegistry (fun _ _ hdemuxer => hdemuxer)
      (Registry.keeps_parseDescriptor demuxer.config.mode kind body) fun _ => .inl

/-- A stream that cannot be opened is malformed, or its input failed. -/
theorem owed_of_ofInput {config : DemuxerConfig} {input : Input} {error : Error}
    (h : ofInput config input = .error error) : error.IsOwed input.failure :=
  readDescriptors_fails owed_descriptorStep rfl h

/-! ### Packets -/

variable {registry : Registry}

/-- The registry of a demuxer is this one, and its input fails at its end as said. -/
structure Plays (fixed : Registry) (failure : Option String) (demuxer : Demuxer) : Prop where
  registry : demuxer.registry = fixed
  endsWith : demuxer.EndsWith failure

theorem sustains_plays : Sustains (Plays registry failure) (Error.IsPlayed failure) where
  source := fun _ _ h hsource => ⟨h.registry, hsource.trans h.endsWith⟩
  cleared := fun _ h => ⟨h.registry, h.endsWith⟩
  owed := fun _ _ h herror => .inl (h.endsWith ▸ herror)

/-- A frame that makes no packet is malformed, or of a substream that is not there. -/
theorem played_of_packetOf {demuxer : Demuxer} {header : Obu.Header} {body : Bytes}
    {error : Error} (h : demuxer.packetOf header body = .error error) :
    error.IsPlayed failure := by
  have hsplit : ∀ kind error, splitFrame kind body = .error error → error.IsOfBytes := by
    intro kind error herror
    unfold splitFrame at herror
    split at herror
    · cases herror
    · exact (Leb128.blames_read.bind fun _ => Read.blames_remaining.bind fun _ =>
        Read.blames_pure _).parse herror
  rw [packetOf] at h
  cases hframe : splitFrame header.kind body with
  | error found =>
    rw [hframe] at h
    cases h
    exact .inl (.inl (hsplit header.kind error hframe))
  | ok frame =>
    obtain ⟨id, data⟩ := frame
    cases hfind : demuxer.registry.substream? id with
    | none =>
      simp only [hframe, Bind.bind, Except.bind, hfind] at h
      cases h
      exact .inr ⟨id, rfl⟩
    | some substream =>
      simp only [hframe, Bind.bind, Except.bind, hfind] at h
      cases h

/-- The layers that carry the recon gain of a block can always be told. -/
theorem played_applyBlock (hgrounded : registry.Grounded) (body : Bytes) :
    Keeps (Plays registry failure) (fun _ => True) (Error.IsPlayed failure) (applyBlock body) := by
  refine .get_bind fun demuxer hdemuxer => ?_
  have hcarrying : ∀ definition ∈ demuxer.registry.parameters, ∀ error,
      definition.carryingLayers demuxer.registry = .error error → error.IsOfBytes := by
    intro definition hmem error herror
    rw [hdemuxer.registry] at hmem herror
    obtain ⟨carrying, hfound⟩ := (hgrounded definition hmem).exists_carryingLayers
    cases hfound.symm.trans herror
  refine (Stateful.keeps_liftExcept (fun _ _ => trivial) fun error herror =>
    .inl (.inl ((Parameter.blames_readBlock _ hcarrying).parse herror))).and_then fun found => ?_
  cases found with
  | none => exact Stateful.keeps_pure trivial
  | some values => exact fun _ _ => .ok ⟨hdemuxer.registry, hdemuxer.endsWith⟩ trivial

theorem played_packetStep (hgrounded : registry.Grounded) :
    Keeps (Plays registry failure) (PacketStep.Gives fun _ => True) (Error.IsPlayed failure)
      packetStep :=
  sustains_plays.endures.keeps_packetStep (fun _ _ _ _ _ _ => trivial)
    (fun _ _ _ _ _ herror => played_of_packetOf herror) (played_applyBlock hgrounded)

/-- What a call behind the opening fails on, also after other failures. -/
theorem played_of_mem_results {config : DemuxerConfig} {input : Input} {opened : Demuxer}
    {calls : Nat} {error : Error} (hopened : ofInput config input = .ok opened)
    (h : .error error ∈ opened.results calls) : error.IsPlayed input.failure := by
  have hstart : opened.Plays opened.registry input.failure :=
    ⟨rfl, readDescriptors_of_keeps owed_descriptorStep rfl hopened⟩
  exact results_of_keeps (keeps_readPacket (played_packetStep (grounded_of_ofInput hopened)))
    calls hstart _ h

/-- The stream is malformed there too, or its input failed. -/
theorem owed_of_mem_results {config : DemuxerConfig} {input : Input} {opened : Demuxer}
    {calls : Nat} {error : Error} (hopened : ofInput config input = .ok opened)
    (h : .error error ∈ opened.results calls) : error.IsOwed input.failure :=
  (played_of_mem_results hopened h).isOwed

end Demuxer

end Iamf
