import Iamf.Proofs.Stream.Reading

/-!
# `Iamf.Proofs.Stream.Schedules`: how the bytes arrive does not matter

An input may hand out its bytes in pieces of any size, and be interrupted any
number of times before each of them. Two sources that have read the same bytes
ahead and have the same ones to come are `Alike`, however they are going to
deliver them, and so are two demuxers with such sources that agree on
everything else. The programs of a demuxer respect this: run on two that are
alike they give the same value or the same error, and leave two that are alike.

* `Source.respects_fill`, `Source.respects_consume`: reading ahead and consuming
  respect it, which is where `Input.Gathers` is needed.
* `Demuxer.Indifferent`: what every relation like this one does with the parts of a
  demuxer that read from its source alone.
* `Demuxer.respects_descriptorStep`, `Demuxer.respects_packetStep`: so does the
  handling of one OBU.
* `Demuxer.readDescriptors_alike`, `Demuxer.matches_readPacket`: and so does
  either phase.
* `Demuxer.transcript_eq`: what is seen of a stream does not depend on the
  schedule of its input.
-/

set_option autoImplicit false

namespace Iamf

/-! ### Programs that cannot tell states apart -/

namespace Stateful

variable {σ τ α β : Type} {alike : σ → σ → Prop}

/-- Two runs came out alike: with the same value or the same error, and in
states that are alike. -/
inductive Matches (alike : σ → σ → Prop) :
    EStateM.Result Error σ α → EStateM.Result Error σ α → Prop where
  | ok (value : α) {first second : σ} (states : alike first second) :
      Matches alike (.ok value first) (.ok value second)
  | error (error : Error) {first second : σ} (states : alike first second) :
      Matches alike (.error error first) (.error error second)

theorem Matches.of_ok {value : α} {first : σ} {other : EStateM.Result Error σ α}
    (h : Matches alike (.ok value first) other) :
    ∃ second, other = .ok value second ∧ alike first second := by
  cases h with
  | ok _ states => exact ⟨_, rfl, states⟩

theorem Matches.of_error {error : Error} {first : σ} {other : EStateM.Result Error σ α}
    (h : Matches alike (.error error first) other) :
    ∃ second, other = .error error second ∧ alike first second := by
  cases h with
  | error _ states => exact ⟨_, rfl, states⟩

/-- Run in states that are alike, a program comes out alike. -/
def Respects (alike : σ → σ → Prop) (program : Stateful σ α) : Prop :=
  ∀ ⦃first second : σ⦄, alike first second → Matches alike (program first) (program second)

theorem respects_eq (program : Stateful σ α) : Respects Eq program := by
  rintro state _ rfl
  cases program state with
  | ok value after => exact .ok value rfl
  | error error after => exact .error error rfl

theorem respects_pure (value : α) : Respects alike (pure value : Stateful σ α) :=
  fun _ _ h => .ok value h

theorem Respects.bind {program : Stateful σ α} {next : α → Stateful σ β}
    (hprogram : Respects alike program) (hnext : ∀ value, Respects alike (next value)) :
    Respects alike (program >>= next) := by
  intro first second h
  have hmatches := hprogram h
  simp only [Bind.bind, EStateM.bind]
  revert hmatches
  generalize program first = one
  generalize program second = other
  rintro (⟨value, hstates⟩ | ⟨error, hstates⟩)
  · exact hnext value hstates
  · exact .error error hstates

theorem respects_liftExcept (outcome : Except Error α) :
    Respects alike (liftExcept outcome : Stateful σ α) := by
  intro first second h
  cases outcome with
  | ok value => exact .ok value h
  | error error => exact .error error h

theorem respects_ensure (condition : Prop) [Decidable condition] (error : Error) :
    Respects alike (ensure condition error : Stateful σ Unit) := by
  intro first second h
  simp only [ensure]
  split
  · exact .ok () h
  · exact .error error h

/-- A program that looks at the state may do so where it sees the same. -/
theorem respects_get_bind {next : σ → Stateful σ α}
    (hsame : ∀ ⦃first second : σ⦄, alike first second → next first = next second)
    (hnext : ∀ state, Respects alike (next state)) : Respects alike (get >>= next) := by
  intro first second h
  rw [get_bind, get_bind, hsame h]
  exact hnext second h

theorem respects_modify {f : σ → σ}
    (hf : ∀ ⦃first second : σ⦄, alike first second → alike (f first) (f second)) :
    Respects alike (modify f : Stateful σ Unit) :=
  fun _ _ h => .ok () (hf h)

theorem Respects.onPart {part : σ → τ} {update : σ → τ → σ} {alikeParts : τ → τ → Prop}
    {program : Stateful τ α}
    (hpart : ∀ ⦃first second : σ⦄, alike first second →
      alikeParts (part first) (part second))
    (hupdate : ∀ ⦃first second : σ⦄ ⦃one other : τ⦄, alike first second →
      alikeParts one other → alike (update first one) (update second other))
    (hprogram : Respects alikeParts program) : Respects alike (onPart part update program) := by
  intro first second h
  have hmatches := hprogram (hpart h)
  simp only [Stateful.onPart]
  revert hmatches
  generalize program (part first) = one
  generalize program (part second) = other
  rintro (⟨value, hstates⟩ | ⟨error, hstates⟩)
  · exact .ok value (hupdate h hstates)
  · exact .error error (hupdate h hstates)

end Stateful

open Stateful (Matches Respects)

/-! ### Sources -/

namespace Source

/-- The same bytes have been read ahead, and the same are to come. -/
structure Alike (first second : Source) : Prop where
  lookahead : first.lookahead = second.lookahead
  rest : first.input.rest = second.input.rest
  failure : first.input.failure = second.input.failure
  ended : first.ended = second.ended

variable {first second : Source}

/-- Reading the same number of bytes gives the same and leaves the same. -/
theorem Alike.gathers {program : Nat → Input → Bytes × Outcome × Input}
    (hprogram : Input.Gathers program) (h : Alike first second) (want : Nat) :
    (program want first.input).1 = (program want second.input).1
      ∧ (program want first.input).2.1 = (program want second.input).2.1
      ∧ (program want first.input).2.2.rest = (program want second.input).2.2.rest
      ∧ (program want first.input).2.2.failure = (program want second.input).2.2.failure := by
  obtain ⟨hbytes, houtcome, hrest, hfailure⟩ := hprogram want first.input
  obtain ⟨hbytes', houtcome', hrest', hfailure'⟩ := hprogram want second.input
  have hending : first.input.ending = second.input.ending := by
    rw [Input.ending, Input.ending, h.failure]
  rw [hbytes, houtcome, hrest, hfailure, hbytes', houtcome', hrest', hfailure', h.rest,
    h.failure, hending]
  exact ⟨rfl, rfl, rfl, rfl⟩

theorem respects_fill (want : Nat) : Respects Alike (fill want) := by
  intro first second h
  obtain ⟨hbytes, houtcome, hrest, hfailure⟩ :=
    h.gathers Input.gather_eq (want - second.lookahead.length)
  -- Whatever is found out about the end, it is found out in both.
  have hfilled : ∀ ended, Alike
      { lookahead := second.lookahead
          ++ (second.input.gather (want - second.lookahead.length)).1
        input := (first.input.gather (want - second.lookahead.length)).2.2, ended }
      { lookahead := second.lookahead
          ++ (second.input.gather (want - second.lookahead.length)).1
        input := (second.input.gather (want - second.lookahead.length)).2.2, ended } :=
    fun _ => ⟨rfl, hrest, hfailure, rfl⟩
  simp only [fill, h.ended, h.lookahead, hbytes, houtcome]
  split
  · exact .ok () h
  · cases (second.input.gather (want - second.lookahead.length)).2.1 with
    | complete => exact .ok () (hfilled _)
    | ended => exact .ok () (hfilled _)
    | failed text => exact .error (.io text) (hfilled _)

theorem respects_consume {program : Nat → Input → Bytes × Outcome × Input}
    (hprogram : Input.Gathers program) (count : Nat) (subject : String) :
    Respects Alike (consume program count subject) := by
  intro first second h
  obtain ⟨hbytes, houtcome, hrest, hfailure⟩ :=
    h.gathers hprogram (count - second.lookahead.length)
  have hconsumed : ∀ ended, Alike
      { lookahead := second.lookahead.drop count
        input := (program (count - second.lookahead.length) first.input).2.2, ended }
      { lookahead := second.lookahead.drop count
        input := (program (count - second.lookahead.length) second.input).2.2, ended } :=
    fun _ => ⟨rfl, hrest, hfailure, rfl⟩
  simp only [consume, h.lookahead, h.ended, hbytes, houtcome]
  cases (program (count - second.lookahead.length) second.input).2.1 with
  | complete => exact .ok _ (hconsumed _)
  | ended => exact .error _ (hconsumed _)
  | failed text => exact .error (.io text) (hconsumed _)

theorem respects_take (count : Nat) (subject : String) : Respects Alike (take count subject) :=
  respects_consume Input.gatherChunks_eq count subject

theorem respects_skip (count : Nat) (subject : String) : Respects Alike (skip count subject) :=
  (respects_consume Input.gather_eq count subject).bind fun _ => Stateful.respects_pure ()

end Source

/-! ### Demuxers, one OBU at a time -/

namespace Demuxer

/-- Nothing but the schedules of the inputs may differ. -/
structure Alike (first second : Demuxer) : Prop where
  source : first.source.Alike second.source
  config : first.config = second.config
  registry : first.registry = second.registry
  values : first.values = second.values
  failed : first.failed = second.failed

/-- A relation between demuxers that have the same bytes to come, of which some
may have been consumed or read ahead in both. It must also let go of the values. -/
structure Indifferent (alike : Demuxer → Demuxer → Prop) : Prop where
  source : ∀ ⦃first second⦄, alike first second → first.source.Alike second.source
  setSource : ∀ ⦃first second⦄ ⦃one other : Source⦄, alike first second → one.Alike other →
    alike { first with source := one } { second with source := other }
  clearValues : ∀ ⦃first second⦄, alike first second →
    alike { first with values := {} } { second with values := {} }

namespace Indifferent

variable {alike : Demuxer → Demuxer → Prop} (h : Indifferent alike)
include h

theorem respects_onSource {α : Type} {program : Stateful Source α}
    (hprogram : Respects Source.Alike program) : Respects alike (onSource program) :=
  hprogram.onPart h.source fun _ _ _ _ hstates hsource => h.setSource hstates hsource

theorem respects_readBody (header : Obu.Header) : Respects alike (readBody header) :=
  (h.respects_onSource (Source.respects_skip _ _)).bind fun _ =>
    h.respects_onSource (Source.respects_take _ _)

theorem respects_skipObu (header : Obu.Header) (subject : String) :
    Respects alike (skipObu header subject) :=
  h.respects_onSource (Source.respects_skip _ _)

theorem respects_startTemporalUnit (header : Obu.Header) :
    Respects alike (startTemporalUnit header) :=
  (h.respects_skipObu header _).bind fun _ => Stateful.respects_modify h.clearValues

/-- A frame is read alike where packets are made alike. -/
theorem respects_readFrame (header : Obu.Header)
    (hpacket : ∀ ⦃first second⦄, alike first second → ∀ body,
      first.packetOf header body = second.packetOf header body) :
    Respects alike (readFrame header) :=
  (h.respects_readBody header).bind fun body =>
    Stateful.respects_get_bind (fun first second hstates => by rw [hpacket hstates body])
      fun _ => Stateful.respects_liftExcept _

end Indifferent

theorem indifferent_alike : Indifferent Alike where
  source := fun _ _ h => h.source
  setSource := fun _ _ _ _ h hsource => { h with source := hsource }
  clearValues := fun _ _ h => { h with values := rfl }

theorem respects_onRegistry {α : Type} (program : Registry.Update α) :
    Respects Alike (onRegistry program) :=
  (Stateful.respects_eq program).onPart (fun _ _ hstates => hstates.registry)
    fun _ _ _ _ hstates hregistry => { hstates with registry := hregistry }

theorem respects_peekHeader : Respects Alike peekHeader := by
  refine (indifferent_alike.respects_onSource (Source.respects_fill _)).bind fun _ =>
    Stateful.respects_get_bind ?_ fun state => ?_
  · intro first second h
    rw [h.source.lookahead, h.config]
  · split
    · exact Stateful.respects_pure none
    · exact (Stateful.respects_liftExcept _).bind fun header =>
        (Stateful.respects_ensure _ _).bind fun _ => Stateful.respects_pure (some header)

theorem respects_register (header : Obu.Header) : Respects Alike (register header) :=
  (indifferent_alike.respects_readBody header).bind fun body =>
    Stateful.respects_get_bind (fun _ _ h => by rw [h.config]) fun _ => respects_onRegistry _

theorem respects_handleDescriptor (header : Obu.Header) :
    Respects Alike (handleDescriptor header) := by
  cases hkind : header.kind
  all_goals simp only [handleDescriptor, hkind]
  case parameterBlock | audioFrame | impliedFrame => exact Stateful.respects_pure false
  case temporalDelimiter =>
    exact (indifferent_alike.respects_startTemporalUnit header).bind fun _ =>
      Stateful.respects_pure true
  case reserved =>
    exact (indifferent_alike.respects_skipObu header _).bind fun _ => Stateful.respects_pure true
  all_goals exact (respects_register header).bind fun _ => Stateful.respects_pure true

theorem respects_descriptorStep : Respects Alike descriptorStep := by
  refine respects_peekHeader.bind fun peeked => ?_
  cases peeked with
  | none => exact Stateful.respects_pure false
  | some header => exact respects_handleDescriptor header

theorem respects_readFrame (header : Obu.Header) : Respects Alike (readFrame header) :=
  indifferent_alike.respects_readFrame header fun first second h body => by
    simp only [packetOf, h.registry, h.values]

theorem respects_applyBlock (body : Bytes) : Respects Alike (applyBlock body) := by
  intro first second h
  simp only [applyBlock, Stateful.get_bind, Stateful.lift_bind, h.config, h.registry]
  cases Parameter.parseBlock second.config.mode second.registry body with
  | error error => exact .error error h
  | ok values =>
    cases values with
    | none => exact .ok () h
    | some values => exact .ok () (Alike.mk h.source rfl rfl (by rw [h.values]) h.failed)

theorem respects_handlePacket (header : Obu.Header) : Respects Alike (handlePacket header) := by
  cases hkind : header.kind
  all_goals simp only [handlePacket, hkind]
  case audioFrame | impliedFrame =>
    exact (respects_readFrame header).bind fun packet =>
      Stateful.respects_pure (PacketStep.packet packet)
  case parameterBlock =>
    exact (indifferent_alike.respects_readBody header).bind fun body =>
      (respects_applyBlock body).bind fun _ => Stateful.respects_pure PacketStep.passed
  case temporalDelimiter =>
    exact (indifferent_alike.respects_startTemporalUnit header).bind fun _ =>
      Stateful.respects_pure PacketStep.passed
  all_goals
    exact (indifferent_alike.respects_skipObu header _).bind fun _ =>
      Stateful.respects_pure PacketStep.passed

theorem respects_packetStep : Respects Alike packetStep := by
  refine respects_peekHeader.bind fun peeked => ?_
  cases peeked with
  | none => exact Stateful.respects_pure PacketStep.ended
  | some header => exact respects_handlePacket header

/-! ### Whole phases -/

variable {first second : Demuxer}

/-- The first phase fails alike, or leaves demuxers that are alike. -/
theorem readDescriptors_alike (h : Alike first second) :
    (∃ error, first.readDescriptors = .error error ∧ second.readDescriptors = .error error)
      ∨ ∃ one other, first.readDescriptors = .ok one ∧ second.readDescriptors = .ok other
        ∧ Alike one other := by
  -- Induction on the steps of the first demuxer; the second one does the same step.
  fun_induction readDescriptors first generalizing second with
  | case1 first after hstep ih =>
    obtain ⟨other, hother, hstates⟩ := (hstep ▸ respects_descriptorStep h).of_ok
    rw [readDescriptors_eq second, hother]
    exact ih hstates
  | case2 first after hstep =>
    obtain ⟨other, hother, hstates⟩ := (hstep ▸ respects_descriptorStep h).of_ok
    rw [readDescriptors_eq second, hother]
    exact .inr ⟨after, other, rfl, rfl, hstates⟩
  | case3 first error after hstep =>
    obtain ⟨other, hother, -⟩ := (hstep ▸ respects_descriptorStep h).of_error
    rw [readDescriptors_eq second, hother]
    exact .inl ⟨error, rfl, rfl⟩

/-- Reading a packet comes out alike. -/
theorem matches_readPacket (h : Alike first second) :
    Matches Alike first.readPacket second.readPacket := by
  fun_induction readPacket first generalizing second with
  | case1 first after hstep =>
    obtain ⟨other, hother, hstates⟩ := (hstep ▸ respects_packetStep h).of_ok
    rw [readPacket_eq second, hother]
    exact .ok none hstates
  | case2 first packet after hstep =>
    obtain ⟨other, hother, hstates⟩ := (hstep ▸ respects_packetStep h).of_ok
    rw [readPacket_eq second, hother]
    exact .ok (some packet) hstates
  | case3 first after hstep ih =>
    obtain ⟨other, hother, hstates⟩ := (hstep ▸ respects_packetStep h).of_ok
    rw [readPacket_eq second, hother]
    exact ih hstates
  | case4 first error after hstep =>
    obtain ⟨other, hother, hstates⟩ := (hstep ▸ respects_packetStep h).of_error
    rw [readPacket_eq second, hother]
    exact .error error hstates

/-! ### What is seen of a stream -/

/-- What so many calls of `readPacket` give, each of which goes on where the one
before has stopped, be it at a packet, at a failure or at the end of the input. -/
def results : Nat → Demuxer → List (Except Error (Option Packet))
  | 0, _ => []
  | count + 1, demuxer =>
    match demuxer.readPacket with
    | .ok packet after => .ok packet :: results count after
    | .error error after => .error error :: results count after

/-- What is seen of a stream. -/
structure Transcript where
  /-- The registry that opening the stream gives. -/
  registry : Registry
  /-- What the calls of `readPacket` give that follow. -/
  results : List (Except Error (Option Packet))

/-- Opens a stream and reads so many packets; the error if it cannot be opened. -/
def transcript (config : DemuxerConfig) (calls : Nat) (input : Input) :
    Except Error Transcript := do
  let demuxer ← ofInput config input
  return { registry := demuxer.registry, results := demuxer.results calls }

theorem results_alike (calls : Nat) (h : Alike first second) :
    first.results calls = second.results calls := by
  induction calls generalizing first second with
  | zero => rfl
  | succ calls ih =>
    have hmatches := matches_readPacket h
    simp only [results]
    revert hmatches
    generalize first.readPacket = one
    generalize second.readPacket = other
    rintro (⟨packet, hstates⟩ | ⟨error, hstates⟩)
    · simp only [ih hstates]
    · simp only [ih hstates]

/-- How an input hands out its bytes, and where it is interrupted, is not seen:
the same bytes with the same end give the same registry and the same packets,
errors and end of stream. -/
theorem transcript_eq (config : DemuxerConfig) (calls : Nat) (bytes : Bytes)
    (failure : Option String) (one other : Schedule) :
    transcript config calls { rest := bytes, failure, schedule := one }
      = transcript config calls { rest := bytes, failure, schedule := other } := by
  have hstart : Alike
      { source := { input := { rest := bytes, failure, schedule := one } }, config }
      { source := { input := { rest := bytes, failure, schedule := other } }, config } :=
    ⟨⟨rfl, rfl, rfl, rfl⟩, rfl, rfl, rfl, rfl⟩
  simp only [transcript, ofInput]
  rcases readDescriptors_alike hstart with
    ⟨error, hone, hother⟩ | ⟨opened, reopened, hone, hother, hstates⟩
  · rw [hone, hother]
  · rw [hone, hother]
    show Except.ok (Transcript.mk opened.registry (opened.results calls))
      = .ok (Transcript.mk reopened.registry (reopened.results calls))
    rw [hstates.registry, results_alike calls hstates]

end Demuxer

end Iamf
