import Iamf.Proofs.Stream.Invariants
import Iamf.Proofs.Stream.Truncated
import Iamf.Proofs.Wire.Strictness

/-!
# `Iamf.Proofs.Stream.Tightened`: what a tighter config changes

A config may ask for OBUs without bytes left over, and for OBUs that are not too
large. Two demuxers that differ in this alone are run on one input. They do the
same, step by step, until the tighter one finds something to object to, and then
it stops. So the tighter run is the looser one, or a beginning of it.

A program is `Confined` if its two runs come out alike or the tight one ends with
a restriction. What the loose run does from there on is of no interest, except
that it cannot go back: it is still behind the place where the tight one stopped,
and has the same descriptors if these were complete.

* `Demuxer.confined_descriptorStep`, `Demuxer.confined_packetStep`: one OBU.
* `Demuxer.readDescriptors_tightened`, `Demuxer.readPackets_tightened`: either phase.
* `Demuxer.session_of_tightens`: a whole stream.
-/

set_option autoImplicit false

namespace Iamf

open Stateful (Kept Keeps Matches Respects)

/-! ### Programs that stop early at most -/

namespace Stateful

variable {σ α β : Type} {alike beyond : σ → σ → Prop}

/-- Two runs came out alike, or the first one ended with a restriction. Then the
second one, whatever it came to, is `beyond` where the first one ended. -/
inductive Confined (alike beyond : σ → σ → Prop) :
    EStateM.Result Error σ α → EStateM.Result Error σ α → Prop where
  | matched {tight loose : EStateM.Result Error σ α} (matched : Matches alike tight loose) :
      Confined alike beyond tight loose
  | restricted {error : Error} {state : σ} {loose : EStateM.Result Error σ α}
      (restriction : error.IsRestriction)
      (kept : Kept (beyond state) (fun _ => True) (fun _ => True) loose) :
      Confined alike beyond (.error error state) loose

theorem Confined.of_ok {value : α} {state : σ} {other : EStateM.Result Error σ α}
    (h : Confined alike beyond (.ok value state) other) :
    ∃ second, other = .ok value second ∧ alike state second := by
  cases h with
  | matched hmatched => exact hmatched.of_ok

theorem Confined.of_error {error : Error} {state : σ} {other : EStateM.Result Error σ α}
    (h : Confined alike beyond (.error error state) other) :
    (∃ second, other = .error error second ∧ alike state second)
      ∨ error.IsRestriction ∧ Kept (beyond state) (fun _ => True) (fun _ => True) other := by
  cases h with
  | matched hmatched => exact .inl hmatched.of_error
  | restricted hrestriction hkept => exact .inr ⟨hrestriction, hkept⟩

/-- Run in states that are alike but for their configs, a program does the same or
stops early. -/
def Confines (alike beyond : σ → σ → Prop) (program : Stateful σ α) : Prop :=
  ∀ ⦃tight loose : σ⦄, alike tight loose →
    Confined alike beyond (program tight) (program loose)

theorem Respects.confines {program : Stateful σ α} (h : Respects alike program) :
    Confines alike beyond program :=
  fun _ _ hstates => .matched (h hstates)

/-- Behind a program that may stop early, the loose run must not go back. -/
theorem Confines.bind {program : Stateful σ β} {next : β → Stateful σ α}
    (h : Confines alike beyond program) (hnext : ∀ value, Confines alike beyond (next value))
    (hkeeps : ∀ state value, Keeps (beyond state) (fun _ => True) (fun _ => True) (next value)) :
    Confines alike beyond (program >>= next) := by
  intro tight loose hstates
  have hfirst := h hstates
  simp only [Bind.bind, EStateM.bind]
  revert hfirst
  generalize program tight = one
  generalize program loose = other
  rintro ((⟨value, hmiddle⟩ | ⟨error, hmiddle⟩) | ⟨hrestriction, hkept⟩)
  · exact hnext value hmiddle
  · exact .matched (.error error hmiddle)
  · cases hkept with
    | ok hmiddle _ => exact .restricted hrestriction (hkeeps _ _ hmiddle)
    | error hmiddle _ => exact .restricted hrestriction (.error hmiddle trivial)

/-- A program that does not stop early may stand in front of any. -/
theorem Respects.confines_bind {program : Stateful σ β} {next : β → Stateful σ α}
    (h : Respects alike program) (hnext : ∀ value, Confines alike beyond (next value)) :
    Confines alike beyond (program >>= next) := by
  intro tight loose hstates
  have hfirst := h hstates
  simp only [Bind.bind, EStateM.bind]
  revert hfirst
  generalize program tight = one
  generalize program loose = other
  rintro (⟨value, hmiddle⟩ | ⟨error, hmiddle⟩)
  · exact hnext value hmiddle
  · exact .matched (.error error hmiddle)

/-- Giving a value after a program changes nothing. -/
theorem Confines.and_pure {program : Stateful σ β} (h : Confines alike beyond program)
    (value : α) : Confines alike beyond (program >>= fun _ => pure value) :=
  h.bind (fun _ => (respects_pure value).confines) fun _ _ => keeps_pure trivial

/-- An invariant that is kept, whatever a program gives and fails with. -/
theorem Keeps.states {holds : σ → Prop} {gives : α → Prop} {fails : Error → Prop}
    {program : Stateful σ α} (h : Keeps holds gives fails program) :
    Keeps holds (fun _ => True) (fun _ => True) program := by
  intro state hstate
  have hrun := h hstate
  revert hrun
  generalize program state = result
  rintro (⟨hafter, -⟩ | ⟨hafter, -⟩)
  · exact .ok hafter trivial
  · exact .error hafter trivial

end Stateful

open Stateful (Confined Confines)

/-! ### Configs -/

/-- A config that accepts no more than another one does. -/
structure DemuxerConfig.Tightens (tight loose : DemuxerConfig) : Prop where
  strict : loose.strict = true → tight.strict = true
  maxObuSize : tight.maxObuSize ≤ loose.maxObuSize

theorem DemuxerConfig.Tightens.mode {tight loose : DemuxerConfig} (h : tight.Tightens loose) :
    tight.mode.Tightens loose.mode :=
  ⟨h.strict, rfl⟩

namespace Demuxer

variable {tight loose : DemuxerConfig}

/-- Two demuxers that have got equally far, one under either config. -/
structure Parallel (tight loose : DemuxerConfig) (first second : Demuxer) : Prop where
  source : first.source.Alike second.source
  tight : first.config = tight
  loose : second.config = loose
  registry : first.registry = second.registry
  values : first.values = second.values

theorem indifferent_parallel : Indifferent (Parallel tight loose) where
  source := fun _ _ h => h.source
  setSource := fun _ _ _ _ h hsource => { h with source := hsource }
  clearValues := fun _ _ h => { h with values := rfl }

/-! ### One OBU -/

/-- The size of an OBU may be too large for one config alone. -/
theorem confines_peekHeader {beyond : Demuxer → Demuxer → Prop} (h : tight.Tightens loose)
    (hbeyond : ∀ ⦃first second⦄, Parallel tight loose first second → beyond first second) :
    Confines (Parallel tight loose) beyond peekHeader := by
  refine (indifferent_parallel.respects_onSource (Source.respects_fill _)).confines_bind
    fun _ first second hstates => ?_
  simp only [Stateful.get_bind, hstates.source.lookahead, hstates.tight, hstates.loose]
  split
  · exact .matched (.ok none hstates)
  · rw [Stateful.lift_bind, Stateful.lift_bind]
    cases Obu.Header.parse second.source.lookahead with
    | error error => exact .matched (.error error hstates)
    | ok header =>
      by_cases htight : header.totalLength ≤ tight.maxObuSize
      · have hloose := Nat.le_trans htight h.maxObuSize
        simp only [ensure, if_pos htight, if_pos hloose]
        exact .matched (.ok (some header) hstates)
      · -- The looser config may let the OBU pass, or object too.
        have hkept : Keeps (beyond first) (fun _ => True) (fun _ => True)
            ((ensure (header.totalLength ≤ loose.maxObuSize)
              (.outOfRange "obu_size" header.totalLength) : Stateful Demuxer Unit)
                >>= fun _ => pure (some header)) :=
          (Stateful.keeps_ensure fun _ => trivial).and_then fun _ => Stateful.keeps_pure trivial
        simp only [ensure, if_neg htight]
        exact .restricted (.obuSize header.totalLength) (hkept (hbeyond hstates))

/-- What one body does to the registry, in either mode. -/
theorem confines_register (h : tight.Tightens loose) (header : Obu.Header) :
    Confines (Parallel tight loose) (fun _ _ => True) (register header) := by
  refine (indifferent_parallel.respects_readBody header).confines_bind
    fun body first second hstates => ?_
  simp only [Stateful.get_bind, hstates.tight, hstates.loose, onRegistry, Stateful.onPart,
    hstates.registry]
  rcases Registry.parseDescriptor_of_tightens h.mode second.registry header.kind body with
    hsame | ⟨error, hrestriction, herror⟩
  · rw [hsame]
    cases Registry.parseDescriptor loose.mode header.kind body second.registry with
    | ok value registry =>
      exact .matched (.ok value ⟨hstates.source, rfl, rfl, rfl, hstates.values⟩)
    | error error registry =>
      exact .matched (.error error ⟨hstates.source, rfl, rfl, rfl, hstates.values⟩)
  · rw [herror]
    exact .restricted hrestriction (Stateful.kept_anything _)

theorem confines_handleDescriptor (h : tight.Tightens loose) (header : Obu.Header) :
    Confines (Parallel tight loose) (fun _ _ => True) (handleDescriptor header) := by
  cases hkind : header.kind
  all_goals simp only [handleDescriptor, hkind]
  case parameterBlock | audioFrame | impliedFrame => exact (Stateful.respects_pure false).confines
  case temporalDelimiter =>
    exact (indifferent_parallel.respects_startTemporalUnit header).confines.and_pure true
  case reserved => exact (indifferent_parallel.respects_skipObu header _).confines.and_pure true
  all_goals exact (confines_register h header).and_pure true

theorem confines_descriptorStep (h : tight.Tightens loose) :
    Confines (Parallel tight loose) (fun _ _ => True) descriptorStep := by
  refine (confines_peekHeader h fun _ _ _ => trivial).bind (fun peeked => ?_)
    fun _ _ _ _ => Stateful.kept_anything _
  cases peeked with
  | none => exact (Stateful.respects_pure false).confines
  | some header => exact confines_handleDescriptor h header

/-- A demuxer that has gone on from another one, with the same descriptors. -/
structure Beyond (before after : Demuxer) : Prop where
  source : before.source.Follows after.source
  registry : after.registry = before.registry

theorem Parallel.beyond {first second : Demuxer} (h : Parallel tight loose first second) :
    first.Beyond second := by
  have hunread : second.source.unread = first.source.unread := by
    rw [Source.unread, Source.unread, h.source.lookahead, h.source.rest]
  exact ⟨⟨h.source.failure.symm, [], hunread⟩, h.registry.symm⟩

theorem endures_beyond (before : Demuxer) : Endures before.Beyond fun _ => True where
  source := fun _ _ h hfollows => ⟨h.source.trans hfollows, h.registry⟩
  cleared := fun _ h => ⟨h.source, h.registry⟩
  owed := fun _ _ _ _ => trivial

theorem beyond_applyBlock (before : Demuxer) (body : Bytes) :
    Keeps before.Beyond (fun _ => True) (fun _ => True) (applyBlock body) := by
  refine .get_bind fun demuxer hdemuxer => ?_
  refine (Stateful.keeps_liftExcept (fun _ _ => trivial)
    fun _ _ => trivial : Keeps _ (fun _ => True) _ _).and_then fun found => ?_
  cases found with
  | none => exact Stateful.keeps_pure trivial
  | some values => exact fun _ _ => .ok ⟨hdemuxer.source, hdemuxer.registry⟩ trivial

theorem beyond_handlePacket (before : Demuxer) (header : Obu.Header) :
    Keeps before.Beyond (PacketStep.Gives fun _ => True) (fun _ => True) (handlePacket header) :=
  (endures_beyond before).keeps_handlePacket (fun _ _ _ _ _ _ => trivial)
    (fun _ _ _ _ _ _ => trivial) (beyond_applyBlock before) header

theorem beyond_packetStep (before : Demuxer) :
    Keeps before.Beyond (PacketStep.Gives fun _ => True) (fun _ => True) packetStep :=
  (endures_beyond before).keeps_packetStep (fun _ _ _ _ _ _ => trivial)
    (fun _ _ _ _ _ _ => trivial) (beyond_applyBlock before)

theorem confines_applyBlock (h : tight.Tightens loose) (body : Bytes) :
    Confines (Parallel tight loose) Beyond (applyBlock body) := by
  intro first second hstates
  rcases Parameter.restricts_parseBlock h.mode second.registry body with
    hsame | ⟨error, hrestriction, herror⟩
  · simp only [applyBlock, Stateful.get_bind, Stateful.lift_bind, hstates.tight, hstates.loose,
      hstates.registry, hsame]
    rcases Parameter.parseBlock loose.mode second.registry body with error | (_ | values)
    · exact .matched (.error error hstates)
    · exact .matched (.ok () hstates)
    · exact .matched (.ok () (Parallel.mk hstates.source rfl rfl rfl (by rw [hstates.values])))
  · have hfirst : applyBlock body first = .error error first := by
      simp only [applyBlock, Stateful.get_bind, Stateful.lift_bind, hstates.tight,
        hstates.registry, herror]
    rw [hfirst]
    exact .restricted hrestriction (beyond_applyBlock first body hstates.beyond)

theorem confines_handlePacket (h : tight.Tightens loose) (header : Obu.Header) :
    Confines (Parallel tight loose) Beyond (handlePacket header) := by
  cases hkind : header.kind
  all_goals simp only [handlePacket, hkind]
  case audioFrame | impliedFrame =>
    have hread := indifferent_parallel.respects_readFrame header
      fun first second (hstates : Parallel tight loose first second) body => by
        simp only [packetOf, hstates.registry, hstates.values]
    exact (hread.bind fun packet => Stateful.respects_pure (PacketStep.packet packet)).confines
  case parameterBlock =>
    exact (indifferent_parallel.respects_readBody header).confines_bind fun body =>
      (confines_applyBlock h body).and_pure PacketStep.passed
  case temporalDelimiter =>
    exact (indifferent_parallel.respects_startTemporalUnit header).confines.and_pure
      PacketStep.passed
  all_goals
    exact (indifferent_parallel.respects_skipObu header _).confines.and_pure PacketStep.passed

theorem confines_packetStep (h : tight.Tightens loose) :
    Confines (Parallel tight loose) Beyond packetStep := by
  refine (confines_peekHeader h fun _ _ hstates => hstates.beyond).bind (fun peeked => ?_)
    fun before peeked => ?_
  · cases peeked with
    | none => exact (Stateful.respects_pure PacketStep.ended).confines
    | some header => exact confines_handlePacket h header
  · cases peeked with
    | none => exact Stateful.keeps_pure trivial
    | some header => exact (beyond_handlePacket before header).states

/-! ### Whole phases -/

/-- The first phase fails with a restriction, or it comes out alike. -/
theorem readDescriptors_tightened (h : tight.Tightens loose) {first second : Demuxer}
    (hstates : Parallel tight loose first second) :
    (∃ error, error.IsRestriction ∧ first.readDescriptors = .error error)
      ∨ (∃ error, first.readDescriptors = .error error ∧ second.readDescriptors = .error error)
      ∨ ∃ one other, first.readDescriptors = .ok one ∧ second.readDescriptors = .ok other
        ∧ Parallel tight loose one other := by
  -- Induction on the steps of the tighter demuxer; the other one keeps up with it.
  fun_induction readDescriptors first generalizing second with
  | case1 first after hstep ih =>
    obtain ⟨other, hother, hafter⟩ := (hstep ▸ confines_descriptorStep h hstates).of_ok
    rw [readDescriptors_eq second, hother]
    exact ih hafter
  | case2 first after hstep =>
    obtain ⟨other, hother, hafter⟩ := (hstep ▸ confines_descriptorStep h hstates).of_ok
    rw [readDescriptors_eq second, hother]
    exact .inr (.inr ⟨after, other, rfl, rfl, hafter⟩)
  | case3 first error after hstep =>
    rcases (hstep ▸ confines_descriptorStep h hstates).of_error with
      ⟨other, hother, -⟩ | ⟨hrestriction, -⟩
    · rw [readDescriptors_eq second, hother]
      exact .inr (.inl ⟨error, rfl, rfl⟩)
    · exact .inl ⟨error, hrestriction, rfl⟩

theorem beyond_readPacket (before : Demuxer) :
    Keeps before.Beyond (fun _ => True) (fun _ => True) readPacket :=
  (keeps_readPacket (beyond_packetStep before)).states

theorem confines_readPacket (h : tight.Tightens loose) :
    Confines (Parallel tight loose) Beyond readPacket := by
  intro first second hstates
  fun_induction readPacket first generalizing second with
  | case1 first after hstep =>
    obtain ⟨other, hother, hafter⟩ := (hstep ▸ confines_packetStep h hstates).of_ok
    rw [readPacket_eq second, hother]
    exact .matched (.ok none hafter)
  | case2 first packet after hstep =>
    obtain ⟨other, hother, hafter⟩ := (hstep ▸ confines_packetStep h hstates).of_ok
    rw [readPacket_eq second, hother]
    exact .matched (.ok (some packet) hafter)
  | case3 first after hstep ih =>
    obtain ⟨other, hother, hafter⟩ := (hstep ▸ confines_packetStep h hstates).of_ok
    rw [readPacket_eq second, hother]
    exact ih hafter
  | case4 first error after hstep =>
    rcases (hstep ▸ confines_packetStep h hstates).of_error with
      ⟨other, hother, hafter⟩ | ⟨hrestriction, hkept⟩
    · rw [readPacket_eq second, hother]
      exact .matched (.error error hafter)
    · -- The looser demuxer may go on for any number of OBUs.
      refine .restricted hrestriction ?_
      rw [readPacket_eq second]
      revert hkept
      generalize packetStep second = result
      rintro (⟨hother, -⟩ | ⟨hother, -⟩)
      · rename_i step other
        cases step with
        | ended => exact .ok hother trivial
        | packet packet => exact .ok hother trivial
        | passed => exact beyond_readPacket after hother
      · exact .error hother trivial

/-- All packets up to a failure or the end, of which the first call has been made. -/
theorem beyond_readPackets {before demuxer : Demuxer}
    (h : Kept before.Beyond (fun _ => True) (fun _ => True) demuxer.readPacket) :
    before.Beyond demuxer.readPackets.demuxer := by
  fun_induction readPackets demuxer with
  | case1 demuxer after hread => exact (hread ▸ h).of_ok.1
  | case2 demuxer packet after hread ih =>
    exact ih (beyond_readPacket before (hread ▸ h).of_ok.1)
  | case3 demuxer error after hread => exact (hread ▸ h).of_error.1

/-- What was read under the tighter config, next to what was read under the looser
one: all of it, or a beginning with a restriction behind it. -/
inductive Played.Tightened (tight loose : DemuxerConfig) : Played → Played → Prop where
  | same {packets : List Packet} {failure : Option Error} {one other : Demuxer}
      (states : Parallel tight loose one other) :
      Tightened tight loose ⟨packets, failure, one⟩ ⟨packets, failure, other⟩
  | short {error : Error} {packets : List Packet} {one : Demuxer} {played : Played}
      (restriction : error.IsRestriction) (begins : packets <+: played.packets)
      (beyond : one.Beyond played.demuxer) :
      Tightened tight loose ⟨packets, some error, one⟩ played

theorem Played.Tightened.after {one other : Played} (h : one.Tightened tight loose other)
    (earlier : List Packet) : (one.after earlier).Tightened tight loose (other.after earlier) := by
  cases h with
  | same states => exact .same states
  | short restriction begins beyond =>
    exact .short restriction ((List.prefix_append_right_inj earlier).2 begins) beyond

theorem readPackets_tightened (h : tight.Tightens loose) {first second : Demuxer}
    (hstates : Parallel tight loose first second) :
    Played.Tightened tight loose first.readPackets second.readPackets := by
  fun_induction readPackets first generalizing second with
  | case1 first after hread =>
    obtain ⟨other, hother, hafter⟩ := (hread ▸ confines_readPacket h hstates).of_ok
    rw [readPackets_of_readPacket second, hother]
    exact .same hafter
  | case2 first packet after hread ih =>
    obtain ⟨other, hother, hafter⟩ := (hread ▸ confines_readPacket h hstates).of_ok
    rw [readPackets_of_readPacket second, hother]
    exact (ih hafter).after [packet]
  | case3 first error after hread =>
    rcases (hread ▸ confines_readPacket h hstates).of_error with
      ⟨other, hother, hafter⟩ | ⟨hrestriction, hkept⟩
    · rw [readPackets_of_readPacket second, hother]
      exact .same hafter
    · exact .short hrestriction List.nil_prefix (beyond_readPackets hkept)

end Demuxer

/-! ### Whole streams -/

/-- A session that ended with a restriction, and what comes of the stream without
it: the stream is opened too if it was opened, with the same descriptors, its
packets begin with those of the session, and no more of it is left unread. -/
inductive Session.StopsShort : Session → Session → Prop where
  | refused {error : Error} (restriction : error.IsRestriction) (other : Session) :
      StopsShort (.refused error) other
  | played {error : Error} (restriction : error.IsRestriction) {registry : Registry}
      {packets others : List Packet} {values latest : Snapshot} {failure : Option Error}
      {unread left : Bytes} (begins : packets <+: others) (behind : left <:+ unread) :
      StopsShort (.played registry packets values (some error) unread)
        (.played registry others latest failure left)

namespace Demuxer

variable {tight loose : DemuxerConfig}

/-- The registry of an opened stream is the one that is left at its end. -/
theorem sessionOf_tightened (h : tight.Tightens loose) {one other : Demuxer}
    (hstates : Parallel tight loose one other) :
    sessionOf (.ok one) = sessionOf (.ok other)
      ∨ (sessionOf (.ok one)).StopsShort (sessionOf (.ok other)) := by
  have hplayed := readPackets_tightened h hstates
  simp only [sessionOf]
  revert hplayed
  generalize one.readPackets = played
  generalize other.readPackets = replayed
  rintro (hafter | ⟨hrestriction, hbegins, hbeyond⟩)
  · simp only [Source.unread, hafter.source.lookahead, hafter.source.rest, hafter.registry,
      hafter.values, true_or]
  · rw [hbeyond.registry]
    exact .inr (.played hrestriction hbegins hbeyond.source.unread)

/-- A tighter config only restricts. Whatever the input, the tighter run is the
looser one, or it stops at bytes that are left over in an OBU or at the size of an
OBU, and until then it was the same. -/
theorem session_of_tightens (h : tight.Tightens loose) (input : Input) :
    session tight input = session loose input
      ∨ (session tight input).StopsShort (session loose input) := by
  have hstart : Parallel tight loose { source := { input }, config := tight }
      { source := { input }, config := loose } :=
    ⟨⟨rfl, rfl, rfl, rfl⟩, rfl, rfl, rfl, rfl⟩
  rw [session, session, ofInput, ofInput]
  rcases readDescriptors_tightened h hstart with
    ⟨error, hrestriction, hone⟩ | ⟨error, hone, hother⟩ | ⟨one, other, hone, hother, hstates⟩
  · rw [hone]
    exact .inr (.refused hrestriction _)
  · rw [hone, hother]
    exact .inl rfl
  · rw [hone, hother]
    exact sessionOf_tightened h hstates

/-- A mono stream with two frames, and between them a parameter block with a byte
left over. -/
def paddedStream : Bytes :=
  Muxer.monoHeader ++ [0x20, 0x00, 0x28, 0x02, 0x14, 0x07]
    ++ [0x18, 0x03, 0x07, 0x40, 0x00, 0x28, 0x02, 0x14, 0x08]

set_option maxRecDepth 4000 in
/-- A strict reader stops at the block, another one reads both frames. -/
theorem session_of_tightens_padded :
    ({ strict := true } : DemuxerConfig).Tightens {}
      ∧ (session { strict := true } { rest := paddedStream }).failure
        = some (.underread .parameterBlock 1)
      ∧ (session {} { rest := paddedStream }).failure = none
      ∧ (session {} { rest := paddedStream }).packets.length = 2
      ∧ (session { strict := true } { rest := paddedStream }
          = session {} { rest := paddedStream }
        ∨ (session { strict := true } { rest := paddedStream }).StopsShort
          (session {} { rest := paddedStream })) :=
  have htightens : ({ strict := true } : DemuxerConfig).Tightens {} :=
    ⟨fun _ => rfl, Nat.le_refl _⟩
  ⟨htightens, by decide +kernel, by decide +kernel, by decide +kernel,
    session_of_tightens htightens _⟩

end Demuxer

end Iamf
