import Iamf.Proofs.Stream.Schedules
import Iamf.Proofs.Wire.Blames

/-!
# `Iamf.Proofs.Stream.Invariants`: what a demuxer keeps

A call of a demuxer may fail, and the next call goes on from where it stopped. So
what holds of a demuxer all the time has to survive failures too.
`Stateful.Keeps` says of a program that it keeps an invariant, whichever way it
comes out, and what it gives and fails with.

Most of a demuxer's steps are the same for every invariant: they read from the
source, which leaves everything else alone. What an invariant has to show of
itself is in `Endures`, or in `Sustains` if it does not mind what is to come, and
`Endures.keeps_packetStep` is the walk through a step.

* `Source.keeps_fill`, `Source.keeps_consume`: what a source can fail with, and that
  it only goes on.
* `Demuxer.Endures.keeps_packetStep`, `Demuxer.keeps_readPacket`: one step, and one call.
* `Demuxer.results_of_keeps`: all the calls that follow.
-/

set_option autoImplicit false

namespace Iamf

/-! ### Programs that keep an invariant -/

namespace Stateful

variable {σ α β : Type} {holds : σ → Prop} {gives : α → Prop} {fails : Error → Prop}

/-- A run came out in a state where `holds` is true, with a value or an error as said. -/
inductive Kept (holds : σ → Prop) (gives : α → Prop) (fails : Error → Prop) :
    EStateM.Result Error σ α → Prop where
  | ok {value : α} {after : σ} (state : holds after) (given : gives value) :
      Kept holds gives fails (.ok value after)
  | error {error : Error} {after : σ} (state : holds after) (failed : fails error) :
      Kept holds gives fails (.error error after)

theorem Kept.of_ok {value : α} {after : σ} (h : Kept holds gives fails (.ok value after)) :
    holds after ∧ gives value := by
  cases h with
  | ok state given => exact ⟨state, given⟩

theorem Kept.of_error {error : Error} {after : σ}
    (h : Kept holds gives fails (.error error after)) : holds after ∧ fails error := by
  cases h with
  | error state failed => exact ⟨state, failed⟩

/-- Of a run of which nothing is asked. -/
theorem kept_anything (result : EStateM.Result Error σ α) :
    Kept (fun _ => True) (fun _ => True) (fun _ => True) result := by
  cases result with
  | ok value after => exact .ok trivial trivial
  | error error after => exact .error trivial trivial

/-- From a state where `holds` is true the program leads to another one, whether it
succeeds or fails. -/
def Keeps (holds : σ → Prop) (gives : α → Prop) (fails : Error → Prop)
    (program : Stateful σ α) : Prop :=
  ∀ ⦃state : σ⦄, holds state → Kept holds gives fails (program state)

theorem keeps_pure {value : α} (h : gives value) :
    Keeps holds gives fails (pure value : Stateful σ α) :=
  fun _ hstate => .ok hstate h

theorem Keeps.bind {between : β → Prop} {program : Stateful σ β} {next : β → Stateful σ α}
    (h : Keeps holds between fails program)
    (hnext : ∀ value, between value → Keeps holds gives fails (next value)) :
    Keeps holds gives fails (program >>= next) := by
  intro state hstate
  have hfirst := h hstate
  simp only [Bind.bind, EStateM.bind]
  -- Only what the first program came to matters from here on.
  revert hfirst
  generalize program state = first
  rintro (⟨hmiddle, hvalue⟩ | ⟨hmiddle, herror⟩)
  · exact hnext _ hvalue hmiddle
  · exact .error hmiddle herror

/-- Two programs in a row, of which the first one gives nothing to rely on. -/
theorem Keeps.and_then {program : Stateful σ β} {next : β → Stateful σ α}
    (h : Keeps holds (fun _ => True) fails program)
    (hnext : ∀ value, Keeps holds gives fails (next value)) :
    Keeps holds gives fails (program >>= next) :=
  h.bind fun value _ => hnext value

theorem keeps_liftExcept {outcome : Except Error α}
    (hok : ∀ value, outcome = .ok value → gives value)
    (herror : ∀ error, outcome = .error error → fails error) :
    Keeps holds gives fails (liftExcept outcome : Stateful σ α) := by
  intro state hstate
  cases outcome with
  | ok value => exact .ok hstate (hok value rfl)
  | error error => exact .error hstate (herror error rfl)

theorem keeps_ensure {condition : Prop} [Decidable condition] {error : Error}
    (h : ¬ condition → fails error) :
    Keeps holds (fun _ => True) fails (ensure condition error : Stateful σ Unit) := by
  intro state hstate
  simp only [ensure]
  split
  · exact .ok hstate trivial
  · rename_i hcondition
    exact .error hstate (h hcondition)

/-- A program that starts with a look at the state may rely on the invariant there. -/
theorem Keeps.get_bind {next : σ → Stateful σ α}
    (h : ∀ state, holds state → Keeps holds gives fails (next state)) :
    Keeps holds gives fails (get >>= next) :=
  fun state hstate => h state hstate hstate

theorem keeps_modify {f : σ → σ} (h : ∀ state, holds state → holds (f state)) :
    Keeps holds (fun _ => True) fails (modify f : Stateful σ PUnit) :=
  fun state hstate => .ok (h state hstate) trivial

end Stateful

open Error.IncludesBytes (of_bytes)
open Stateful (Kept Keeps)

/-! ### Sources -/

/-- What reading from an input with this failure at its end can fail with: its bytes, or the
failure. -/
def Error.IsCut (failure : Option String) (error : Error) : Prop :=
  error.IsOfBytes ∨ ∃ text ∈ failure, error = .io text

namespace Source

variable {failure : Option String}

/-- The failure at the end of an input stays there. -/
abbrev EndsWith (failure : Option String) (source : Source) : Prop :=
  source.input.failure = failure

theorem ending_eq_failed {input : Input} {text : String} (h : input.ending = .failed text) :
    text ∈ input.failure := by
  rw [Input.ending] at h
  split at h
  · cases h
  · rename_i found hfailure
    cases h
    exact hfailure

/-- Reading many bytes fails only with the failure at the end of the input. -/
theorem failed_of_gathers {program : Nat → Input → Bytes × Outcome × Input}
    (hprogram : Input.Gathers program) {want : Nat} {input : Input} {text : String}
    (h : (program want input).2.1 = .failed text) : text ∈ input.failure := by
  rw [(hprogram want input).2.1] at h
  split at h
  · cases h
  · exact ending_eq_failed h

/-- A source that has come from another one by reading ahead and consuming: what is
to come is the end of what was, and so is the failure behind it. -/
structure Follows (before after : Source) : Prop where
  failure : after.input.failure = before.input.failure
  unread : after.unread <:+ before.unread

theorem Follows.refl (source : Source) : source.Follows source :=
  ⟨rfl, List.suffix_rfl⟩

theorem Follows.trans {first second third : Source} (h : first.Follows second)
    (h' : second.Follows third) : first.Follows third :=
  ⟨h'.failure.trans h.failure, h'.unread.trans h.unread⟩

/-- What comes of dropping some bytes, from what was read ahead and behind it. -/
theorem follows_of_drop {before after : Source} (count : Nat)
    (hlookahead : after.lookahead = before.lookahead.drop count)
    (hrest : after.input.rest = before.input.rest.drop (count - before.lookahead.length))
    (hfailure : after.input.failure = before.input.failure) : before.Follows after := by
  refine ⟨hfailure, ?_⟩
  rw [unread, unread, hlookahead, hrest, ← List.drop_append]
  exact List.drop_suffix count _

variable {before : Source}

theorem keeps_fill (want : Nat) :
    Keeps before.Follows (fun _ => True) (Error.IsCut before.input.failure) (fill want) := by
  intro source hsource
  obtain ⟨hbytes, -, hrest, hfailure⟩ :=
    Input.gather_eq (want - source.lookahead.length) source.input
  have hunread : source.lookahead ++ (source.input.gather (want - source.lookahead.length)).1
      ++ (source.input.gather (want - source.lookahead.length)).2.2.rest = source.unread := by
    rw [unread, hbytes, hrest, List.append_assoc, List.take_append_drop]
  -- Nothing that is read ahead is lost, whatever is found out about the end.
  have hfilled : ∀ ended, before.Follows
      { lookahead := source.lookahead ++ (source.input.gather (want - source.lookahead.length)).1
        input := (source.input.gather (want - source.lookahead.length)).2.2, ended } :=
    fun ended => hsource.trans ⟨hfailure, [], hunread⟩
  simp only [fill]
  split
  -- Nothing is read where enough has been read ahead.
  · exact .ok hsource trivial
  · cases houtcome : (source.input.gather (want - source.lookahead.length)).2.1 with
    | complete => exact .ok (hfilled _) trivial
    | ended => exact .ok (hfilled _) trivial
    | failed text =>
      exact .error (hfilled _)
        (.inr ⟨text, hsource.failure ▸ failed_of_gathers Input.gather_eq houtcome, rfl⟩)

theorem keeps_consume {program : Nat → Input → Bytes × Outcome × Input}
    (hprogram : Input.Gathers program) (count : Nat) (subject : String) :
    Keeps before.Follows (fun _ => True) (Error.IsCut before.input.failure)
      (consume program count subject) := by
  intro source hsource
  obtain ⟨-, -, hrest, hfailure⟩ := hprogram (count - source.lookahead.length) source.input
  have hconsumed : ∀ ended, before.Follows
      { lookahead := source.lookahead.drop count
        input := (program (count - source.lookahead.length) source.input).2.2, ended } :=
    fun ended => hsource.trans (follows_of_drop count rfl hrest hfailure)
  simp only [consume]
  cases houtcome : (program (count - source.lookahead.length) source.input).2.1 with
  | complete => exact .ok (hconsumed _) trivial
  | ended => exact .error (hconsumed _) (.inl (of_bytes rfl))
  | failed text =>
    exact .error (hconsumed _)
      (.inr ⟨text, hsource.failure ▸ failed_of_gathers hprogram houtcome, rfl⟩)

theorem keeps_take (count : Nat) (subject : String) :
    Keeps before.Follows (fun _ => True) (Error.IsCut before.input.failure)
      (take count subject) :=
  keeps_consume Input.gatherChunks_eq count subject

theorem keeps_skip (count : Nat) (subject : String) :
    Keeps before.Follows (fun _ => True) (Error.IsCut before.input.failure)
      (skip count subject) :=
  (keeps_consume Input.gather_eq count subject).and_then fun _ => Stateful.keeps_pure trivial

end Source

/-! ### One OBU -/

namespace Demuxer

variable {holds : Demuxer → Prop} {gives : Packet → Prop} {fails : Error → Prop}

/-- What an invariant of demuxers has to show for itself: it minds the failure of
the source at most, it lets go of the values, and whatever comes of the source and of
headers may happen. -/
structure Sustains (holds : Demuxer → Prop) (fails : Error → Prop) : Prop where
  source : ∀ demuxer source, holds demuxer →
    source.input.failure = demuxer.source.input.failure → holds { demuxer with source }
  cleared : ∀ demuxer, holds demuxer → holds { demuxer with values := {} }
  owed : ∀ demuxer error, holds demuxer → error.IsCut demuxer.source.input.failure → fails error

/-- More generally, an invariant may mind which bytes are to come, as long as it lets
some of them be consumed. -/
structure Endures (holds : Demuxer → Prop) (fails : Error → Prop) : Prop where
  source : ∀ demuxer source, holds demuxer → demuxer.source.Follows source →
    holds { demuxer with source }
  cleared : ∀ demuxer, holds demuxer → holds { demuxer with values := {} }
  owed : ∀ demuxer error, holds demuxer → error.IsCut demuxer.source.input.failure → fails error

theorem Sustains.endures (h : Sustains holds fails) : Endures holds fails where
  source := fun demuxer source hdemuxer hfollows =>
    h.source demuxer source hdemuxer hfollows.failure
  cleared := h.cleared
  owed := h.owed

/-- A step that gives a packet gives one as said. -/
def PacketStep.Gives (gives : Packet → Prop) : PacketStep → Prop
  | packet found => gives found
  | passed | ended => True

/-- A program on the registry keeps what does not mind the registry. -/
theorem keeps_onRegistry {α : Type} {program : Registry.Update α} {blames : Error → Prop}
    (hregistry : ∀ demuxer registry, holds demuxer → holds { demuxer with registry })
    (hprogram : Keeps (fun _ => True) (fun _ => True) blames program)
    (hblames : ∀ error, blames error → fails error) :
    Keeps holds (fun _ => True) fails (onRegistry program) := by
  intro demuxer hdemuxer
  have hrun : Kept _ _ _ (program demuxer.registry) := hprogram trivial
  simp only [onRegistry, Stateful.onPart]
  revert hrun
  generalize program demuxer.registry = result
  rintro (- | ⟨-, herror⟩)
  · exact .ok (hregistry _ _ hdemuxer) trivial
  · exact .error (hregistry _ _ hdemuxer) (hblames _ herror)

namespace Endures

variable (h : Endures holds fails)
include h

theorem keeps_onSource {α : Type} {program : Stateful Source α}
    (hprogram : ∀ before : Source, Keeps before.Follows (fun _ => True)
      (Error.IsCut before.input.failure) program) :
    Keeps holds (fun _ => True) fails (onSource program) := by
  intro demuxer hdemuxer
  have hrun : Kept _ _ _ (program demuxer.source) := hprogram demuxer.source (.refl _)
  -- Either way the demuxer differs in its source alone, and that in what it has left.
  simp only [onSource, Stateful.onPart]
  revert hrun
  generalize program demuxer.source = result
  rintro (⟨hsource, -⟩ | ⟨hsource, herror⟩)
  · exact .ok (h.source demuxer _ hdemuxer hsource) trivial
  · exact .error (h.source demuxer _ hdemuxer hsource) (h.owed demuxer _ hdemuxer herror)

theorem keeps_peekHeader : Keeps holds (fun _ => True) fails peekHeader := by
  refine (h.keeps_onSource fun _ => Source.keeps_fill _).and_then fun _ =>
    .get_bind fun demuxer hdemuxer => ?_
  split
  · exact Stateful.keeps_pure trivial
  · have hparse : Keeps holds (fun _ => True) fails
        (liftExcept (Obu.Header.parse demuxer.source.lookahead)) :=
      Stateful.keeps_liftExcept (fun _ _ => trivial) fun error herror =>
        h.owed demuxer error hdemuxer (.inl (Obu.Header.blames_read.parse herror))
    exact hparse.and_then fun header =>
      (Stateful.keeps_ensure fun _ => h.owed demuxer _ hdemuxer (.inl (of_bytes rfl))).and_then
        fun _ => Stateful.keeps_pure trivial

theorem keeps_readBody (header : Obu.Header) :
    Keeps holds (fun _ => True) fails (readBody header) :=
  (h.keeps_onSource fun _ => Source.keeps_skip _ _).and_then fun _ =>
    h.keeps_onSource fun _ => Source.keeps_take _ _

theorem keeps_skipObu (header : Obu.Header) (subject : String) :
    Keeps holds (fun _ => True) fails (skipObu header subject) :=
  h.keeps_onSource fun _ => Source.keeps_skip _ _

theorem keeps_startTemporalUnit (header : Obu.Header) :
    Keeps holds (fun _ => True) fails (startTemporalUnit header) :=
  (h.keeps_skipObu header _).and_then fun _ => Stateful.keeps_modify h.cleared

/-- A step of the first phase, if bodies that are registered keep the invariant. -/
theorem keeps_descriptorStep
    (hregister : ∀ kind body, Keeps holds (fun _ => True) fails
      (get >>= fun demuxer : Demuxer =>
        onRegistry (Registry.parseDescriptor demuxer.config.mode kind body))) :
    Keeps holds (fun _ => True) fails descriptorStep := by
  refine h.keeps_peekHeader.and_then fun peeked => ?_
  cases peeked with
  | none => exact Stateful.keeps_pure trivial
  | some header =>
    have hbody : Keeps holds (fun _ => True) fails (register header) :=
      (h.keeps_readBody header).and_then (hregister header.kind)
    cases hkind : header.kind
    all_goals simp only [handleDescriptor, hkind]
    -- What ends the first phase is left for the second.
    case parameterBlock | audioFrame | impliedFrame => exact Stateful.keeps_pure trivial
    case temporalDelimiter =>
      exact (h.keeps_startTemporalUnit header).and_then fun _ => Stateful.keeps_pure trivial
    case reserved => exact (h.keeps_skipObu header _).and_then fun _ => Stateful.keeps_pure trivial
    all_goals exact hbody.and_then fun _ => Stateful.keeps_pure trivial

/-- An OBU of the second phase, if packets are as said and parameter blocks keep the
invariant. -/
theorem keeps_handlePacket
    (hframe : ∀ demuxer header body packet, holds demuxer →
      demuxer.packetOf header body = .ok packet → gives packet)
    (hbroken : ∀ demuxer header body error, holds demuxer →
      demuxer.packetOf header body = .error error → fails error)
    (hblock : ∀ body, Keeps holds (fun _ => True) fails (applyBlock body)) (header : Obu.Header) :
    Keeps holds (PacketStep.Gives gives) fails (handlePacket header) := by
  -- The packet is made of the demuxer as it is behind the body.
  have hread : Keeps holds gives fails (readFrame header) :=
    (h.keeps_readBody header).and_then fun body => .get_bind fun demuxer hdemuxer =>
      Stateful.keeps_liftExcept (fun packet => hframe demuxer header body packet hdemuxer)
        fun error => hbroken demuxer header body error hdemuxer
  cases hkind : header.kind
  all_goals simp only [handlePacket, hkind]
  case audioFrame | impliedFrame =>
    exact hread.bind fun packet hpacket => Stateful.keeps_pure hpacket
  case parameterBlock =>
    exact (h.keeps_readBody header).and_then fun body =>
      (hblock body).and_then fun _ => Stateful.keeps_pure trivial
  case temporalDelimiter =>
    exact (h.keeps_startTemporalUnit header).and_then fun _ => Stateful.keeps_pure trivial
  all_goals exact (h.keeps_skipObu header _).and_then fun _ => Stateful.keeps_pure trivial

/-- A step of the second phase, under the same conditions. -/
theorem keeps_packetStep
    (hframe : ∀ demuxer header body packet, holds demuxer →
      demuxer.packetOf header body = .ok packet → gives packet)
    (hbroken : ∀ demuxer header body error, holds demuxer →
      demuxer.packetOf header body = .error error → fails error)
    (hblock : ∀ body, Keeps holds (fun _ => True) fails (applyBlock body)) :
    Keeps holds (PacketStep.Gives gives) fails packetStep := by
  refine h.keeps_peekHeader.and_then fun peeked => ?_
  cases peeked with
  | none => exact Stateful.keeps_pure trivial
  | some header => exact h.keeps_handlePacket hframe hbroken hblock header

end Endures

/-! ### Whole phases -/

/-- What every step of the first phase keeps holds of a stream that was opened. -/
theorem readDescriptors_of_keeps (h : Keeps holds (fun _ => True) fails descriptorStep)
    {demuxer opened : Demuxer} (hdemuxer : holds demuxer)
    (hopened : demuxer.readDescriptors = .ok opened) : holds opened := by
  fun_induction readDescriptors demuxer with
  | case1 demuxer after hstep ih => exact ih (hstep ▸ h hdemuxer).of_ok.1 hopened
  | case2 demuxer after hstep =>
    cases hopened
    exact (hstep ▸ h hdemuxer).of_ok.1
  | case3 => cases hopened

/-- If a stream cannot be opened, one of the steps has failed. -/
theorem readDescriptors_fails (h : Keeps holds (fun _ => True) fails descriptorStep)
    {demuxer : Demuxer} {error : Error} (hdemuxer : holds demuxer)
    (hfailed : demuxer.readDescriptors = .error error) : fails error := by
  fun_induction readDescriptors demuxer with
  | case1 demuxer after hstep ih => exact ih (hstep ▸ h hdemuxer).of_ok.1 hfailed
  | case2 => cases hfailed
  | case3 demuxer error after hstep =>
    cases hfailed
    exact (hstep ▸ h hdemuxer).of_error.2

/-- What every step of the second phase keeps is kept by a call. -/
theorem keeps_readPacket (h : Keeps holds (PacketStep.Gives gives) fails packetStep) :
    Keeps holds (fun found => ∀ packet ∈ found, gives packet) fails readPacket := by
  intro demuxer hdemuxer
  -- By induction on the steps of the call, each of which starts in a state that was kept.
  fun_induction readPacket demuxer with
  | case1 demuxer after hstep => exact .ok (hstep ▸ h hdemuxer).of_ok.1 (by simp)
  | case2 demuxer packet after hstep =>
    obtain ⟨hafter, hpacket⟩ := (hstep ▸ h hdemuxer).of_ok
    exact .ok hafter (by simpa [PacketStep.Gives] using hpacket)
  | case3 demuxer after hstep ih => exact ih (hstep ▸ h hdemuxer).of_ok.1
  | case4 demuxer error after hstep =>
    obtain ⟨hafter, herror⟩ := (hstep ▸ h hdemuxer).of_error
    exact .error hafter herror

/-- How one result of a call of `readPacket` may look. -/
def Shows (gives : Packet → Prop) (fails : Error → Prop) :
    Except Error (Option Packet) → Prop
  | .ok (some packet) => gives packet
  | .ok none => True
  | .error error => fails error

/-- What a call keeps is kept by all that follow, also behind a failure. -/
theorem results_of_keeps
    (h : Keeps holds (fun found => ∀ packet ∈ found, gives packet) fails readPacket)
    (calls : Nat) {demuxer : Demuxer} (hdemuxer : holds demuxer) :
    ∀ result ∈ demuxer.results calls, Shows gives fails result := by
  induction calls generalizing demuxer with
  | zero => exact List.forall_mem_nil _
  | succ calls ih =>
    have hread := h hdemuxer
    rw [results]
    revert hread
    -- Also a call that fails leaves a demuxer that the next one goes on from.
    generalize demuxer.readPacket = outcome
    rintro (⟨hafter, hfound⟩ | ⟨hafter, herror⟩)
    · rename_i found after
      refine List.forall_mem_cons.2 ⟨?_, ih hafter⟩
      cases found with
      | none => trivial
      | some packet => exact hfound packet rfl
    · exact List.forall_mem_cons.2 ⟨herror, ih hafter⟩

end Demuxer

end Iamf
