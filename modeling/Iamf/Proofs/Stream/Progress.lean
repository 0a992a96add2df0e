import Iamf.Proofs.Obu.Probed
import Iamf.Proofs.Stream.Opened
import Iamf.Proofs.Stream.Tightened

/-!
# `Iamf.Proofs.Stream.Progress`: how long reading goes on

None of the loops over OBUs counts its rounds. They end since an OBU that is accepted is
consumed, and has two bytes at least: one for its kind and flags, one for its size. So
half as many rounds as there are bytes are enough, and one for the end of the input. The
same goes for packets, each of which comes of an OBU.

A demuxer that has given an error is marked as failed, and one that has found no packet has
found the end of the input, after which it reads nothing more. Either way it gives nothing
from then on (`Demuxer.IsSpent`).

* `IsLoop.within_eq`: a loop whose rounds take two bytes ends in time.
* `Demuxer.isLoop_descriptorRound`, `Demuxer.isLoop_packetRound`, `Obu.isLoop_probeRound`:
  the three loops.
* `Demuxer.exists_items`, `Demuxer.call_eq`: what an iteration gives, call by call.
* `Demuxer.reading_ends`: all of this, from the bytes of a stream on.
-/

set_option autoImplicit false

namespace Iamf

/-! ### Loops without a counter -/

section

variable {σ α : Type} {round : σ → σ ⊕ α} {size : σ → Nat} {result : σ → α}

/-- What a loop comes to within so many rounds; nothing if it still goes on then. A round
gives what the next one starts from, or what the loop comes to. -/
def within (round : σ → σ ⊕ α) : (rounds : Nat) → σ → Option α
  | 0, _ => none
  | rounds + 1, state =>
    match round state with
    | .inl next => within round rounds next
    | .inr value => some value

/-- What the loop of a round comes to, where a round that another one follows takes two
bytes at least. -/
structure IsLoop (round : σ → σ ⊕ α) (size : σ → Nat) (result : σ → α) : Prop where
  takes : ∀ {state next}, round state = .inl next → size next + 2 ≤ size state
  result_eq : ∀ state, result state
    = match round state with
      | .inl next => result next
      | .inr value => value

/-- Half as many rounds as there are bytes, and one more, are enough. -/
theorem IsLoop.within_eq (h : IsLoop round size result) {rounds : Nat} {state : σ}
    (henough : size state / 2 < rounds) : within round rounds state = some (result state) := by
  induction rounds generalizing state with
  | zero => omega
  | succ rounds ih =>
    have hresult := h.result_eq state
    rw [within]
    cases hround : round state with
    | inr value =>
      rw [hround] at hresult
      exact congrArg some hresult.symm
    | inl next =>
      rw [hround] at hresult
      -- The round has taken two bytes, so one round less is enough for the others.
      have htaken := h.takes hround
      rw [hresult]
      exact ih (by omega)

end

namespace Source

variable {source after : Source} {want : Nat} {result : Unit}

theorem Follows.remaining_le {before : Source} (h : before.Follows after) :
    after.remaining ≤ before.remaining := by
  have hle := h.unread.length_le
  rwa [Source.unread, Source.unread, List.length_append, List.length_append] at hle

theorem fill_of_ended (want : Nat) (h : source.ended = true) :
    fill want source = .ok () source := by
  rw [fill, if_pos h]

/-- Where something is wanted and nothing there, the input is at its end. -/
theorem ended_of_fill (hwant : 0 < want) (h : fill want source = .ok result after)
    (hnothing : after.lookahead = []) : after.ended = true := by
  obtain ⟨hbytes, houtcome, -⟩ := Input.gather_eq (want - source.lookahead.length) source.input
  rw [fill] at h
  split at h
  · rename_i hended
    cases h
    exact hended
  · dsimp only at h
    split at h
    · rename_i hcomplete
      cases h
      -- All that was wanted has come, and that is not nothing.
      obtain ⟨hlookahead, hgathered⟩ := List.append_eq_nil_iff.1 hnothing
      rw [hlookahead, List.length_nil, Nat.sub_zero] at hbytes hgathered houtcome hcomplete
      have hle : want ≤ source.input.rest.length := by
        by_contra hshort
        rw [if_neg hshort] at houtcome
        exact source.input.ending_ne_complete (houtcome.symm.trans hcomplete)
      have hlength := congrArg List.length (hbytes.symm.trans hgathered)
      rw [List.length_take, List.length_nil] at hlength
      omega
    · cases h
      rfl
    · cases h

end Source

namespace Demuxer

variable {demuxer after : Demuxer}

/-! ### OBUs -/

/-- An OBU that a demuxer accepts is consumed whole, and has two bytes at least. -/
structure TakesObus (demuxer : Demuxer) : Prop where
  descriptor : ∀ {header middle after}, peekHeader demuxer = .ok (some header) middle →
    handleDescriptor header middle = .ok true after →
    2 ≤ header.totalLength ∧ after.remaining + header.totalLength = demuxer.remaining
  packet : ∀ {header middle step after}, peekHeader demuxer = .ok (some header) middle →
    handlePacket header middle = .ok step after →
    2 ≤ header.totalLength ∧ after.remaining + header.totalLength = demuxer.remaining

theorem takesObus (demuxer : Demuxer) : TakesObus demuxer where
  descriptor := fun hpeek hhandle => by
    obtain ⟨hremaining, htwo⟩ := peekHeader_eq_ok hpeek
    exact ⟨htwo, hremaining ▸ handleDescriptor_eq_ok hhandle⟩
  packet := fun hpeek hhandle => by
    obtain ⟨hremaining, htwo⟩ := peekHeader_eq_ok hpeek
    exact ⟨htwo, hremaining ▸ handlePacket_eq_ok hhandle⟩

/-! ### Descriptors -/

/-- A round of the first phase. -/
def descriptorRound (demuxer : Demuxer) : Demuxer ⊕ Except Error Demuxer :=
  match descriptorStep demuxer with
  | .ok true after => .inl after
  | .ok false after => .inr (.ok after)
  | .error error _ => .inr (.error error)

theorem isLoop_descriptorRound : IsLoop descriptorRound remaining readDescriptors where
  takes := fun {demuxer next} hround => by
    rw [descriptorRound] at hround
    split at hround
    · rename_i after hstep
      cases hround
      exact remaining_of_descriptorStep hstep
    all_goals cases hround
  result_eq := fun demuxer => by
    rw [readDescriptors_eq, descriptorRound]
    rcases descriptorStep demuxer with ⟨_ | _, after⟩ | ⟨error, after⟩
    all_goals rfl

theorem endures_remaining (size : Nat) :
    Endures (fun demuxer => demuxer.remaining ≤ size) fun _ => True where
  source := fun _ _ hdemuxer hfollows => Nat.le_trans hfollows.remaining_le hdemuxer
  cleared := fun _ hdemuxer => hdemuxer
  owed := fun _ _ _ _ => trivial

/-- Opening a stream does not make it longer. -/
theorem remaining_of_ofInput {config : DemuxerConfig} {input : Input} {opened : Demuxer}
    (h : ofInput config input = .ok opened) : opened.remaining ≤ input.rest.length :=
  -- What goes into the registry leaves the source alone.
  readDescriptors_of_keeps ((endures_remaining _).keeps_descriptorStep fun _ _ =>
    .get_bind fun _ _ => keeps_onRegistry (fun _ _ hremaining => hremaining)
      (fun _ _ => Stateful.kept_anything _) fun _ _ => trivial) (Nat.le_of_eq (Nat.zero_add _)) h

/-! ### Packets -/

/-- A round of the second phase. -/
def packetRound (demuxer : Demuxer) : Demuxer ⊕ EStateM.Result Error Demuxer (Option Packet) :=
  match packetStep demuxer with
  | .ok .ended after => .inr (.ok none after)
  | .ok (.packet packet) after => .inr (.ok (some packet) after)
  | .ok .passed after => .inl after
  | .error error after => .inr (.error error after)

theorem isLoop_packetRound : IsLoop packetRound remaining readPacket where
  takes := fun {demuxer next} hround => by
    rw [packetRound] at hround
    split at hround
    case h_3 after hstep =>
      cases hround
      exact remaining_of_packetStep hstep nofun
    all_goals cases hround
  result_eq := fun demuxer => by
    rw [readPacket_eq, packetRound]
    rcases packetStep demuxer with ⟨_ | packet | _, after⟩ | ⟨error, after⟩
    all_goals rfl

/-! ### The end of an iteration -/

/-- The demuxer gives nothing, and stays as it is. -/
def IsSpent (demuxer : Demuxer) : Prop :=
  demuxer.next = (none, demuxer)

theorem peekHeader_of_ended (hended : demuxer.source.ended = true)
    (hnothing : demuxer.source.lookahead = []) : peekHeader demuxer = .ok none demuxer := by
  have hfill : onSource (Source.fill Obu.maxHeaderSize) demuxer = .ok () demuxer :=
    onSource_of_ok demuxer (Source.fill_of_ended _ hended)
  rw [peekHeader, Stateful.bind_of_ok hfill]
  show (if demuxer.source.lookahead.isEmpty then _ else _ : Stateful Demuxer _) _ = _
  rw [hnothing]
  rfl

theorem handlePacket_ne_ended {header : Obu.Header} :
    handlePacket header demuxer ≠ .ok .ended after := by
  intro h
  cases hkind : header.kind
  all_goals
    simp only [handlePacket, hkind, Stateful.bind_eq_ok, Stateful.pure_eq_ok, reduceCtorEq,
      false_and, and_false, exists_false] at h

/-- The end of the input is found once, and not looked for again. -/
theorem packetStep_of_end (h : packetStep demuxer = .ok .ended after) :
    packetStep after = .ok .ended after := by
  obtain ⟨peeked, middle, hpeek, hhandle⟩ := Stateful.bind_eq_ok.1 h
  cases peeked with
  | some header => exact absurd hhandle handlePacket_ne_ended
  | none =>
    cases hhandle
    -- With nothing ahead the source has noticed its end, and looks at its input no more.
    obtain ⟨source, rfl, hnothing, hfill⟩ := peekHeader_eq_none hpeek
    have hended := Source.ended_of_fill (by decide) hfill hnothing
    rw [packetStep, Stateful.bind_of_ok (peekHeader_of_ended hended hnothing)]
    rfl

theorem readPacket_of_end (h : readPacket demuxer = .ok none after) :
    readPacket after = .ok none after := by
  fun_induction readPacket demuxer with
  | case1 demuxer next hstep =>
    cases h
    rw [readPacket_eq, packetStep_of_end hstep]
  | case2 => cases h
  | case3 demuxer next hstep ih => exact ih h
  | case4 => cases h

/-- An error is kept in mind, and so is the end of the input. -/
theorem isSpent_next
    (h : demuxer.next.1 = none ∨ ∃ error, demuxer.next.1 = some (.error error)) :
    demuxer.next.2.IsSpent := by
  rw [next] at h ⊢
  split
  · rename_i hfailed
    rw [IsSpent, next, if_pos hfailed]
  · rename_i hfailed
    rw [if_neg hfailed] at h
    cases hread : demuxer.readPacket with
    -- A failure is marked, and the mark is looked at first.
    | error error after => rfl
    | ok found after =>
      cases found with
      | none =>
        have hagain := readPacket_of_end hread
        show IsSpent after
        rw [IsSpent, next, hagain]
        split <;> rfl
      | some packet =>
        rw [hread] at h
        obtain hnone | ⟨error, herror⟩ := h
        · cases hnone
        · cases herror

theorem remaining_of_next {packet : Packet} (h : demuxer.next = (some (.ok packet), after)) :
    after.remaining + 2 ≤ demuxer.remaining := by
  rw [next] at h
  split at h
  · cases h
  · split at h
    · cases h
    · rename_i found hread
      cases h
      exact remaining_of_readPacket hread
    · cases h

theorem remaining_next (demuxer : Demuxer) : demuxer.next.2.remaining ≤ demuxer.remaining := by
  rw [next]
  split
  · exact Nat.le_refl _
  · have hread := beyond_readPacket demuxer ⟨.refl _, rfl⟩
    -- A call goes on in the source also where it fails, so all that it may give is alike.
    revert hread
    generalize demuxer.readPacket = result
    rintro (⟨hafter, -⟩ | ⟨hafter, -⟩)
    · rename_i found after
      cases found <;> exact hafter.source.remaining_le
    · exact hafter.source.remaining_le

/-! ### Calls -/

/-- The demuxer after so many calls for its next item. -/
def advanced : (calls : Nat) → Demuxer → Demuxer
  | 0, demuxer => demuxer
  | calls + 1, demuxer => advanced calls demuxer.next.2

/-- What the call of the given number, counted from zero, gives. -/
def call (number : Nat) (demuxer : Demuxer) : Option (Except Error Packet) :=
  (advanced number demuxer).next.1

/-- Going on does not make a stream longer, failures included. -/
theorem remaining_advanced (calls : Nat) (demuxer : Demuxer) :
    (demuxer.advanced calls).remaining ≤ demuxer.remaining := by
  induction calls generalizing demuxer with
  | zero => exact Nat.le_refl _
  | succ calls ih => exact Nat.le_trans (ih _) (remaining_next demuxer)

theorem call_succ (number : Nat) (demuxer : Demuxer) :
    demuxer.call (number + 1) = demuxer.next.2.call number := rfl

theorem IsSpent.call_eq (h : demuxer.IsSpent) (number : Nat) : demuxer.call number = none := by
  induction number with
  | zero => exact congrArg Prod.fst h
  | succ number ih =>
    rw [call_succ, congrArg Prod.snd h]
    exact ih

theorem IsSpent.items_eq (h : demuxer.IsSpent) : demuxer.items = [] := by
  rw [items]
  split
  · rfl
  · rename_i item after hnext
    cases hnext.symm.trans h

/-- Behind an error, or nothing, there is nothing. -/
theorem call_of_lt {number later : Nat} (hlater : number < later)
    (h : demuxer.call number = none ∨ ∃ error, demuxer.call number = some (.error error)) :
    demuxer.call later = none := by
  -- By induction on the call: the first one leaves a spent demuxer, others come later.
  induction number generalizing demuxer later with
  | zero =>
    obtain ⟨later, rfl⟩ := Nat.exists_eq_add_of_lt hlater
    exact (isSpent_next h).call_eq _
  | succ number ih =>
    cases later with
    | zero => omega
    | succ later =>
      rw [call_succ] at h ⊢
      exact ih (Nat.lt_of_succ_lt_succ hlater) h

/-- The items come one after the other: packets, half as many as there are bytes at most,
then an error if it comes to that. -/
theorem exists_items (demuxer : Demuxer) :
    ∃ (packets : List Packet) (failure : Option Error), 2 * packets.length ≤ demuxer.remaining
      ∧ demuxer.items = packets.map .ok ++ failure.toList.map .error := by
  -- By induction on the items: each is a packet, which takes an OBU, or the last one.
  fun_induction items demuxer with
  | case1 demuxer after hnext => exact ⟨[], none, Nat.zero_le _, rfl⟩
  | case2 demuxer item after hnext ih =>
    cases item with
    | error error =>
      have hspent : demuxer.next.2.IsSpent := isSpent_next (.inr ⟨error, congrArg Prod.fst hnext⟩)
      rw [hnext] at hspent
      exact ⟨[], some error, Nat.zero_le _, congrArg _ hspent.items_eq⟩
    | ok packet =>
      obtain ⟨packets, failure, hlength, hitems⟩ := ih
      have htaken := remaining_of_next hnext
      refine ⟨packet :: packets, failure, ?_, congrArg _ hitems⟩
      rw [List.length_cons]
      omega

/-- The calls give the items, and then nothing. -/
theorem call_eq (demuxer : Demuxer) (number : Nat) :
    demuxer.call number = demuxer.items[number]? := by
  fun_induction items demuxer generalizing number with
  | case1 demuxer after hnext =>
    have hnone : demuxer.call 0 = none := congrArg Prod.fst hnext
    cases number with
    | zero => exact hnone
    | succ number => exact call_of_lt (Nat.succ_pos number) (.inl hnone)
  | case2 demuxer item after hnext ih =>
    cases number with
    | zero => exact congrArg Prod.fst hnext
    | succ number =>
      rw [call_succ, hnext]
      exact ih number

end Demuxer

/-! ### Walks -/

namespace Obu

/-- A round of a walk over OBUs, from a state and the bytes to come. -/
def probeRound (walk : ProbeState × Bytes) : (ProbeState × Bytes) ⊕ UInt8 :=
  if walk.2.isEmpty then .inr (if walk.1 = .confirmed then scoreExtension else 0)
  else
    match Header.parse walk.2 with
    | .error _ => .inr 0
    | .ok header =>
      match probeStep walk.1 header walk.2 with
      | .inr score => .inr score
      | .inl state =>
        if header.totalLength ≤ walk.2.length then .inl (state, walk.2.drop header.totalLength)
        else .inr 0

theorem isLoop_probeRound :
    IsLoop probeRound (fun walk => walk.2.length) (fun walk => probeFrom walk.1 walk.2) where
  takes := by
    rintro ⟨state, bytes⟩ next hround
    simp only [probeRound] at hround
    split at hround
    · cases hround
    · split at hround
      · cases hround
      · rename_i header hparse
        have htwo := Header.two_le_totalLength hparse
        -- Of all outcomes only an OBU that is all there lets the walk go on.
        repeat' split at hround
        all_goals cases hround
        simp only [List.length_drop]
        omega
  result_eq := by
    rintro ⟨state, bytes⟩
    by_cases hempty : bytes.isEmpty = true
    · rw [probeRound, if_pos hempty]
      simp only
      rw [List.isEmpty_iff.1 hempty, probeFrom_nil]
    · rw [probeRound, if_neg hempty]
      simp only
      cases hparse : Header.parse bytes with
      | error error => exact probeFrom_of_error hparse (by simpa using hempty)
      | ok header =>
        simp only
        rw [probeFrom_of_parse hparse]
        cases probeStep state header bytes with
        | inr score => rfl
        | inl next =>
          simp only
          split <;> rfl

end Obu

/-! ### Streams -/

namespace Demuxer

/-- How an iteration over the packets of a stream of so many bytes goes. -/
structure Finishes (length : Nat) (opened : Demuxer) : Prop where
  /-- No call takes more rounds than there can be OBUs, and one for the end. -/
  rounds : ∀ calls more, within packetRound (length / 2 + 1 + more) (opened.advanced calls)
    = some (opened.advanced calls).readPacket
  /-- The items are packets, half as many as there are bytes at most, and then an error
  if it comes to that. -/
  items : ∃ (packets : List Packet) (failure : Option Error), packets.length ≤ length / 2
    ∧ opened.items = packets.map .ok ++ failure.toList.map .error
  /-- The calls give the items, and then nothing. -/
  calls : ∀ number, opened.call number = opened.items[number]?
  /-- Behind an error, or nothing, there is nothing. -/
  spent : ∀ {number later}, number < later →
    (opened.call number = none ∨ ∃ error, opened.call number = some (.error error)) →
    opened.call later = none

theorem finishes {length : Nat} {opened : Demuxer} (h : opened.remaining ≤ length) :
    Finishes length opened where
  rounds := fun calls more => by
    have hadvanced := remaining_advanced calls opened
    exact isLoop_packetRound.within_eq (by omega)
  items := by
    obtain ⟨packets, failure, hlength, hitems⟩ := opened.exists_items
    exact ⟨packets, failure, by omega, hitems⟩
  calls := opened.call_eq
  spent := call_of_lt

/-- Reading a stream comes to an end, whatever its bytes, however they arrive and whatever
the config: an OBU that is accepted is consumed, with two bytes at least, and so the
three loops over OBUs end within half as many rounds as there are bytes, and one more. A
stream that has been opened gives no more packets than that, and one error at most; from
the error or the end on it gives nothing. -/
theorem reading_ends (config : DemuxerConfig) (input : Input) :
    (∀ demuxer, TakesObus demuxer)
      ∧ IsLoop descriptorRound remaining readDescriptors
      ∧ IsLoop packetRound remaining readPacket
      ∧ IsLoop Obu.probeRound (fun walk => walk.2.length) (fun walk => Obu.probeFrom walk.1 walk.2)
      ∧ (∀ more, within descriptorRound (input.rest.length / 2 + 1 + more)
        { source := { input }, config } = some (ofInput config input))
      ∧ (∀ more, within Obu.probeRound (input.rest.length / 2 + 1 + more) (.start, input.rest)
        = some (Obu.probe input.rest))
      ∧ ∀ opened, ofInput config input = .ok opened → Finishes input.rest.length opened := by
  have hstart : ({ source := { input }, config } : Demuxer).remaining = input.rest.length :=
    Nat.zero_add _
  exact ⟨takesObus, isLoop_descriptorRound, isLoop_packetRound, Obu.isLoop_probeRound,
    fun more => isLoop_descriptorRound.within_eq (by rw [hstart]; omega),
    fun more => Obu.isLoop_probeRound.within_eq (by simp only; omega),
    fun opened hopen => finishes (remaining_of_ofInput hopen)⟩

/-- A mono stream with one frame, and another one that is cut off. -/
def brokenOffStream : Bytes :=
  framedStream ++ [0x28, 0x04, 0x01]

set_option maxRecDepth 4000 in
/-- There are a packet and an error, and nothing more. -/
theorem reading_ends_broken_off :
    ∃ opened, ofInput {} { rest := brokenOffStream } = .ok opened
      ∧ opened.call 0 = some (.ok
        { streamIndex := 0, substream := 20, data := [0x07], trim := none, values := {} })
      ∧ opened.call 1 = some (.error (.truncated "OBU body"))
      ∧ opened.call 2 = none
      ∧ Finishes brokenOffStream.length opened := by
  -- The third call need not be run: it is behind an error.
  have hread : (ofInput {} { rest := brokenOffStream }).map
        (fun opened => [opened.call 0, opened.call 1])
      = .ok [some (.ok
          { streamIndex := 0, substream := 20, data := [0x07], trim := none, values := {} }),
        some (.error (.truncated "OBU body"))] := by
    decide +kernel
  obtain ⟨opened, hopen, hcalls⟩ := outcome_map_eq_ok.1 hread
  obtain ⟨hfirst, hcalls⟩ := List.cons.inj hcalls
  have hsecond := List.head_eq_of_cons_eq hcalls
  have hfinishes := (reading_ends {} { rest := brokenOffStream }).2.2.2.2.2.2 opened hopen
  exact ⟨opened, hopen, hfirst, hsecond,
    hfinishes.spent (Nat.lt_succ_self 1) (.inr ⟨_, hsecond⟩), hfinishes⟩

end Demuxer

end Iamf
