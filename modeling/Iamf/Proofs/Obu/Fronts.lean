import Iamf.Proofs.Obu.Probed
import Mathlib.Data.List.Infix

/-!
# `Iamf.Proofs.Obu.Fronts`: the score of every front of a stream

Input that is probed is the front of something longer and may be cut anywhere: where an
OBU ends, or in a header, an extension or a body. `frontScore` is what the first `count`
bytes of some OBUs should score. A walk takes one OBU after the other, and finds nothing
more, a frame with all fields of its header, another cut OBU, or a whole one to go on
behind. The walk and `frontScore` have an equation for each of these four.

* `frontScore_zero`, `frontScore_of_frame`, `frontScore_of_lt`, `frontScore_cons`: those
  of the score.
* `probeFrom_take`: so a walk over a front has its score, by induction on the OBUs.
* `probe_take`: the score of every front of a stream, in terms of where it is cut.
-/

set_option autoImplicit false

namespace Iamf.Obu

/-! ### An OBU that is cut -/

/-- An OBU of a kind that has a meaning, with the magic in its body if it is a sequence
header. -/
structure Whole.IsKnown (obu : Whole) : Prop where
  magic : obu.header.kind = .sequenceHeader → SequenceHeader.magic <+: obu.body
  known : ∀ code, obu.header.kind ≠ .reserved code

theorem Whole.IsKnown.isPassed {obu : Whole} (h : obu.IsKnown)
    (hframe : ¬ obu.header.kind.isAudioFrame = true) : obu.header.kind.isPassed = true := by
  cases hkind : obu.header.kind with
  | audioFrame | impliedFrame => exact absurd (by rw [hkind]; rfl) hframe
  | reserved code => exact absurd hkind (h.known code)
  | _ => rfl

namespace Whole

variable {state : ProbeState} {count : Nat}

theorem fieldsLength_le (obu : Whole) : obu.header.fieldsLength ≤ obu.bytes.length :=
  obu.whole ▸ obu.header.fieldsLength_le_totalLength

theorem fieldsLength_pos (obu : Whole) : 0 < obu.header.fieldsLength := by
  by_contra h
  -- A header without bytes would be parsed from none.
  have hnothing : Header.parse (obu.bytes.take 0) = .ok obu.header :=
    Header.parse_take_eq_ok.2 ⟨obu.parsed, by omega⟩
  cases hnothing

/-- A walk ends without a score in the midst of an OBU, unless it is a frame and its
header can be told. -/
theorem probeFrom_cut (obu : Whole) (hpos : 0 < count) (hlt : count < obu.bytes.length)
    (hframe : obu.header.kind.isAudioFrame = true → count < obu.header.fieldsLength) :
    probeFrom state (obu.bytes.take count) = 0 := by
  have hlength : (obu.bytes.take count).length = count := List.length_take_of_le (by omega)
  cases hparse : Header.parse (obu.bytes.take count) with
  | error error =>
    refine probeFrom_of_error hparse ?_
    intro hempty
    rw [hempty, List.length_nil] at hlength
    omega
  | ok header =>
    obtain ⟨hparsed, hfields⟩ := Header.parse_take_eq_ok.1 hparse
    obtain rfl : obu.header = header := Except.ok.inj (obu.parsed.symm.trans hparsed)
    rw [probeFrom_of_parse hparse]
    cases hstep : probeStep state obu.header (obu.bytes.take count) with
    | inl next => exact if_neg (by rw [hlength, ← obu.whole]; omega)
    | inr score =>
      by_contra hscore
      have := hframe ((probeStep_eq_inr hscore).1 hstep).1
      omega

end Whole

/-! ### What a front should score -/

/-- Where the fields of the first frame's header end, if there is a frame. -/
def frameOffset : List Whole → Option Nat
  | [] => none
  | obu :: obus =>
    if obu.header.kind.isAudioFrame then some obu.header.fieldsLength
    else (frameOffset obus).map (obu.bytes.length + ·)

/-- The header of the first frame is there after `count` bytes, up to its extension. -/
def ReachesFrame (obus : List Whole) (count : Nat) : Prop :=
  ∃ offset ∈ frameOffset obus, offset ≤ count

instance (obus : List Whole) (count : Nat) : Decidable (ReachesFrame obus count) :=
  inferInstanceAs (Decidable (∃ offset ∈ frameOffset obus, offset ≤ count))

/-- A walk from `state` on has been through whole OBUs after `count` bytes, and has seen
enough of them. -/
def ProbeState.ConfirmedAt (state : ProbeState) (obus : List Whole) (count : Nat) : Prop :=
  ∃ front ∈ obus.inits, (front.flatMap (·.bytes)).length = count ∧ state.past front = .confirmed

instance (state : ProbeState) (obus : List Whole) (count : Nat) :
    Decidable (state.ConfirmedAt obus count) :=
  inferInstanceAs (Decidable (∃ front ∈ obus.inits, _ ∧ _))

section

variable {state : ProbeState} {obu : Whole} {obus : List Whole} {count : Nat}

/-- That is in front of all OBUs, or behind some of them, the first one included. -/
theorem ProbeState.confirmedAt_cons :
    state.ConfirmedAt (obu :: obus) count
      ↔ count = 0 ∧ state = .confirmed
        ∨ ∃ front ∈ obus.inits, ((obu :: front).flatMap (·.bytes)).length = count
            ∧ (state.behind obu.header.kind).past front = .confirmed := by
  rw [ConfirmedAt, List.inits_cons, List.exists_mem_cons_iff, eq_comm (a := count)]
  simp only [List.mem_map, exists_exists_and_eq_and, past_cons]
  rfl

theorem ProbeState.confirmedAt_zero (state : ProbeState) (obus : List Whole) :
    state.ConfirmedAt obus 0 ↔ state = .confirmed := by
  cases obus with
  | nil => simp [ConfirmedAt, past]
  | cons obu obus =>
    rw [confirmedAt_cons]
    simp [List.ne_nil_of_length_pos (Nat.lt_of_lt_of_le Nat.two_pos obu.two_le_length)]

theorem ProbeState.confirmedAt_of_pos (hpos : 0 < count) :
    state.ConfirmedAt (obu :: obus) count
      ↔ obu.bytes.length ≤ count
        ∧ (state.behind obu.header.kind).ConfirmedAt obus (count - obu.bytes.length) := by
  have hlength (front : List Whole) : ((obu :: front).flatMap (·.bytes)).length = count
      ↔ obu.bytes.length ≤ count
        ∧ (front.flatMap (·.bytes)).length = count - obu.bytes.length := by
    rw [List.flatMap_cons, List.length_append]
    omega
  rw [confirmedAt_cons]
  simp only [hpos.ne', false_and, false_or, hlength, and_assoc, and_left_comm, exists_and_left]
  rfl

theorem reachesFrame_cons_of_frame (hframe : obu.header.kind.isAudioFrame = true) :
    ReachesFrame (obu :: obus) count ↔ obu.header.fieldsLength ≤ count := by
  simp [ReachesFrame, frameOffset, hframe]

theorem reachesFrame_cons (hframe : ¬ obu.header.kind.isAudioFrame = true) :
    ReachesFrame (obu :: obus) count
      ↔ obu.bytes.length ≤ count ∧ ReachesFrame obus (count - obu.bytes.length) := by
  rw [ReachesFrame, ReachesFrame, frameOffset, if_neg hframe]
  cases frameOffset obus with
  | none => simp
  | some offset =>
    simp only [Option.map_some, Option.mem_some_iff, exists_eq_left']
    omega

theorem not_reachesFrame_zero (obus : List Whole) : ¬ ReachesFrame obus 0 := by
  cases obus with
  | nil => simp [ReachesFrame, frameOffset]
  | cons obu obus =>
    by_cases hframe : obu.header.kind.isAudioFrame = true
    · rw [reachesFrame_cons_of_frame hframe]
      exact Nat.not_le.2 obu.fieldsLength_pos
    · rw [reachesFrame_cons hframe]
      have := obu.two_le_length
      omega

/-- What the first `count` bytes of some OBUs should score, if a walk comes to them in
`state`. -/
def frontScore (state : ProbeState) (obus : List Whole) (count : Nat) : UInt8 :=
  if ReachesFrame obus count then scoreExtension + 1
  else if state.ConfirmedAt obus count then scoreExtension
  else 0

theorem frontScore_zero (state : ProbeState) (obus : List Whole) :
    frontScore state obus 0 = if state = .confirmed then scoreExtension else 0 := by
  simp only [frontScore, not_reachesFrame_zero, ProbeState.confirmedAt_zero, if_false]

theorem frontScore_of_frame (hframe : obu.header.kind.isAudioFrame = true)
    (hfields : obu.header.fieldsLength ≤ count) :
    frontScore state (obu :: obus) count = scoreExtension + 1 :=
  if_pos ((reachesFrame_cons_of_frame hframe).2 hfields)

theorem frontScore_of_lt (hpos : 0 < count) (hlt : count < obu.bytes.length)
    (hframe : obu.header.kind.isAudioFrame = true → count < obu.header.fieldsLength) :
    frontScore state (obu :: obus) count = 0 := by
  have hreached : ¬ ReachesFrame (obu :: obus) count := by
    by_cases h : obu.header.kind.isAudioFrame = true
    · rw [reachesFrame_cons_of_frame h]
      exact Nat.not_le.2 (hframe h)
    · rw [reachesFrame_cons h]
      exact fun h => absurd h.1 (Nat.not_le.2 hlt)
  have hconfirmed : ¬ state.ConfirmedAt (obu :: obus) count := by
    rw [ProbeState.confirmedAt_of_pos hpos]
    exact fun h => absurd h.1 (Nat.not_le.2 hlt)
  rw [frontScore, if_neg hreached, if_neg hconfirmed]

theorem frontScore_cons (hframe : ¬ obu.header.kind.isAudioFrame = true)
    (hle : obu.bytes.length ≤ count) :
    frontScore state (obu :: obus) count
      = frontScore (state.behind obu.header.kind) obus (count - obu.bytes.length) := by
  have hpos : 0 < count := by
    have := obu.two_le_length
    omega
  simp only [frontScore, reachesFrame_cons hframe, ProbeState.confirmedAt_of_pos hpos, hle,
    true_and]

end

/-! ### The walk over a front -/

/-- The score of every front of a stream, for a walk that starts anywhere. -/
theorem probeFrom_take {state : ProbeState} {obus : List Whole}
    (hstarts : state = .start → ∀ obu ∈ obus.head?, obu.header.kind = .sequenceHeader)
    (hknown : ∀ obu ∈ obus, obu.IsKnown) {count : Nat}
    (hcount : count ≤ (obus.flatMap (·.bytes)).length) :
    probeFrom state ((obus.flatMap (·.bytes)).take count) = frontScore state obus count := by
  induction obus generalizing state count with
  | nil =>
    obtain rfl : count = 0 := Nat.le_zero.1 hcount
    exact (probeFrom_nil state).trans (frontScore_zero state []).symm
  | cons obu obus ih =>
    rw [List.forall_mem_cons] at hknown
    rw [List.flatMap_cons, List.length_append] at hcount
    have hhead : state = .start → obu.header.kind = .sequenceHeader := fun h => hstarts h obu rfl
    by_cases hzero : count = 0
    · subst hzero
      exact (probeFrom_nil state).trans (frontScore_zero state _).symm
    by_cases hframe : obu.header.kind.isAudioFrame = true ∧ obu.header.fieldsLength ≤ count
    · -- The frame's header is in sight.
      have hparse : Header.parse (((obu :: obus).flatMap (·.bytes)).take count) = .ok obu.header :=
        Header.parse_take_eq_ok.2 ⟨obu.parse_append _, hframe.2⟩
      have hstate : state ≠ .start := by
        intro h
        rw [hhead h] at hframe
        cases hframe.1
      rw [probeFrom_of_frame hparse hframe.1 hstate, frontScore_of_frame hframe.1 hframe.2]
    · by_cases hlt : count < obu.bytes.length
      · -- The cut is within the OBU.
        have hcut : obu.header.kind.isAudioFrame = true → count < obu.header.fieldsLength :=
          fun h => Nat.lt_of_not_le fun hle => hframe ⟨h, hle⟩
        rw [List.flatMap_cons, List.take_append_of_le_length (by omega),
          obu.probeFrom_cut (by omega) hlt hcut, frontScore_of_lt (by omega) hlt hcut]
      · -- The OBU is all there, and so the cut is behind it.
        have hother : ¬ obu.header.kind.isAudioFrame = true :=
          fun h => hframe ⟨h, obu.fieldsLength_le.trans (by omega)⟩
        have hmagic (more : Bytes) : obu.IsAnnounced more :=
          fun h => (hknown.1.magic h).trans (List.prefix_append _ _)
        rw [List.flatMap_cons, List.take_append, List.take_of_length_le (by omega),
          obu.probeFrom_append (hknown.1.isPassed hother) (hmagic _) fun h hstart =>
            h (hhead hstart),
          ih (fun h => absurd h (ProbeState.behind_ne_start _ _)) hknown.2 (by omega),
          frontScore_cons hother (by omega)]

/-- The score of every front of a stream that begins with a sequence header. It is that
of a frame once the fields of the first frame's header are there. Up to then it is that
of a file extension where an OBU ends, if not all behind the first are sequence headers. -/
theorem probe_take (first : Whole) (others : List Whole)
    (hstarts : first.header.kind = .sequenceHeader)
    (hknown : ∀ obu ∈ first :: others, obu.IsKnown) {count : Nat}
    (hcount : count ≤ ((first :: others).flatMap (·.bytes)).length) :
    probe (((first :: others).flatMap (·.bytes)).take count)
      = if ReachesFrame (first :: others) count then scoreExtension + 1
        else if ∃ front ∈ others.inits, ((first :: front).flatMap (·.bytes)).length = count
            ∧ ∃ obu ∈ front, obu.header.kind ≠ .sequenceHeader then scoreExtension
        else 0 := by
  have hends : ProbeState.ConfirmedAt .start (first :: others) count
      ↔ ∃ front ∈ others.inits, ((first :: front).flatMap (·.bytes)).length = count
          ∧ ∃ obu ∈ front, obu.header.kind ≠ .sequenceHeader := by
    have hbegun : ProbeState.behind .start .sequenceHeader = .inSequence := rfl
    rw [ProbeState.confirmedAt_cons, hstarts, hbegun]
    simp only [reduceCtorEq, and_false, false_or, ProbeState.past_eq_confirmed]
  rw [probe, probeFrom_take (fun _ => by simpa using hstarts) hknown hcount, frontScore]
  simp only [hends]

/-- The fronts of a sequence header, a delimiter and a frame that end behind the delimiter
and behind the header of the frame. -/
theorem probe_take_delimited :
    probe ([0xf8, 0x06, 0x69, 0x61, 0x6d, 0x66, 0x00, 0x00, 0x20, 0x00, 0x30, 0x02, 0xaa, 0xbb].take
      10) = scoreExtension
    ∧ probe ([0xf8, 0x06, 0x69, 0x61, 0x6d, 0x66, 0x00, 0x00, 0x20, 0x00, 0x30, 0x02, 0xaa,
      0xbb].take 12) = scoreExtension + 1 := by
  let first : Whole :=
    ⟨{ kind := .sequenceHeader, size := 6, headerLength := 2, bodyLength := 6 },
      [0xf8, 0x06, 0x69, 0x61, 0x6d, 0x66, 0x00, 0x00], by decide +kernel, rfl⟩
  let delimiter : Whole :=
    ⟨{ kind := .temporalDelimiter, headerLength := 2, bodyLength := 0 }, [0x20, 0x00],
      by decide +kernel, rfl⟩
  let frame : Whole :=
    ⟨{ kind := .impliedFrame 0, size := 2, headerLength := 2, bodyLength := 2 },
      [0x30, 0x02, 0xaa, 0xbb], by decide +kernel, rfl⟩
  have hknown : ∀ obu ∈ [first, delimiter, frame], obu.IsKnown := by
    simp only [List.forall_mem_cons]
    exact ⟨⟨fun _ => by decide, nofun⟩, ⟨nofun, nofun⟩, ⟨nofun, nofun⟩, nofun⟩
  constructor
  · exact (probe_take first [delimiter, frame] rfl hknown (by decide)).trans (by decide)
  · exact (probe_take first [delimiter, frame] rfl hknown (by decide)).trans (by decide)

end Iamf.Obu
