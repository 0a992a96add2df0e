import Iamf.Obu.Probe
import Iamf.Proofs.Obu.Complete

/-!
# `Iamf.Proofs.Obu.Probed`: what a probe goes by

A probe walks over OBUs. It passes over those of descriptors, parameters and delimiters,
and it stops where the input ends, at the first frame, and at anything else. What is
`Passed` over is whole OBUs, and every sequence header among them has the magic behind
it. That is tested in the input as a whole, though, and not in the body of the header:
the body may be shorter than the magic if the next OBU happens to go on with it.

* `probeFrom_of_passed`, `exists_passed`: the walk of a probe, both ways.
* `probe_pos_iff_isWalk`: a match stands for a walk that began with a sequence header.
-/

set_option autoImplicit false

namespace Iamf.Obu

/-! ### Whole OBUs -/

/-- An OBU that is all there: its bytes parse to its header, and the header gives their
number. The header may be longer than what a demuxer looks at, other than that of a
`Complete` OBU. -/
structure Whole where
  /-- The header. -/
  header : Header
  /-- All bytes, header first. -/
  bytes : Bytes
  parsed : Header.parse bytes = .ok header
  whole : bytes.length = header.totalLength

namespace Whole

/-- The bytes after the header and its extension. -/
def body (obu : Whole) : Bytes :=
  obu.bytes.drop obu.header.headerLength

theorem length_body (obu : Whole) : obu.body.length = obu.header.bodyLength := by
  rw [body, List.length_drop, obu.whole, Header.totalLength]
  omega

theorem two_le_length (obu : Whole) : 2 ≤ obu.bytes.length :=
  obu.whole ▸ Header.two_le_totalLength obu.parsed

/-- What follows an OBU does not change its header. -/
theorem parse_append (obu : Whole) (more : Bytes) :
    Header.parse (obu.bytes ++ more) = .ok obu.header :=
  Header.parse_of_prefix obu.parsed (List.prefix_append _ _)

/-- Behind the header are the body and what follows the OBU. -/
theorem drop_append (obu : Whole) (more : Bytes) :
    (obu.bytes ++ more).drop obu.header.headerLength = obu.body ++ more := by
  refine List.drop_append_of_le_length ?_
  rw [obu.whole, Header.totalLength]
  exact Nat.le_add_right _ _

/-- The OBU at the start of some bytes that are long enough for it. -/
def ofParse {bytes : Bytes} {header : Header} (hparse : Header.parse bytes = .ok header)
    (htotal : header.totalLength ≤ bytes.length) : Whole where
  header
  bytes := bytes.take header.totalLength
  parsed := Header.parse_take_eq_ok.2 ⟨hparse, header.fieldsLength_le_totalLength⟩
  whole := List.length_take_of_le htotal

/-- A sequence header has the magic behind it, be it in its body or beyond. -/
def IsAnnounced (obu : Whole) (more : Bytes) : Prop :=
  obu.header.kind = .sequenceHeader → SequenceHeader.magic <+: obu.body ++ more

end Whole

/-! ### One step of a walk -/

/-- The kinds that a walk goes on behind. -/
def Kind.isPassed : Kind → Bool
  | .audioFrame | .impliedFrame _ | .reserved _ => false
  | _ => true

/-- The state behind an OBU that a walk passes over. -/
def ProbeState.behind (state : ProbeState) (kind : Kind) : ProbeState :=
  if kind = .sequenceHeader then (if state = .start then .inSequence else state) else .confirmed

theorem ProbeState.behind_ne_start (state : ProbeState) (kind : Kind) :
    state.behind kind ≠ .start := by
  rw [behind]
  split
  · split <;> simp_all
  · simp

theorem ProbeState.behind_eq_confirmed {state : ProbeState} {kind : Kind} :
    state.behind kind = .confirmed ↔ state = .confirmed ∨ kind ≠ .sequenceHeader := by
  rw [behind]
  split
  · split <;> simp_all
  · simp_all

section

variable {state next : ProbeState} {header : Header} {bytes : Bytes} {score : UInt8}

/-- A walk goes on behind a sequence header with the magic, and, once it has begun,
behind an OBU of the other kinds that are passed over. -/
theorem probeStep_eq_inl :
    probeStep state header bytes = .inl next
      ↔ header.kind.isPassed = true ∧ next = state.behind header.kind
        ∧ (header.kind = .sequenceHeader →
            SequenceHeader.magic <+: bytes.drop header.headerLength)
        ∧ (header.kind ≠ .sequenceHeader → state ≠ .start) := by
  rw [eq_comm (a := next)]
  cases hkind : header.kind <;>
    simp only [probeStep, hkind, Kind.isPassed, ProbeState.behind, List.isPrefixOf_iff_prefix]
  case sequenceHeader => split <;> simp_all
  case reserved => simp
  case audioFrame | impliedFrame => split <;> simp
  all_goals split <;> simp_all

/-- A walk ends with a score only at a frame, once it has begun. -/
theorem probeStep_eq_inr (hscore : score ≠ 0) :
    probeStep state header bytes = .inr score
      ↔ header.kind.isAudioFrame = true ∧ state ≠ .start ∧ scoreExtension + 1 = score := by
  cases hkind : header.kind <;> simp only [probeStep, hkind, Kind.isAudioFrame]
  case reserved => simp [hscore.symm]
  all_goals split <;> simp_all [hscore.symm]

theorem probeFrom_nil (state : ProbeState) :
    probeFrom state [] = if state = .confirmed then scoreExtension else 0 := by
  rw [probeFrom]
  rfl

theorem probeFrom_of_error {error : Error} (h : Header.parse bytes = .error error)
    (hbytes : bytes ≠ []) : probeFrom state bytes = 0 := by
  rw [probeFrom, if_neg (by simpa using hbytes), h]

/-- A walk goes on behind an OBU that is all there. -/
theorem probeFrom_of_parse (h : Header.parse bytes = .ok header) :
    probeFrom state bytes
      = match probeStep state header bytes with
        | .inr score => score
        | .inl next =>
          if header.totalLength ≤ bytes.length then probeFrom next (bytes.drop header.totalLength)
          else 0 := by
  have htwo := Header.two_le_totalLength h
  have hbytes : ¬ bytes.isEmpty = true := by
    intro hempty
    rw [List.isEmpty_iff.1 hempty] at h
    cases h
  rw [probeFrom, if_neg hbytes, h]
  simp only
  cases probeStep state header bytes with
  | inr score => rfl
  | inl next =>
    simp only
    split
    · rename_i hnothing
      have hlength := congrArg List.length hnothing
      rw [List.length_drop, List.length_nil] at hlength
      rw [if_neg (by omega)]
    · rename_i last rest hlast
      have hlength := congrArg List.length hlast
      rw [List.length_drop, List.length_cons] at hlength
      have hrest : bytes.drop header.totalLength = rest := by
        have htail := congrArg List.tail hlast
        rwa [List.tail_drop, Nat.sub_add_cancel (by omega)] at htail
      rw [if_pos (by omega), hrest]

end

/-! ### A whole walk -/

/-- The state behind OBUs that a walk passes over. -/
def ProbeState.past (state : ProbeState) (obus : List Whole) : ProbeState :=
  obus.foldl (fun state obu => state.behind obu.header.kind) state

theorem ProbeState.past_cons (state : ProbeState) (obu : Whole) (obus : List Whole) :
    state.past (obu :: obus) = (state.behind obu.header.kind).past obus :=
  rfl

/-- Anything but a sequence header among the OBUs is enough. -/
theorem ProbeState.past_eq_confirmed {state : ProbeState} {obus : List Whole} :
    state.past obus = .confirmed
      ↔ state = .confirmed ∨ ∃ obu ∈ obus, obu.header.kind ≠ .sequenceHeader := by
  induction obus generalizing state with
  | nil => simp [past]
  | cons obu obus ih => rw [past_cons, ih, behind_eq_confirmed, List.exists_mem_cons_iff, or_assoc]

theorem ProbeState.past_ne_start {state : ProbeState} (h : state ≠ .start) (obus : List Whole) :
    state.past obus ≠ .start := by
  induction obus generalizing state with
  | nil => exact h
  | cons obu obus ih => exact ih (behind_ne_start _ _)

/-- OBUs that a walk passes over, one behind the other, with `rest` behind the last. -/
inductive Passed (rest : Bytes) : List Whole → Prop where
  | nil : Passed rest []
  | cons {obu : Whole} {obus : List Whole} (hpassed : obu.header.kind.isPassed = true)
      (hmagic : obu.IsAnnounced (obus.flatMap (·.bytes) ++ rest)) (hothers : Passed rest obus) :
      Passed rest (obu :: obus)

section

variable {state : ProbeState} {bytes rest : Bytes}

/-- A walk goes on behind one more OBU. It has to begin with a sequence header. -/
theorem Whole.probeFrom_append (obu : Whole) {more : Bytes}
    (hpassed : obu.header.kind.isPassed = true) (hmagic : obu.IsAnnounced more)
    (hstarts : obu.header.kind ≠ .sequenceHeader → state ≠ .start) :
    probeFrom state (obu.bytes ++ more) = probeFrom (state.behind obu.header.kind) more := by
  have hstep : probeStep state obu.header (obu.bytes ++ more)
      = .inl (state.behind obu.header.kind) :=
    probeStep_eq_inl.2 ⟨hpassed, rfl, (obu.drop_append more).symm ▸ hmagic, hstarts⟩
  have hlength : obu.bytes.length ≤ (obu.bytes ++ more).length := by
    rw [List.length_append]
    exact Nat.le_add_right _ _
  rw [probeFrom_of_parse (obu.parse_append more), hstep]
  simp only [← obu.whole, List.drop_left, if_pos hlength]

/-- A walk that has begun ends at a frame, however little of it there is behind the header. -/
theorem probeFrom_of_frame {header : Header} (hparse : Header.parse bytes = .ok header)
    (hframe : header.kind.isAudioFrame = true) (hstate : state ≠ .start) :
    probeFrom state bytes = scoreExtension + 1 := by
  have hstep : probeStep state header bytes = .inr (scoreExtension + 1) :=
    (probeStep_eq_inr (by decide)).2 ⟨hframe, hstate, rfl⟩
  rw [probeFrom_of_parse hparse, hstep]

/-- What a walk comes to, behind all that it passes over. -/
theorem probeFrom_of_passed {obus : List Whole} (h : Passed rest obus) (hstate : state ≠ .start) :
    probeFrom state (obus.flatMap (·.bytes) ++ rest) = probeFrom (state.past obus) rest := by
  induction h generalizing state with
  | nil => rfl
  | @cons obu obus hpassed hmagic _ ih =>
    rw [List.flatMap_cons, List.append_assoc, obu.probeFrom_append hpassed hmagic fun _ => hstate]
    exact ih (ProbeState.behind_ne_start _ _)

/-- Where a walk ends with a score: at the end of the input, or in front of a frame. -/
def ProbeState.EndsAt (state : ProbeState) (rest : Bytes) : Prop :=
  rest = [] ∧ state = .confirmed
  ∨ state ≠ .start ∧ ∃ header, Header.parse rest = .ok header ∧ header.kind.isAudioFrame = true

/-- A walk that ends with a score has passed over whole OBUs. The first of all is a
sequence header. -/
theorem exists_passed (hscore : probeFrom state bytes ≠ 0) :
    ∃ obus rest, bytes = obus.flatMap (·.bytes) ++ rest ∧ Passed rest obus
      ∧ (state.past obus).EndsAt rest
      ∧ (state = .start → ∃ first others, obus = first :: others
          ∧ first.header.kind = .sequenceHeader) := by
  -- Every OBU takes bytes, so this is an induction on how many are left.
  induction hlength : bytes.length using Nat.strong_induction_on generalizing state bytes with
  | h length ih =>
    by_cases hempty : bytes = []
    · subst hempty
      rw [probeFrom_nil] at hscore
      have hconfirmed : state = .confirmed := by_contra fun h => hscore (if_neg h)
      exact ⟨[], [], rfl, .nil, .inl ⟨rfl, hconfirmed⟩, by simp [hconfirmed]⟩
    cases hparse : Header.parse bytes with
    | error error => exact absurd (probeFrom_of_error hparse hempty) hscore
    | ok header =>
      rw [probeFrom_of_parse hparse] at hscore
      cases hstep : probeStep state header bytes with
      | inr score =>
        rw [hstep] at hscore
        have hframe := (probeStep_eq_inr hscore).1 hstep
        exact ⟨[], bytes, rfl, .nil, .inr ⟨hframe.2.1, header, hparse, hframe.1⟩,
          fun h => absurd h hframe.2.1⟩
      | inl next =>
        simp only [hstep] at hscore
        split at hscore
        case isFalse => exact absurd rfl hscore
        rename_i htotal
        obtain ⟨hpassed, rfl, hmagic, hstarts⟩ := probeStep_eq_inl.1 hstep
        -- The OBU in front is all there: it is what is passed over first.
        have hbytes : (Whole.ofParse hparse htotal).bytes ++ bytes.drop header.totalLength = bytes :=
          List.take_append_drop _ _
        have htwo := Header.two_le_totalLength hparse
        obtain ⟨obus, rest, hrest, hobus, hends, -⟩ :=
          ih _ (by rw [List.length_drop]; omega) hscore rfl
        refine ⟨Whole.ofParse hparse htotal :: obus, rest, ?_, .cons hpassed ?_ hobus, hends, ?_⟩
        · rw [List.flatMap_cons, List.append_assoc, ← hrest, hbytes]
        · intro hkind
          rw [← hrest, ← Whole.drop_append, hbytes]
          exact hmagic hkind
        · intro hstate
          exact ⟨_, obus, rfl, by_contra fun h => hstarts h hstate⟩

end

/-! ### What a match stands for -/

/-- The magic behind a sequence header is in its body, unless the body is too short for it. -/
theorem Whole.IsAnnounced.prefix_body {obu : Whole} {more : Bytes} (h : obu.IsAnnounced more)
    (hkind : obu.header.kind = .sequenceHeader) :
    SequenceHeader.magic <+: obu.body
      ∨ obu.body <+: SequenceHeader.magic
        ∧ obu.header.bodyLength < SequenceHeader.magic.length := by
  have hbody : obu.body <+: obu.body ++ more := List.prefix_append _ _
  by_cases hlength : SequenceHeader.magic.length ≤ obu.body.length
  · exact .inl (List.prefix_of_prefix_length_le (h hkind) hbody hlength)
  · refine .inr ⟨List.prefix_of_prefix_length_le hbody (h hkind) (by omega), ?_⟩
    rw [← obu.length_body]
    omega

theorem Passed.exists_isAnnounced {rest : Bytes} {obus : List Whole} (h : Passed rest obus) :
    ∀ obu ∈ obus, ∃ more, obu.IsAnnounced more := by
  induction h with
  | nil => exact fun obu hobu => absurd hobu List.not_mem_nil
  | @cons obu obus _ hmagic _ ih =>
    exact List.forall_mem_cons.2 ⟨⟨_, hmagic⟩, ih⟩

/-- A walk over the bytes that ends with a score. It passes over the OBUs in front of
`rest`, the first one being a sequence header. Then there is a frame, or nothing more, in
which case another kind of OBU must have been among those behind the first. -/
structure IsWalk (bytes : Bytes) (first : Whole) (others : List Whole) (rest : Bytes) : Prop where
  bytes_eq : bytes = (first :: others).flatMap (·.bytes) ++ rest
  starts : first.header.kind = .sequenceHeader
  passed : Passed rest (first :: others)
  ends : rest = [] ∧ (∃ obu ∈ others, obu.header.kind ≠ .sequenceHeader)
    ∨ ∃ header, Header.parse rest = .ok header ∧ header.kind.isAudioFrame = true

namespace IsWalk

variable {bytes rest : Bytes} {first : Whole} {others : List Whole}

theorem probe_eq (h : IsWalk bytes first others rest) :
    probe bytes = if rest = [] then scoreExtension else scoreExtension + 1 := by
  have hpast : probe bytes = probeFrom (ProbeState.inSequence.past others) rest := by
    cases h.passed with
    | cons hpassed hmagic hothers =>
      rw [probe, h.bytes_eq, List.flatMap_cons, List.append_assoc,
        first.probeFrom_append hpassed hmagic fun hkind => absurd h.starts hkind, h.starts]
      exact probeFrom_of_passed hothers (by decide)
  rw [hpast]
  obtain ⟨rfl, hother⟩ | ⟨header, hparse, hframe⟩ := h.ends
  · rw [probeFrom_nil, if_pos (ProbeState.past_eq_confirmed.2 (.inr hother)), if_pos rfl]
  · have hrest : rest ≠ [] := by
      rintro rfl
      cases hparse
    rw [probeFrom_of_frame hparse hframe (ProbeState.past_ne_start (by decide) others),
      if_neg hrest]

theorem parse_eq (h : IsWalk bytes first others rest) : Header.parse bytes = .ok first.header := by
  rw [h.bytes_eq, List.flatMap_cons, List.append_assoc]
  exact first.parse_append _

theorem exists_of_pos (h : 0 < probe bytes) :
    ∃ first others rest, IsWalk bytes first others rest := by
  obtain ⟨obus, rest, hbytes, hpassed, hends, hstarts⟩ := exists_passed (UInt8.pos_iff_ne_zero.1 h)
  obtain ⟨first, others, rfl, hkind⟩ := hstarts rfl
  refine ⟨first, others, rest, hbytes, hkind, hpassed, ?_⟩
  rw [ProbeState.past_cons, hkind] at hends
  obtain ⟨hrest, hconfirmed⟩ | ⟨-, hframe⟩ := hends
  · exact .inl ⟨hrest, (ProbeState.past_eq_confirmed.1 hconfirmed).resolve_left (by decide)⟩
  · exact .inr hframe

end IsWalk

/-- Bytes match if a walk over them ends with a score, and the score is that of its end.
The first OBU is a sequence header then. Each sequence header that is passed over has
the magic at the start of its body, or a body that is too short to hold it, and no more
than the start of the magic in there: the probe has found the others in what follows. -/
theorem probe_pos_iff_isWalk (bytes : Bytes) :
    (0 < probe bytes ↔ ∃ first others rest, IsWalk bytes first others rest)
    ∧ ∀ first others rest, IsWalk bytes first others rest →
        probe bytes = (if rest = [] then scoreExtension else scoreExtension + 1)
        ∧ Header.parse bytes = .ok first.header ∧ first.header.kind = .sequenceHeader
        ∧ ∀ obu ∈ first :: others, obu.header.kind = .sequenceHeader →
            SequenceHeader.magic <+: obu.body
            ∨ obu.body <+: SequenceHeader.magic
              ∧ obu.header.bodyLength < SequenceHeader.magic.length := by
  refine ⟨⟨IsWalk.exists_of_pos, ?_⟩, ?_⟩
  · rintro ⟨first, others, rest, hwalk⟩
    rw [hwalk.probe_eq]
    split <;> decide
  · intro first others rest hwalk
    refine ⟨hwalk.probe_eq, hwalk.parse_eq, hwalk.starts, ?_⟩
    intro obu hobu hkind
    obtain ⟨more, hmagic⟩ := hwalk.passed.exists_isAnnounced obu hobu
    exact hmagic.prefix_body hkind

/-- A sequence header with a body of one byte, and a frame whose header happens to go on
with the magic, match. -/
theorem probe_magic_across :
    probe [0xf8, 0x01, 0x69, 0x61, 0x6d, 0x66] = scoreExtension + 1
    ∧ ∃ first : Whole, first.bytes ++ [0x61, 0x6d, 0x66] = [0xf8, 0x01, 0x69, 0x61, 0x6d, 0x66]
        ∧ first.header.kind = .sequenceHeader ∧ first.body = [0x69]
        ∧ ¬ SequenceHeader.magic <+: first.body := by
  have hparsed : Header.parse [0xf8, 0x01, 0x69] = .ok
      { kind := .sequenceHeader, size := 1, headerLength := 2, bodyLength := 1 } := by
    decide +kernel
  have hbody : ¬ SequenceHeader.magic <+: [0x69] := by decide
  exact ⟨by decide +kernel, ⟨_, _, hparsed, rfl⟩, rfl, rfl, rfl, hbody⟩

end Iamf.Obu
