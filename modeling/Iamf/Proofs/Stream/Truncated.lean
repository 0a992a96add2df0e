import Iamf.Proofs.Obu.Partial
import Iamf.Proofs.Stream.Packets

/-!
# `Iamf.Proofs.Stream.Truncated`: a stream that breaks off

A cut may fall between two OBUs, or anywhere inside one: in its flags, in any
number of its header, in its extension, in a body that is read or in one that is
passed over, before or after the descriptors end. What they have in common is
that the bytes behind the last whole OBU are a `Remnant` of the next: no whole
OBU starts there. The demuxer gives what it gives for the whole OBUs, and then
either notices the cut at the header or runs out of bytes when it consumes.

* `packetStep_of_remnant`, `descriptorStep_of_remnant`: one step in front of a remnant.
* `session_of_remnant`: the session of OBUs with a remnant behind them.
* `session_take`: a cut is always noticed.
-/

set_option autoImplicit false

namespace Iamf

open Obu (IsRemnant IsPart)

/-! ### Running out of bytes -/

namespace Source

/-- Consuming more than is to come fails. -/
theorem consume_of_short {program : Nat → Input → Bytes × Outcome × Input}
    (hprogram : Input.Gathers program) {count : Nat} (subject : String) {source : Source}
    {bytes : Bytes} (h : source.Awaits bytes) (hshort : bytes.length < count) :
    ∃ after, consume program count subject source = .error (.truncated subject) after := by
  obtain ⟨-, houtcome, -⟩ := hprogram (count - source.lookahead.length) source.input
  have hlength := congrArg List.length h.unread
  rw [unread, List.length_append] at hlength
  rw [if_neg (by omega), Input.ending, h.ends] at houtcome
  simp only [consume, houtcome]
  exact ⟨_, rfl⟩

theorem take_of_short {count : Nat} (subject : String) {source : Source} {bytes : Bytes}
    (h : source.Awaits bytes) (hshort : bytes.length < count) :
    ∃ after, take count subject source = .error (.truncated subject) after :=
  consume_of_short Input.gatherChunks_eq subject h hshort

theorem skip_of_short {count : Nat} (subject : String) {source : Source} {bytes : Bytes}
    (h : source.Awaits bytes) (hshort : bytes.length < count) :
    ∃ after, skip count subject source = .error (.truncated subject) after := by
  obtain ⟨after, hconsume⟩ := consume_of_short Input.gather_eq subject h hshort
  exact ⟨after, Stateful.bind_of_error hconsume⟩

end Source

namespace Demuxer

variable {config : DemuxerConfig} {demuxer : Demuxer} {reading : Reading} {bytes : Bytes}
  {header : Obu.Header}

theorem onSource_of_error {α : Type} {program : Stateful Source α} (demuxer : Demuxer)
    {error : Error} {source : Source} (h : program demuxer.source = .error error source) :
    onSource program demuxer = .error error { demuxer with source } := by
  simp only [onSource, Stateful.onPart, h]

/-- The body of an OBU that is longer than what is to come cannot be read. The
cut may be in front of the body or in it. -/
theorem readBody_of_short (demuxer : Demuxer) (h : demuxer.source.Awaits bytes)
    (hshort : bytes.length < header.totalLength) :
    ∃ subject after, readBody header demuxer = .error (.truncated subject) after := by
  rw [Obu.Header.totalLength] at hshort
  rcases Nat.lt_or_ge bytes.length header.headerLength with hlt | hge
  · obtain ⟨source, hskip⟩ := Source.skip_of_short "OBU header" h hlt
    exact ⟨_, _, Stateful.bind_of_error (onSource_of_error demuxer hskip)⟩
  · rw [← List.take_append_drop header.headerLength bytes] at h
    obtain ⟨middle, hskip, hmiddle⟩ := Source.skip_of_awaits "OBU header" h
    rw [List.length_take_of_le hge] at hskip
    have hmissing : (bytes.drop header.headerLength).length < header.bodyLength := by
      rw [List.length_drop]
      omega
    obtain ⟨source, htake⟩ := Source.take_of_short "OBU body" hmiddle hmissing
    refine ⟨"OBU body", { demuxer with source }, ?_⟩
    rw [readBody, Stateful.bind_of_ok (onSource_of_ok demuxer hskip)]
    exact onSource_of_error { demuxer with source := middle } htake

theorem skipObu_of_short (demuxer : Demuxer) (subject : String)
    (h : demuxer.source.Awaits bytes) (hshort : bytes.length < header.totalLength) :
    ∃ after, skipObu header subject demuxer = .error (.truncated subject) after := by
  obtain ⟨source, hskip⟩ := Source.skip_of_short subject h hshort
  exact ⟨_, onSource_of_error demuxer hskip⟩

/-- In front of a remnant either no header is seen, or one of an OBU that is
longer than what is to come. -/
theorem peekHeader_of_remnant (h : demuxer.source.Awaits bytes)
    (hremnant : IsRemnant demuxer.config.maxObuSize bytes) :
    (∃ error after, peekHeader demuxer = .error error after
      ∧ (IsPart demuxer.config.maxObuSize bytes → error = .truncated "OBU header"))
    ∨ ∃ header source, source.Awaits bytes ∧ bytes.length < header.totalLength
      ∧ peekHeader demuxer = .ok (some header) { demuxer with source } := by
  -- The start of an OBU that breaks off gives the header of that OBU, or none.
  have hpart := fun hbytes : IsPart demuxer.config.maxObuSize bytes =>
    hbytes.parse_of_seen (List.take_prefix Obu.maxHeaderSize bytes)
  cases hparse : Obu.Header.parse (bytes.take Obu.maxHeaderSize) with
  | error error =>
    simp only [hparse, reduceCtorEq, false_and, exists_false, false_or, Except.error.injEq]
      at hpart
    obtain ⟨source, hpeek⟩ := peekHeader_of_error h hremnant.nonempty hparse
    exact .inl ⟨error, _, hpeek, hpart⟩
  | ok header =>
    simp only [hparse, reduceCtorEq, or_false, Except.ok.injEq, exists_eq_left'] at hpart
    obtain ⟨source, hawaits, hpeek⟩ := peekHeader_of_parse h hremnant.nonempty hparse
    split at hpeek
    · rename_i hsize
      exact .inr ⟨header, source, hawaits, hremnant.length_lt (List.take_prefix _ _)
        (List.length_take_le _ _) hparse hsize, hpeek⟩
    · rename_i hsize
      exact .inl ⟨_, _, hpeek, fun hbytes => absurd (hpart hbytes) hsize⟩

/-! ### One step in front of a remnant -/

/-- The step fails, and says that the input ends too early where that is all
that is wrong. -/
def Breaks {α : Type} (limit : Nat) (bytes : Bytes) (result : EStateM.Result Error Demuxer α) :
    Prop :=
  ∃ error after, result = .error error after
    ∧ (IsPart limit bytes → ∃ subject, error = .truncated subject)

theorem packetStep_of_remnant (h : demuxer.source.Awaits bytes)
    (hremnant : IsRemnant demuxer.config.maxObuSize bytes) :
    Breaks demuxer.config.maxObuSize bytes (packetStep demuxer) := by
  rw [packetStep]
  rcases peekHeader_of_remnant h hremnant with
    ⟨error, after, hpeek, herror⟩ | ⟨header, source, hawaits, hshort, hpeek⟩
  · exact ⟨error, after, Stateful.bind_of_error hpeek, fun hpart => ⟨_, herror hpart⟩⟩
  -- Whatever the OBU is, it is consumed first.
  obtain ⟨read, bodyAfter, hread⟩ := readBody_of_short { demuxer with source } hawaits hshort
  have hskip : ∀ subject, ∃ after, skipObu header subject { demuxer with source }
      = .error (.truncated subject) after :=
    fun subject => skipObu_of_short { demuxer with source } subject hawaits hshort
  have hhandle : ∃ subject after, handlePacket header { demuxer with source }
      = .error (.truncated subject) after := by
    simp only [handlePacket]
    cases header.kind
    case audioFrame | impliedFrame =>
      exact ⟨_, _, Stateful.bind_of_error (Stateful.bind_of_error hread)⟩
    case parameterBlock => exact ⟨_, _, Stateful.bind_of_error hread⟩
    case temporalDelimiter =>
      exact ⟨_, _, Stateful.bind_of_error (Stateful.bind_of_error (hskip _).choose_spec)⟩
    all_goals exact ⟨_, _, Stateful.bind_of_error (hskip _).choose_spec⟩
  obtain ⟨subject, after, hhandle⟩ := hhandle
  exact ⟨_, after, (Stateful.bind_of_ok hpeek).trans hhandle, fun _ => ⟨subject, rfl⟩⟩

/-- In the first phase the OBU may also be one that ends the descriptors, which
stays where it is. -/
theorem descriptorStep_of_remnant (h : demuxer.source.Awaits bytes)
    (hremnant : IsRemnant demuxer.config.maxObuSize bytes) :
    Breaks demuxer.config.maxObuSize bytes (descriptorStep demuxer)
      ∨ ∃ source, source.Awaits bytes
        ∧ descriptorStep demuxer = .ok false { demuxer with source } := by
  rw [descriptorStep]
  rcases peekHeader_of_remnant h hremnant with
    ⟨error, after, hpeek, herror⟩ | ⟨header, source, hawaits, hshort, hpeek⟩
  · exact .inl ⟨error, after, Stateful.bind_of_error hpeek, fun hpart => ⟨_, herror hpart⟩⟩
  obtain ⟨read, bodyAfter, hread⟩ := readBody_of_short { demuxer with source } hawaits hshort
  have hskip : ∀ subject, ∃ after, skipObu header subject { demuxer with source }
      = .error (.truncated subject) after :=
    fun subject => skipObu_of_short { demuxer with source } subject hawaits hshort
  have hhandle : (∃ subject after, handleDescriptor header { demuxer with source }
        = .error (.truncated subject) after)
      ∨ handleDescriptor header { demuxer with source } = .ok false { demuxer with source } := by
    simp only [handleDescriptor]
    cases header.kind
    case parameterBlock | audioFrame | impliedFrame => exact .inr rfl
    case temporalDelimiter =>
      exact .inl ⟨_, _, Stateful.bind_of_error (Stateful.bind_of_error (hskip _).choose_spec)⟩
    case reserved => exact .inl ⟨_, _, Stateful.bind_of_error (hskip _).choose_spec⟩
    all_goals exact .inl ⟨_, _, Stateful.bind_of_error (Stateful.bind_of_error hread)⟩
  rcases hhandle with ⟨subject, after, hhandle⟩ | hhandle
  · exact .inl ⟨_, after, (Stateful.bind_of_ok hpeek).trans hhandle, fun _ => ⟨subject, rfl⟩⟩
  · exact .inr ⟨source, hawaits, (Stateful.bind_of_ok hpeek).trans hhandle⟩

/-- Behind a remnant there are no packets. -/
theorem readPackets_of_remnant (h : demuxer.source.Awaits bytes)
    (hremnant : IsRemnant demuxer.config.maxObuSize bytes) :
    ∃ error after, demuxer.readPackets = { packets := [], failure := some error, demuxer := after }
      ∧ (IsPart demuxer.config.maxObuSize bytes → ∃ subject, error = .truncated subject) := by
  obtain ⟨error, after, hstep, herror⟩ := packetStep_of_remnant h hremnant
  refine ⟨error, after, ?_, herror⟩
  rw [readPackets_eq, hstep]

end Demuxer

/-! ### A whole stream that breaks off -/

namespace Session

/-- The packets that a stream gave. -/
def packets : Session → List Packet
  | .refused _ => []
  | .played _ packets _ _ _ => packets

/-- What put an end to a stream, if it was not the end of the input. -/
def failure : Session → Option Error
  | .refused error => some error
  | .played _ _ _ failure _ => failure

/-- The session of a stream with a remnant at its end: it fails, behind the packets
of the reading if that did not fail already, and then because the input ends too
early where that is all that is wrong. -/
def BreaksOff (limit : Nat) (bytes : Bytes) (reading : Reading) (session : Session) : Prop :=
  ∃ error, session.failure = some error
    ∧ (reading.failure = none → session.packets = reading.packets
        ∧ (IsPart limit bytes → ∃ subject, error = .truncated subject))

end Session

namespace Demuxer

variable {config : DemuxerConfig} {demuxer : Demuxer} {reading : Reading} {rest : Bytes}

/-- From the end of the descriptors on. -/
theorem breaksOff_opened {obus : List Obu.Complete}
    (h : Tracks config demuxer reading (obus.flatMap (·.bytes) ++ rest))
    (hremnant : IsRemnant config.maxObuSize rest)
    (hsize : ∀ obu ∈ obus, obu.header.totalLength ≤ config.maxObuSize)
    (hfailure : reading.failure = none) (hopened : reading.opened = true)
    (hpackets : reading.packets = []) :
    (sessionOf (.ok demuxer)).BreaksOff config.maxObuSize rest
      (obus.foldl (Reading.step config) reading) := by
  obtain ⟨after, packets, used, htracks, hwhole, -, -, hgained, hread⟩ :=
    readPackets_of_front h hsize hfailure hopened
  rw [hpackets, List.nil_append] at hgained
  cases hended : (obus.foldl (Reading.step config) reading).failure with
  | some error =>
    rw [hended] at hread
    refine ⟨error, ?_, fun hnever => ?_⟩
    · show demuxer.readPackets.failure = _
      rw [hread]
    · rw [hended] at hnever
      cases hnever
  | none =>
    rw [hended] at hread
    rw [hwhole hended, List.drop_left] at htracks
    obtain ⟨error, last, hbroken, herror⟩ :=
      readPackets_of_remnant htracks.awaits (htracks.config ▸ hremnant)
    rw [htracks.config] at herror
    have hplayed : demuxer.readPackets = { packets, failure := some error, demuxer := last } := by
      rw [hread, hbroken, Played.after, List.append_nil]
    refine ⟨error, ?_, fun _ => ⟨?_, herror⟩⟩
    · show demuxer.readPackets.failure = _
      rw [hplayed]
    · show demuxer.readPackets.packets = _
      rw [hplayed, hgained]

/-- From where the descriptors end on. -/
theorem breaksOff_described {obus : List Obu.Complete}
    (h : Tracks config demuxer reading (obus.flatMap (·.bytes) ++ rest))
    (hfresh : reading.IsFresh) (hremnant : IsRemnant config.maxObuSize rest)
    (hsize : ∀ obu ∈ obus, obu.header.totalLength ≤ config.maxObuSize)
    (hends : ∀ obu ∈ obus.head?, endsDescriptors obu.header.kind = true) :
    (sessionOf demuxer.readDescriptors).BreaksOff config.maxObuSize rest
      (obus.foldl (Reading.step config) reading) := by
  -- The demuxer keeps no note of the end of the descriptors.
  have hopened : ∀ {source : Source}, source.Awaits (obus.flatMap (·.bytes) ++ rest) →
      Tracks config { demuxer with source } { reading with opened := true }
        (obus.flatMap (·.bytes) ++ rest) :=
    fun hsource => ⟨hsource, h.config, h.registry, h.values⟩
  rw [readDescriptors_eq]
  cases obus with
  | nil =>
    -- Nothing but descriptors: the remnant is met in the first phase, and perhaps again.
    rcases descriptorStep_of_remnant h.awaits (h.config ▸ hremnant) with
      ⟨error, last, hstep, herror⟩ | ⟨source, hsource, hstep⟩
    · rw [hstep]
      rw [h.config] at herror
      exact ⟨error, rfl, fun _ => ⟨hfresh.packets.symm, herror⟩⟩
    · rw [hstep]
      have hbroken := breaksOff_opened (hopened hsource) hremnant hsize hfresh.failure rfl
        hfresh.packets
      exact hbroken
  | cons obu others =>
    have hobu := hends obu rfl
    rw [List.flatMap_cons, List.append_assoc] at h hopened
    obtain ⟨source, hsource, hstep⟩ := descriptorStep_stop h.awaits
      (h.config ▸ hsize obu List.mem_cons_self) hobu
    rw [hstep, List.foldl_cons, Reading.step_of_ends hfresh.failure hobu, ← List.foldl_cons]
    refine breaksOff_opened ?_ hremnant hsize hfresh.failure rfl hfresh.packets
    rw [List.flatMap_cons, List.append_assoc]
    exact hopened hsource

/-- A stream of whole OBUs with a remnant behind them. -/
theorem session_of_remnant (config : DemuxerConfig) (obus : List Obu.Complete) {input : Input}
    (hbytes : input.rest = obus.flatMap (·.bytes) ++ rest) (hends : input.failure = none)
    (hremnant : IsRemnant config.maxObuSize rest)
    (hsize : ∀ obu ∈ obus, obu.header.totalLength ≤ config.maxObuSize) :
    (session config input).BreaksOff config.maxObuSize rest
      (obus.foldl (Reading.step config) {}) := by
  obtain ⟨front, back, rfl, hfront, hback⟩ := exists_descriptors obus
  have hstart := tracks_start config hbytes hends
  rw [List.flatMap_append, List.append_assoc] at hstart
  obtain ⟨after, hafter, -, hread⟩ := readDescriptors_of_front hstart
    (fun obu hmem => hsize obu (List.mem_append_left _ hmem)) hfront ⟨rfl, rfl, rfl, rfl⟩
  rw [session, ofInput, hread, List.foldl_append]
  cases hended : (front.foldl (Reading.step config) {}).failure with
  | some error =>
    rw [Reading.foldl_step_of_failed (by rw [hended]; rfl)]
    refine ⟨error, rfl, fun hnever => ?_⟩
    rw [hended] at hnever
    cases hnever
  | none =>
    obtain ⟨hfresh, htracks, -⟩ := hafter hended
    exact breaksOff_described htracks hfresh hremnant
      (fun obu hmem => hsize obu (List.mem_append_right front hmem)) hback

/-- A stream that was read to its end is whole OBUs of an accepted length. -/
theorem exists_obus_of_session {input : Input} (hends : input.failure = none)
    (h : (session config input).failure = none) :
    ∃ obus : List Obu.Complete, input.rest = obus.flatMap (·.bytes)
      ∧ ∀ obu ∈ obus, obu.header.totalLength ≤ config.maxObuSize := by
  obtain ⟨obus, rest, hbytes, hsize, rfl | hremnant⟩ :=
    Obu.Complete.exists_remnant config.maxObuSize input.rest
  · exact ⟨obus, hbytes.trans (List.append_nil _), hsize⟩
  · obtain ⟨error, hfailed, -⟩ := session_of_remnant config obus hbytes hends hremnant hsize
    rw [h] at hfailed
    cases hfailed

/-! ### Cuts -/

/-- Packets are never taken back. -/
theorem packets_step (config : DemuxerConfig) (reading : Reading) (obu : Obu.Complete) :
    reading.packets <+: (Reading.step config reading obu).packets := by
  simp only [Reading.step]
  split
  · exact List.prefix_rfl
  split
  · simp only [Reading.media]
    split
    case h_2 => split <;> exact List.prefix_rfl
    case h_3 | h_4 => split <;> first | exact List.prefix_append _ _ | exact List.prefix_rfl
    all_goals exact List.prefix_rfl
  · obtain ⟨registry, failure, hsame⟩ := Reading.descriptor_same config { reading with
      opened := reading.opened || endsDescriptors obu.header.kind
      consumed := reading.consumed + obu.bytes.length } obu
    exact ⟨[], by rw [hsame, List.append_nil]⟩

theorem packets_foldl (config : DemuxerConfig) (obus : List Obu.Complete) (reading : Reading) :
    reading.packets <+: (obus.foldl (Reading.step config) reading).packets := by
  induction obus generalizing reading with
  | nil => exact List.prefix_rfl
  | cons obu obus ih => exact (packets_step config reading obu).trans (ih _)

/-- A reading that has not failed in the end did not fail on the way. -/
theorem failure_of_foldl {obus : List Obu.Complete}
    (h : (obus.foldl (Reading.step config) reading).failure = none) : reading.failure = none := by
  cases hfailure : reading.failure with
  | none => rfl
  | some error =>
    rw [Reading.foldl_step_of_failed (by rw [hfailure]; rfl), hfailure] at h
    cases h

/-- The failure and the packets of a stream of whole OBUs. -/
theorem session_of_obus {obus : List Obu.Complete} {input : Input}
    (hbytes : input.rest = obus.flatMap (·.bytes)) (hends : input.failure = none)
    (hsize : ∀ obu ∈ obus, obu.header.totalLength ≤ config.maxObuSize) :
    (session config input).failure = (obus.foldl (Reading.step config) {}).failure
      ∧ ((obus.foldl (Reading.step config) {}).failure = none →
        (session config input).packets = (obus.foldl (Reading.step config) {}).packets) := by
  have hsession : session config input
      = (obus.foldl (Reading.step config) {}).session (obus.flatMap (·.bytes)) :=
    sessionOf_readDescriptors [] (tracks_start config hbytes hends) hsize ⟨rfl, rfl, rfl, rfl⟩ rfl
  rw [hsession, Reading.session]
  constructor
  · split
    · next hfailure _ => exact hfailure.symm
    · rfl
  · intro hclean
    rw [hclean]
    rfl

/-- A cut through a stream that can be read to its end is always noticed. Between
two OBUs the packets in front of it are all there is; inside an OBU they come, and
then the input is reported to end too early. -/
theorem session_take (config : DemuxerConfig) {whole cut : Input} {count : Nat}
    (hwhole : whole.failure = none) (hcut : cut.failure = none)
    (hbytes : cut.rest = whole.rest.take count)
    (hclean : (session config whole).failure = none) :
    (session config cut).packets <+: (session config whole).packets
      ∧ (Obu.IsBoundary whole.rest count → (session config cut).failure = none)
      ∧ (¬ Obu.IsBoundary whole.rest count →
        ∃ subject, (session config cut).failure = some (.truncated subject)) := by
  obtain ⟨obus, hobus, hsize⟩ := exists_obus_of_session hwhole hclean
  obtain ⟨hfailure, hpackets⟩ := session_of_obus hobus hwhole hsize
  rw [hclean] at hfailure
  rw [hpackets hfailure.symm]
  -- The OBUs in front of a cut are read as they are in the whole stream.
  have hfront : ∀ {front : List Obu.Complete}, front <+: obus →
      (front.foldl (Reading.step config) {}).failure = none
        ∧ (front.foldl (Reading.step config) {}).packets
            <+: (obus.foldl (Reading.step config) {}).packets
        ∧ ∀ obu ∈ front, obu.header.totalLength ≤ config.maxObuSize := by
    rintro front ⟨back, rfl⟩
    rw [List.foldl_append] at hfailure ⊢
    exact ⟨failure_of_foldl hfailure.symm, packets_foldl config back _,
      fun obu hmem => hsize obu (List.mem_append_left _ hmem)⟩
  by_cases hboundary : Obu.IsBoundary whole.rest count
  · obtain ⟨front, htake⟩ := hboundary
    have hprefix : front <+: obus := Obu.Complete.prefix_of_flatMap_prefix (by
      rw [← htake, ← hobus]
      exact List.take_prefix _ _)
    obtain ⟨hread, hgiven, hfits⟩ := hfront hprefix
    obtain ⟨hcutFailure, hcutPackets⟩ := session_of_obus (hbytes.trans htake) hcut hfits
    rw [hcutPackets hread]
    exact ⟨hgiven, fun _ => hcutFailure.trans hread, fun hnever => absurd ⟨front, htake⟩ hnever⟩
  · obtain ⟨front, back, part, rfl, htake, hpart⟩ := Obu.Complete.exists_take obus count
    rw [← hobus] at htake
    rcases hpart with rfl | ⟨obu, hmem, hbegins, hless⟩
    · exact absurd ⟨front, htake.trans (List.append_nil _)⟩ hboundary
    have hempty : part ≠ [] := by
      rintro rfl
      exact hboundary ⟨front, htake.trans (List.append_nil _)⟩
    obtain ⟨hread, hgiven, hfits⟩ := hfront (List.prefix_append front back)
    obtain ⟨error, hcutFailure, hcutEnds⟩ := session_of_remnant config front
      (hbytes.trans htake) hcut (Obu.Complete.isRemnant_of_part _ hempty hbegins hless) hfits
    obtain ⟨hcutPackets, herror⟩ := hcutEnds hread
    obtain ⟨subject, rfl⟩ := herror ⟨obu, hsize obu (List.mem_append_right _ hmem), hbegins⟩
    rw [hcutPackets]
    exact ⟨hgiven, fun hnever => absurd hnever hboundary, fun _ => ⟨subject, hcutFailure⟩⟩

/-- A mono stream with one frame. -/
def framedStream : Bytes :=
  Muxer.monoHeader ++ [0x20, 0x00, 0x28, 0x02, 0x14, 0x07]

set_option maxRecDepth 4000 in
/-- A cut in front of the last byte, which is the coded frame. -/
theorem session_take_framed :
    (session {} { rest := framedStream }).failure = none
      ∧ (session {} { rest := framedStream.take 54 }).packets
          <+: (session {} { rest := framedStream }).packets
      ∧ (Obu.IsBoundary framedStream 54 →
        (session {} { rest := framedStream.take 54 }).failure = none)
      ∧ (¬ Obu.IsBoundary framedStream 54 →
        ∃ subject, (session {} { rest := framedStream.take 54 }).failure
          = some (.truncated subject)) :=
  have hclean : (session {} { rest := framedStream }).failure = none := by decide +kernel
  ⟨hclean, session_take {} rfl rfl rfl hclean⟩

end Demuxer

end Iamf
