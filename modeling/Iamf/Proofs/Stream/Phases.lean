import Iamf.Proofs.Stream.Accepted
import Iamf.Proofs.Stream.Framed
import Iamf.Proofs.Stream.Gained

/-!
# `Iamf.Proofs.Stream.Phases`: a stream out of calls in any order

A muxer asks for one thing only, that there is a header before the first packet. A
demuxer reads in two phases, and a header means something else in each: up to the
first packet it is read into the registry, where ids must be new, and from then on it
is passed over. So it matters where the headers are, and how many. `Phase` is a
machine with one step for each call; a demuxer follows it through all that is ever
written, as long as the packets bring no values along.

* `Phase.next`: what a call makes of a phase.
* `Phase.foldl_next_eq_refused`: the calls that lead to a stream that is refused.
* `Request.exists_obus`: what a call writes leads a reading to the next phase.
* `session_of_run`: a run of calls.
-/

set_option autoImplicit false

namespace Iamf

/-- A packet that was read is the frame that was written for a packet: it belongs to the
substream of the stream of the packet, and brings no values. -/
structure Packet.FrameReadAs (registry : Registry) (written read : Packet) : Prop where
  substream : (registry.substreams.find? (·.streamIndex = written.streamIndex)).map (·.id)
    = some read.substream
  data : read.data = written.data
  trim : read.trim = written.trim
  values : read.values = {}

namespace Muxer

/-! ### Phases -/

/-- The packet that a request writes, if it writes one. -/
def Request.packet? : Request → Option Packet
  | packet written => some written
  | _ => none

/-- How far a demuxer is in what was written. -/
inductive Phase where
  /-- There has been no header yet. -/
  | silent
  /-- A header was read into the registry. -/
  | described
  /-- There has been a packet, so the descriptors are complete. -/
  | playing
  /-- A second header was refused. -/
  | refused
  deriving DecidableEq, Repr

/-- The phase that a request leads to, for a stream of this registry. -/
def Phase.next (registry : Registry) (phase : Phase) : Request → Phase
  | .delimiter => phase
  | .header =>
    match phase with
    | silent => described
    | described => if registry.IsRepeatable then described else refused
    | playing | refused => phase
  | .packet _ =>
    match phase with
    | silent | described => playing
    | playing | refused => phase

/-- How many headers there are before the first packet. -/
def openings (requests : List Request) : Nat :=
  (requests.takeWhile (·.packet?.isNone)).count .header

theorem openings_header (requests : List Request) :
    openings (.header :: requests) = openings requests + 1 := by
  rw [openings, List.takeWhile_cons_of_pos rfl, List.count_cons_self, openings]

theorem openings_delimiter (requests : List Request) :
    openings (.delimiter :: requests) = openings requests := by
  rw [openings, List.takeWhile_cons_of_pos rfl, List.count_cons_of_ne (by decide), openings]

theorem openings_packet (packet : Packet) (requests : List Request) :
    openings (.packet packet :: requests) = 0 := by
  rw [openings, List.takeWhile_cons_of_neg (by simp [Request.packet?]), List.count_nil]

namespace Phase

variable {registry : Registry}

/-- The last two phases go on for ever. -/
theorem foldl_next_of_final {phase : Phase} (h : phase = playing ∨ phase = refused)
    (requests : List Request) : requests.foldl (next registry) phase = phase := by
  induction requests with
  | nil => rfl
  | cons request requests ih =>
    have hstay : next registry phase request = phase := by
      rcases h with rfl | rfl <;> cases request <;> rfl
    rw [List.foldl_cons, hstay, ih]

/-- Behind a header, any other one before the first packet leads to a refusal. -/
theorem foldl_next_described (requests : List Request) :
    requests.foldl (next registry) described = refused
      ↔ ¬ registry.IsRepeatable ∧ 1 ≤ openings requests := by
  induction requests with
  | nil => simp [openings]
  | cons request requests ih =>
    rw [List.foldl_cons]
    cases request with
    | header =>
      rw [openings_header, next]
      by_cases hrepeatable : registry.IsRepeatable
      · simp [hrepeatable, ih]
      · simp [hrepeatable, foldl_next_of_final]
    | delimiter => rw [openings_delimiter, next, ih]
    | packet packet => simp [openings_packet, next, foldl_next_of_final]

/-- What was written is refused if there are two headers before the first packet, unless
these have nothing in them that has to be new. -/
theorem foldl_next_eq_refused (requests : List Request) :
    requests.foldl (next registry) silent = refused
      ↔ ¬ registry.IsRepeatable ∧ 2 ≤ openings requests := by
  induction requests with
  | nil => simp [openings]
  | cons request requests ih =>
    rw [List.foldl_cons]
    cases request with
    | header => rw [openings_header, next, foldl_next_described, Nat.succ_le_succ_iff]
    | delimiter => rw [openings_delimiter, next, ih]
    | packet packet => simp [openings_packet, next, foldl_next_of_final]

/-- A header puts an end to the silence. -/
theorem next_ne_silent {phase : Phase} {request : Request}
    (h : phase ≠ silent ∨ request = .header) : next registry phase request ≠ silent := by
  cases request with
  | header =>
    cases phase with
    | described =>
      rw [next]
      split <;> nofun
    | _ => nofun
  | delimiter => exact h.resolve_right nofun
  | packet packet => cases phase <;> nofun

theorem foldl_next_ne_silent {phase : Phase} {requests : List Request}
    (h : phase ≠ silent ∨ Request.header ∈ requests) :
    requests.foldl (next registry) phase ≠ silent := by
  induction requests generalizing phase with
  | nil => exact h.resolve_right List.not_mem_nil
  | cons request requests ih =>
    refine ih ?_
    rcases h with hphase | hmem
    · exact .inl (next_ne_silent (.inl hphase))
    · rcases List.mem_cons.1 hmem with hnow | hlater
      · exact .inl (next_ne_silent (.inr hnow.symm))
      · exact .inr hlater

end Phase

end Muxer

/-! ### Readings in a phase -/

namespace Reading

variable {config : DemuxerConfig} {reading : Reading} {obu : Obu.Complete}

/-- An OBU opens a reading if it ends the descriptors. -/
theorem opened_step (h : reading.failure = none) :
    (step config reading obu).opened
      = (reading.opened || Demuxer.endsDescriptors obu.header.kind) := by
  cases hopened : reading.opened with
  | true =>
    rw [step_of_opened h hopened, (media_same config _ obu).2]
    exact hopened
  | false =>
    cases hends : Demuxer.endsDescriptors obu.header.kind with
    | true =>
      rw [step_eq_media h hends, (media_same config _ obu).2]
      rfl
    | false =>
      rw [step_of_descriptor h hopened hends]
      obtain ⟨_, _, hsame⟩ := descriptor_same config
        { reading with consumed := reading.consumed + obu.bytes.length } obu
      rw [hsame]
      exact hopened

/-- Once a reading is open, descriptors are passed over. -/
theorem IsAt.foldl_ignored {registry : Registry} {values : Snapshot} {packets : List Packet}
    {obus : List Obu.Complete} (h : reading.IsAt registry values packets)
    (hopened : reading.opened = true)
    (hignored : ∀ obu ∈ obus, Demuxer.isIgnored obu.header.kind = true) :
    (obus.foldl (step config) reading).IsAt registry values packets
      ∧ (obus.foldl (step config) reading).opened = true := by
  induction obus generalizing reading with
  | nil => exact ⟨h, hopened⟩
  | cons obu obus ih =>
    obtain ⟨hfirst, hothers⟩ := List.forall_mem_cons.1 hignored
    rw [List.foldl_cons, step_of_opened h.failure hopened, media_of_ignored hfirst]
    exact ih ⟨h.failure, h.registry, h.values, h.packets, h.closed⟩ hopened hothers

end Reading

namespace Muxer

/-- A reading is in a phase: these are its descriptors and packets, and it has no
values. -/
def Phase.Describes (opened : Registry) (packets : List Packet) (reading : Reading) :
    Phase → Prop
  | silent => reading.IsFresh ∧ reading.registry = .empty ∧ packets = []
  | described => reading.IsFresh ∧ reading.registry = opened ∧ packets = []
  | playing => reading.IsAt opened {} packets ∧ reading.opened = true
  | refused => reading.opened = false ∧ reading.failure.isSome = true

variable {config : DemuxerConfig} {registry opened : Registry}

/-- The OBUs of a request lead readings from every phase to the next one, and these
are the packets that they add. Packets need a header before them. -/
def Request.Leads (config : DemuxerConfig) (registry opened : Registry) (request : Request)
    (obus : List Obu.Complete) (read : List Packet) : Prop :=
  ∀ phase reading packets, Phase.Describes opened packets reading phase →
    (request.packet?.isSome = true → phase ≠ .silent) →
    (phase.next registry request).Describes opened (packets ++ read)
      (obus.foldl (Reading.step config) reading)

/-- A temporal delimiter leaves everything as it is. -/
theorem leads_delimiter {obu : Obu.Complete} (hobu : obu.header.kind = .temporalDelimiter) :
    Request.delimiter.Leads config registry opened [obu] [] := by
  intro phase reading packets hphase _
  rw [List.append_nil, List.foldl_cons, List.foldl_nil]
  have hends : Demuxer.endsDescriptors obu.header.kind = false := by
    rw [hobu]
    rfl
  have hfresh : reading.IsFresh →
      (reading.step config obu).IsFresh
        ∧ (reading.step config obu).registry = reading.registry := by
    intro hfresh
    have hregisters : Registry.Registers config.mode reading.registry obu.body obu.header.kind
        reading.registry := .other (by rw [hobu]; exact ⟨by simp, rfl⟩)
    rw [Reading.step_of_registers hfresh.failure hfresh.opened hends hregisters]
    exact ⟨⟨hfresh.failure, hfresh.opened, hfresh.values, hfresh.packets⟩, rfl⟩
  cases phase with
  | silent | described =>
    obtain ⟨hbefore, hregistry, hpackets⟩ := hphase
    obtain ⟨hafter, hsame⟩ := hfresh hbefore
    exact ⟨hafter, hsame.trans hregistry, hpackets⟩
  | playing =>
    obtain ⟨hat, hopened⟩ := hphase
    refine ⟨hat.delimiter hobu, ?_⟩
    rw [Reading.opened_step hat.failure, hopened, Bool.true_or]
  | refused =>
    obtain ⟨hopened, hfailure⟩ := hphase
    rw [Reading.step, if_pos hfailure]
    exact ⟨hopened, hfailure⟩

/-- A header is read into the registry once. The second one is refused, unless it is only
a sequence header, and behind a packet it is passed over. -/
theorem leads_header {descriptors : Descriptors registry}
    (h : Registry.RegistersAll config.mode .empty descriptors.obus opened) :
    Request.header.Leads config registry opened descriptors.obus [] := by
  intro phase reading packets hphase _
  rw [List.append_nil]
  have hends : ∀ obu ∈ descriptors.obus, Demuxer.endsDescriptors obu.header.kind = false :=
    fun obu hobu => (descriptors.of_mem hobu).1
  cases phase with
  | silent =>
    obtain ⟨hfresh, hregistry, hpackets⟩ := hphase
    rw [← hregistry] at h
    obtain ⟨hafter, hopened⟩ := Reading.foldl_step_of_registersAll h hends hfresh
    exact ⟨hafter, hopened, hpackets⟩
  | described =>
    obtain ⟨hfresh, hregistry, hpackets⟩ := hphase
    have hagain : ∀ after, Registry.RegistersAll config.mode reading.registry descriptors.obus after
        ↔ registry.IsRepeatable ∧ after = reading.registry := by
      rw [hregistry]
      exact fun after => descriptors.registersAll_again h
    show (if registry.IsRepeatable then Phase.described else Phase.refused).Describes _ _ _
    by_cases hrepeatable : registry.IsRepeatable
    · rw [if_pos hrepeatable]
      obtain ⟨hafter, hopened⟩ :=
        Reading.foldl_step_of_registersAll ((hagain _).2 ⟨hrepeatable, rfl⟩) hends hfresh
      exact ⟨hafter, hopened.trans hregistry, hpackets⟩
    · rw [if_neg hrepeatable]
      obtain ⟨hopened, hclean⟩ := Reading.foldl_step_of_describes config hends hfresh
      refine ⟨hopened, ?_⟩
      by_contra hnone
      rw [Option.not_isSome_iff_eq_none] at hnone
      exact hrepeatable ((hagain _).1 (hclean hnone).2).1
  | playing =>
    obtain ⟨hat, hopened⟩ := hphase
    exact hat.foldl_ignored hopened fun obu hobu => descriptors.isIgnored hobu
  | refused =>
    obtain ⟨hopened, hfailure⟩ := hphase
    rw [Reading.foldl_step_of_failed hfailure]
    exact ⟨hopened, hfailure⟩

/-! ### What a call writes -/

/-- A packet without values is its audio frame. -/
theorem encodePacket_of_plain {packet : Packet} {bytes : Bytes} (hvalues : packet.values = {})
    (h : encodePacket registry packet = .ok bytes) :
    ∃ substream, registry.substreams.find? (·.streamIndex = packet.streamIndex) = some substream
      ∧ encodeFrame substream packet = .ok bytes := by
  rw [encodePacket] at h
  cases hfind : registry.substreams.find? (·.streamIndex = packet.streamIndex) with
  | none =>
    rw [hfind] at h
    exact absurd h (by simp [outcome_throw_eq_ok])
  | some substream =>
    have hnone : (if packet.streamIndex = 0 then packet.values.toList else []) = [] := by
      rw [hvalues]
      split <;> rfl
    simp only [hfind, hnone, List.mapM_nil, outcome_bind_eq_ok, outcome_pure_eq_ok] at h
    obtain ⟨_, rfl, frame, hframe, rfl⟩ := h
    exact ⟨substream, rfl, hframe⟩

/-- The audio frame of a packet without values is read as a packet, where a header was
read that has the substream. -/
theorem leads_packet {packet : Packet} {substream : Substream} {bytes : Bytes}
    (hfind : registry.substreams.find? (·.streamIndex = packet.streamIndex) = some substream)
    (hknown : substream.id ∈ opened.substreams.map (·.id))
    (hencode : encodeFrame substream packet = .ok bytes) (hfits : bytes.length ≤ Obu.maxSize) :
    ∃ (obu : Obu.Complete) (read : Packet), bytes = obu.bytes
      ∧ obu.header.totalLength ≤ Obu.maxSize ∧ packet.FrameReadAs registry read
      ∧ (Request.packet packet).Leads config registry opened [obu] [read] := by
  obtain ⟨obu, rfl, hobu⟩ := encodeFrame_eq_ok hencode hfits
  -- The reader has a substream of this id, perhaps of another stream.
  obtain ⟨found, hfound⟩ : ∃ found, opened.substream? substream.id = some found := by
    rw [← Option.isSome_iff_exists, Registry.substream?, List.find?_isSome]
    obtain ⟨other, hother, hid⟩ := List.mem_map.1 hknown
    exact ⟨other, hother, by simpa using hid⟩
  let read : Packet := {
    streamIndex := found.streamIndex, substream := substream.id, data := packet.data,
    trim := packet.trim }
  have hmade : obu.IsMadeOf (Obu.Kind.ofSubstream read.substream) read.trim (frameBody read) :=
    hobu
  have hframe : Demuxer.isFrame obu.header.kind = true := by
    rw [hobu.kind]
    exact Reading.isFrame_ofSubstream _
  refine ⟨obu, read, rfl, hobu.size, ⟨by rw [hfind]; rfl, rfl, rfl, rfl⟩, ?_⟩
  intro phase reading packets hphase hheader
  have hat : reading.IsAt opened {} packets → (reading.step config obu).IsAt opened {}
      (packets ++ [read]) ∧ (reading.step config obu).opened = true := by
    intro hat
    refine ⟨hat.frame hframe (Reading.packet_eq hmade (hat.registry ▸ hfound) rfl hat.values), ?_⟩
    rw [Reading.opened_step hat.failure, Demuxer.endsDescriptors_of_isFrame hframe, Bool.or_true]
  cases phase with
  | silent => exact absurd rfl (hheader rfl)
  | described =>
    obtain ⟨hfresh, hregistry, rfl⟩ := hphase
    exact hat ⟨hfresh.failure, hregistry, hfresh.values, hfresh.packets, fun _ => hfresh.values⟩
  | playing => exact hat hphase.1
  | refused =>
    obtain ⟨hopened, hfailure⟩ := hphase
    rw [List.foldl_cons, List.foldl_nil, Reading.step, if_pos hfailure]
    exact ⟨hopened, hfailure⟩

/-- What a call that succeeds has written leads readings on as its request says. -/
theorem Request.exists_obus {descriptors : Descriptors registry}
    {request : Request} {muxer after : Muxer}
    (hheader : encodeHeader registry = .ok (descriptors.obus.flatMap (·.bytes)))
    (h : Registry.RegistersAll config.mode .empty descriptors.obus opened)
    (hregistry : muxer.registry = registry) (hrun : request.program muxer = .ok () after)
    (hpacket : ∀ packet ∈ request.packet?, packet.values = {} ∧ packet.Fits registry) :
    ∃ (obus : List Obu.Complete) (read : List Packet),
      after.registry = registry
        ∧ after.sink.written = muxer.sink.written ++ obus.flatMap (·.bytes)
        ∧ (∀ obu ∈ obus, obu.header.totalLength ≤ Obu.maxSize)
        ∧ List.Forall₂ (Packet.FrameReadAs registry) request.packet?.toList read
        ∧ request.Leads config registry opened obus read := by
  cases request with
  | header =>
    obtain ⟨written, hwritten, rfl⟩ := writeHeader_eq_ok hrun
    rw [hregistry] at hwritten
    cases hheader.symm.trans hwritten
    exact ⟨descriptors.obus, [], hregistry, rfl, fun obu hobu => (descriptors.of_mem hobu).2, .nil,
      leads_header h⟩
  | delimiter =>
    obtain ⟨obu, hobu, rfl⟩ := writeTemporalDelimiter_eq_ok hrun
    refine ⟨[obu], [], hregistry, by rw [List.flatMap_singleton]; rfl, ?_, .nil,
      leads_delimiter hobu.kind⟩
    simpa using hobu.size
  | packet packet =>
    obtain ⟨-, bytes, hencode, rfl⟩ := writePacket_eq_ok hrun
    obtain ⟨hvalues, hfits⟩ := hpacket packet rfl
    rw [hregistry] at hencode
    obtain ⟨substream, hfind, hframe⟩ := encodePacket_of_plain hvalues hencode
    have hmem : substream ∈ registry.substreams := List.mem_of_find?_eq_some hfind
    have hstream : substream.streamIndex = packet.streamIndex := by
      simpa using List.find?_some hfind
    have hknown : substream.id ∈ opened.substreams.map (·.id) := by
      rw [(descriptors.gains_empty h).substreams]
      exact List.mem_map_of_mem hmem
    obtain ⟨obu, read, rfl, hsize, hread, hleads⟩ :=
      leads_packet hfind hknown hframe (hfits.frame substream hmem hstream bytes hframe)
    refine ⟨[obu], [read], hregistry, by rw [List.flatMap_singleton]; rfl, ?_, .cons hread .nil,
      hleads⟩
    simpa using hsize

/-! ### Runs -/

/-- A muxer that has written no header writes no packet. -/
theorem Phase.follows (registry : Registry) {request : Request} {muxer after : Muxer}
    {phase : Phase} (h : phase = .silent → muxer.headerWritten = false)
    (hrun : request.program muxer = .ok () after) :
    (request.packet?.isSome = true → phase ≠ .silent)
      ∧ (phase.next registry request = .silent → after.headerWritten = false) := by
  cases request with
  | header =>
    refine ⟨nofun, fun hsilent => ?_⟩
    exact absurd hsilent (next_ne_silent (.inr rfl))
  | delimiter =>
    obtain ⟨obu, -, rfl⟩ := writeTemporalDelimiter_eq_ok hrun
    exact ⟨nofun, h⟩
  | packet packet =>
    obtain ⟨hheader, _, -, rfl⟩ := writePacket_eq_ok hrun
    have hphase : phase ≠ .silent := by
      intro hsilent
      rw [h hsilent] at hheader
      cases hheader
    refine ⟨fun _ => hphase, fun hsilent => ?_⟩
    exact absurd hsilent (next_ne_silent (.inl hphase))

/-- Operations that succeed in a row, from this muxer on, write OBUs that lead readings
on as the requests say. -/
def IsFollowed (config : DemuxerConfig) (registry opened : Registry) (start : Muxer)
    (done : List Request) : Prop :=
  start.registry = registry →
  (∀ packet ∈ done.filterMap Request.packet?, packet.values = {} ∧ packet.Fits registry) →
  ∃ (obus : List Obu.Complete) (read : List Packet),
    (Stateful.run Request.program start done).sink.written
        = start.sink.written ++ obus.flatMap (·.bytes)
      ∧ (∀ obu ∈ obus, obu.header.totalLength ≤ Obu.maxSize)
      ∧ List.Forall₂ (Packet.FrameReadAs registry) (done.filterMap Request.packet?) read
      ∧ ∀ phase reading packets, Phase.Describes opened packets reading phase →
        (phase = .silent → start.headerWritten = false) →
        (done.foldl (Phase.next registry) phase).Describes opened (packets ++ read)
          (obus.foldl (Reading.step config) reading)

/-- The calls of a run that succeed are followed. -/
theorem isFollowed_succeeding {descriptors : Descriptors registry}
    (hheader : encodeHeader registry = .ok (descriptors.obus.flatMap (·.bytes)))
    (h : Registry.RegistersAll config.mode .empty descriptors.obus opened)
    (start : Muxer) (requests : List Request) :
    IsFollowed config registry opened start
      (Stateful.succeeding Request.program start requests) := by
  refine Stateful.run_induction atomic_program ?_ ?_ start requests
  · intro state _ _
    refine ⟨[], [], (List.append_nil _).symm, by simp, .nil, ?_⟩
    intro phase reading packets hphase _
    rw [List.append_nil]
    exact hphase
  · intro state request after requests hrun ih hregistry hpackets
    have hsplit : (request :: requests).filterMap Request.packet?
        = request.packet?.toList ++ requests.filterMap Request.packet? := by
      cases request <;> rfl
    rw [hsplit] at hpackets ⊢
    obtain ⟨hnow, hlater⟩ := List.forall_mem_append.1 hpackets
    obtain ⟨obus, read, hafter, hwritten, hsize, hread, hleads⟩ :=
      Request.exists_obus hheader h hregistry hrun fun packet hmem =>
        hnow packet (Option.mem_toList.2 hmem)
    obtain ⟨others, more, hwrittenLater, hsizeLater, hreadLater, hleadsLater⟩ := ih hafter hlater
    refine ⟨obus ++ others, read ++ more, ?_, List.forall_mem_append.2 ⟨hsize, hsizeLater⟩,
      List.rel_append hread hreadLater, fun phase reading packets hphase hsilent => ?_⟩
    · have hleft : Stateful.left request.program state = after := by
        rw [Stateful.left, hrun]
      rw [Stateful.run, List.foldl_cons, hleft, ← Stateful.run, hwrittenLater, hwritten,
        List.flatMap_append, List.append_assoc]
    · obtain ⟨hallowed, hfollows⟩ := Phase.follows registry hsilent hrun
      rw [List.foldl_cons, List.foldl_append, ← List.append_assoc]
      exact hleadsLater _ _ _ (hleads phase reading packets hphase hallowed) hfollows

/-- What a demuxer makes of a stream that ends in a phase. -/
theorem Phase.Describes.session {phase : Phase} {packets : List Packet} {reading : Reading}
    (h : phase.Describes opened packets reading) (bytes : Bytes) :
    if phase = .refused then ∃ error, reading.session bytes = .refused error
    else reading.failure = none ∧ ∃ known,
      reading.session bytes = .played known packets {} none (bytes.drop reading.consumed)
        ∧ (phase ≠ .silent → known = opened) := by
  cases phase with
  | silent | described =>
    obtain ⟨hfresh, hregistry, hpackets⟩ := h
    rw [if_neg (by simp)]
    refine ⟨hfresh.failure, reading.registry, ?_, fun hphase => ?_⟩
    · simp only [Reading.session, hfresh.failure, hfresh.packets, hfresh.values, hpackets]
    · first | exact hregistry | exact absurd rfl hphase
  | playing =>
    obtain ⟨hat, -⟩ := h
    rw [if_neg (by simp)]
    refine ⟨hat.failure, reading.registry, ?_, fun _ => hat.registry⟩
    simp only [Reading.session, hat.failure, hat.packets, hat.values]
  | refused =>
    obtain ⟨hopened, hfailure⟩ := h
    obtain ⟨error, herror⟩ := Option.isSome_iff_exists.1 hfailure
    rw [if_pos rfl]
    exact ⟨error, by simp only [Reading.session, herror, hopened]⟩

/-- Calls of a muxer in any order and number, some of which may fail: if the header of its
registry can be opened, what the calls that succeed have written is read to the end, and
gives the audio frames of their packets. This is so unless there are two headers before
the first packet, and these declare a codec config or a presentation; then the stream
cannot be opened. -/
theorem session_of_run {config : DemuxerConfig} {sink : Sink} {registry : Registry}
    {header : Bytes} {demuxer : Demuxer} {requests done : List Request}
    (hmax : Obu.maxSize ≤ config.maxObuSize) (hheader : encodeHeader registry = .ok header)
    (hopened : Demuxer.ofBytes config header = .ok demuxer) (hempty : sink.written = [])
    (hdone : Stateful.succeeding Request.program { sink, registry } requests = done)
    (hpackets : ∀ packet ∈ done.filterMap Request.packet?,
      packet.values = {} ∧ packet.Fits registry) {input : Input}
    (hinput : input.rest
      = (Stateful.run Request.program { sink, registry } requests).sink.written)
    (hends : input.failure = none) :
    if registry.IsRepeatable ∨ openings done ≤ 1 then
      ∃ known read, Demuxer.session config input = .played known read {} none []
        ∧ List.Forall₂ (Packet.FrameReadAs registry) (done.filterMap Request.packet?) read
        ∧ (.header ∈ done → known = demuxer.registry)
    else ∃ error, Demuxer.session config input = .refused error := by
  obtain ⟨descriptors, rfl⟩ :=
    encodeHeader_eq_ok hheader (descriptorsFit_of_ofBytes hmax hheader hopened)
  have hall : Registry.RegistersAll config.mode .empty descriptors.obus demuxer.registry := by
    obtain ⟨hfresh, hregistry⟩ := descriptors.isFresh hmax hopened
    have hstart : ({} : Reading).IsFresh := ⟨rfl, rfl, rfl, rfl⟩
    obtain ⟨-, hclean⟩ := Reading.foldl_step_of_describes config
      (fun obu hobu => (descriptors.of_mem hobu).1) hstart
    exact hregistry ▸ (hclean hfresh.failure).2
  rw [← Stateful.run_succeeding atomic_program, hdone] at hinput
  have hfollowed := isFollowed_succeeding hheader hall { sink, registry } requests
  rw [hdone] at hfollowed
  obtain ⟨obus, read, hwritten, hsize, hread, hleads⟩ := hfollowed rfl hpackets
  rw [hwritten, hempty, List.nil_append] at hinput
  have hfinal := hleads .silent {} [] ⟨⟨rfl, rfl, rfl, rfl⟩, rfl, rfl⟩ fun _ => rfl
  rw [List.nil_append] at hfinal
  have hsession := Demuxer.session_eq_foldl config obus input hinput hends fun obu hobu =>
    Nat.le_trans (hsize obu hobu) hmax
  have hphase := hfinal.session input.rest
  rw [← hsession] at hphase
  by_cases hrefused : done.foldl (Phase.next registry) .silent = .refused
  · obtain ⟨hrepeatable, htwo⟩ := (Phase.foldl_next_eq_refused done).1 hrefused
    rw [if_pos hrefused] at hphase
    rw [if_neg (not_or.2 ⟨hrepeatable, Nat.not_le.2 htwo⟩)]
    exact hphase
  · rw [if_neg hrefused] at hphase
    rw [Phase.foldl_next_eq_refused, not_and_or, not_not, Nat.not_le, Nat.lt_succ_iff] at hrefused
    rw [if_pos hrefused]
    obtain ⟨hfailure, known, hplayed, hknown⟩ := hphase
    have hconsumed := Reading.consumed_foldl hfailure
    refine ⟨known, read, ?_, hread, fun hmem => hknown (Phase.foldl_next_ne_silent (.inr hmem))⟩
    rw [hplayed, hconsumed, ← hinput]
    simp

/-- A packet that brings no values. -/
def plainPacket : Packet :=
  { monoPacket with values := {} }

/-- Some calls that are not in the usual order. -/
def unorderedCalls : List Request :=
  [.packet plainPacket, .delimiter, .header, .packet plainPacket, .header, .delimiter,
    .packet plainPacket]

/-- The first packet comes too early and is not written. The second header comes late, and
is passed over. -/
theorem session_of_run_unordered :
    let done := [.delimiter, .header, .packet plainPacket, .header, .delimiter,
      .packet plainPacket]
    Stateful.succeeding Request.program { registry := monoRegistry } unorderedCalls = done
      ∧ ∀ input : Input, input.rest
          = (Stateful.run Request.program { registry := monoRegistry } unorderedCalls).sink.written
        → input.failure = none → ∃ known read, Demuxer.session {} input
            = .played known read {} none []
          ∧ List.Forall₂ (Packet.FrameReadAs monoRegistry) [plainPacket, plainPacket] read := by
  intro done
  have hdone : Stateful.succeeding Request.program { registry := monoRegistry } unorderedCalls
      = done := by decide +kernel
  have hopened : (Demuxer.ofBytes {} monoHeader).map (·.registry)
      = .ok { monoRegistry with sequenceHeader := some ⟨0, 0⟩ } := by decide +kernel
  obtain ⟨demuxer, hdemuxer, -⟩ := outcome_map_eq_ok.1 hopened
  have hplain : plainPacket.values = {} ∧ plainPacket.Fits monoRegistry := by
    refine ⟨rfl, fun substream hmem _ bytes hbytes => ?_, fun values hmem => ?_⟩
    · cases List.mem_singleton.1 hmem
      cases hbytes
      decide
    · cases hmem
  refine ⟨hdone, fun input hinput hends => ?_⟩
  have hsession := session_of_run (Nat.le_refl _) encodeHeader_mono hdemuxer rfl hdone
    (fun packet hmem => by
      have heq : plainPacket = packet := by simpa [done, Request.packet?] using hmem
      exact heq ▸ hplain) hinput hends
  rw [if_pos (.inr (by decide))] at hsession
  obtain ⟨known, read, hplayed, hread, -⟩ := hsession
  exact ⟨known, read, hplayed, hread⟩

/-- Two headers in a row. One is read to its end, but both of them cannot be opened, although
both calls have succeeded: the codec config is there twice. -/
theorem header_twice :
    let registry : Registry := { codecConfigs := [monoConfig] }
    let twice := Stateful.run Request.program { registry } [.header, .header]
    (encodeHeader registry >>= Demuxer.ofBytes {}).map
          (fun demuxer => (demuxer.registry, demuxer.items))
        = .ok ({ registry with sequenceHeader := some ⟨0, 0⟩ }, [])
      ∧ Stateful.succeeding Request.program { registry } [.header, .header] = [.header, .header]
      ∧ (Demuxer.ofBytes {} twice.sink.written).map (·.registry)
        = .error (.duplicateId .codecConfig 1) := by
  decide +kernel

end Muxer

end Iamf
