import Iamf.Proofs.Stream.Steps

/-!
# `Iamf.Proofs.Stream.Reading`: a demuxed stream is a fold over its OBUs

For a stream that is a list of complete OBUs there is a reading that knows
nothing of sources, lookahead and phases that hand over to each other.
`Reading.step` takes in one OBU; a stream is the left fold of the step. The
demuxer, which opens the stream and then gives packets until there is a failure
or nothing left, does the same.

* `Tracks`: a demuxer in the middle of a stream, and the reading that got as far.
* `packetStep_media`, `readDescriptors_descriptor`: one OBU keeps the two together.
* `readPackets_of_front`, `readDescriptors_of_front`: so do several, whatever is behind them.
* `readPackets_of_tracks`, `readDescriptors_of_tracks`: a whole phase does.
* `session_eq_foldl`: so does a whole stream.
-/

set_option autoImplicit false

namespace Iamf

/-! ### What a demuxer makes of a stream -/

/-- What came of reading packets to the end. -/
structure Demuxer.Played where
  /-- The packets, in order. -/
  packets : List Packet
  /-- The failure that put an end to it, if there was one. -/
  failure : Option Error
  /-- The demuxer afterwards. -/
  demuxer : Demuxer

/-- With packets that came before. -/
def Demuxer.Played.after (earlier : List Packet) (played : Played) : Played :=
  { played with packets := earlier ++ played.packets }

/-- Reads packets up to the first failure or the end of the input. -/
def Demuxer.readPackets (demuxer : Demuxer) : Played :=
  match _h : demuxer.readPacket with
  | .ok none after => { packets := [], failure := none, demuxer := after }
  | .ok (some packet) after => (readPackets after).after [packet]
  | .error error after => { packets := [], failure := some error, demuxer := after }
  termination_by demuxer.remaining
  decreasing_by exact readPacket_eq_ok _h

/-- What a demuxer made of a whole stream. -/
inductive Session where
  /-- The stream could not be opened. -/
  | refused (error : Error)
  /-- The stream was opened and read until there was a failure or nothing left. -/
  | played (registry : Registry) (packets : List Packet) (values : Snapshot)
      (failure : Option Error) (unread : Bytes)

/-- The session that an outcome of opening a stream leads to. -/
def Demuxer.sessionOf : Except Error Demuxer → Session
  | .error error => .refused error
  | .ok demuxer =>
    let played := demuxer.readPackets
    .played played.demuxer.registry played.packets played.demuxer.values played.failure
      played.demuxer.source.unread

/-- Opens a stream and reads its packets. -/
def Demuxer.session (config : DemuxerConfig) (input : Input) : Session :=
  sessionOf (ofInput config input)

/-! ### Reading OBU by OBU -/

/-- How far the reading of a list of OBUs is. -/
structure Reading where
  /-- The descriptors. -/
  registry : Registry := .empty
  /-- Whether a parameter block or an audio frame has been reached. -/
  opened : Bool := false
  /-- The values since the last temporal delimiter. -/
  values : Snapshot := {}
  /-- The packets so far. -/
  packets : List Packet := []
  /-- How many bytes the OBUs took in all. -/
  consumed : Nat := 0
  /-- What put an end to the reading. -/
  failure : Option Error := none

namespace Reading

/-- The substream id of an audio frame and the coded frame. The id is implied by
the kind, or is the number at the start of the body. -/
def frameOf (kind : Obu.Kind) (body : Bytes) : Except Error (UInt32 × Bytes) :=
  match kind with
  | .impliedFrame substream => .ok (substream.toUInt32, body)
  | _ =>
    match Leb128.readSized.parse "audio frame" body with
    | .ok (id, size) => .ok (id, body.drop size)
    | .error error => .error error

/-- The packet of an audio frame. -/
def packet (reading : Reading) (obu : Obu.Complete) : Except Error Packet :=
  match frameOf obu.header.kind obu.body with
  | .error error => .error error
  | .ok (id, data) =>
    match reading.registry.substream? id with
    | none => .error (.unknownReference .substream id)
    | some substream =>
      .ok { streamIndex := substream.streamIndex, substream := id, data,
            trim := obu.header.trim, values := reading.values }

/-- An OBU before the first parameter block or audio frame. -/
def descriptor (config : DemuxerConfig) (reading : Reading) (obu : Obu.Complete) : Reading :=
  match obu.header.kind with
  | .sequenceHeader | .codecConfig | .audioElement | .mixPresentation =>
    match Registry.parseDescriptor config.mode obu.header.kind obu.body reading.registry with
    | .ok _ registry => { reading with registry }
    | .error error registry => { reading with registry, failure := some error }
  | _ => reading

/-- An OBU from the first parameter block or audio frame on. -/
def media (config : DemuxerConfig) (reading : Reading) (obu : Obu.Complete) : Reading :=
  match obu.header.kind with
  | .temporalDelimiter => { reading with values := {} }
  | .parameterBlock =>
    match Parameter.parseBlock config.mode reading.registry obu.body with
    | .ok (some values) => { reading with values := reading.values.update values }
    | .ok none => reading
    | .error error => { reading with failure := some error }
  | .audioFrame | .impliedFrame _ =>
    match reading.packet obu with
    | .ok packet => { reading with packets := reading.packets ++ [packet] }
    | .error error => { reading with failure := some error }
  | _ => reading

/-- Takes in one OBU, unless the reading has come to an end. -/
def step (config : DemuxerConfig) (reading : Reading) (obu : Obu.Complete) : Reading :=
  if reading.failure.isSome then reading
  else
    let reached := { reading with
      opened := reading.opened || Demuxer.endsDescriptors obu.header.kind
      consumed := reading.consumed + obu.bytes.length }
    if reached.opened then reached.media config obu else reached.descriptor config obu

/-- The whole of a stream of the given bytes. -/
def session (reading : Reading) (bytes : Bytes) : Session :=
  match reading.failure, reading.opened with
  | some error, false => .refused error
  | failure, _ =>
    .played reading.registry reading.packets reading.values failure
      (bytes.drop reading.consumed)

variable {config : DemuxerConfig} {reading : Reading} {obu : Obu.Complete}

theorem foldl_step_of_failed (h : reading.failure.isSome = true) (obus : List Obu.Complete) :
    obus.foldl (step config) reading = reading := by
  induction obus with
  | nil => rfl
  | cons obu obus ih => rw [List.foldl_cons, step, if_pos h, ih]

theorem step_of_opened (hfailure : reading.failure = none) (hopened : reading.opened = true) :
    step config reading obu
      = media config { reading with consumed := reading.consumed + obu.bytes.length } obu := by
  simp [step, hfailure, hopened]

/-- The OBU that ends the descriptors is read as if they had ended before. -/
theorem step_of_ends (hfailure : reading.failure = none)
    (hends : Demuxer.endsDescriptors obu.header.kind = true) :
    step config reading obu = step config { reading with opened := true } obu := by
  simp [step, hfailure, hends]

theorem step_of_descriptor (hfailure : reading.failure = none)
    (hopened : reading.opened = false)
    (hends : Demuxer.endsDescriptors obu.header.kind = false) :
    step config reading obu
      = descriptor config { reading with
          consumed := reading.consumed + obu.bytes.length } obu := by
  simp [step, hfailure, hopened, hends]

theorem media_of_frame (hkind : Demuxer.isFrame obu.header.kind = true) :
    media config reading obu
      = match reading.packet obu with
        | .ok packet => { reading with packets := reading.packets ++ [packet] }
        | .error error => { reading with failure := some error } := by
  cases hcode : obu.header.kind <;> simp only [hcode, Demuxer.isFrame, media] at hkind ⊢
  all_goals cases hkind

theorem media_of_ignored (hkind : Demuxer.isIgnored obu.header.kind = true) :
    media config reading obu = reading := by
  cases hcode : obu.header.kind <;> simp only [hcode, Demuxer.isIgnored, media] at hkind ⊢
  all_goals cases hkind

theorem media_same (config : DemuxerConfig) (reading : Reading) (obu : Obu.Complete) :
    (media config reading obu).consumed = reading.consumed
      ∧ (media config reading obu).opened = reading.opened := by
  simp only [media]
  split
  case h_2 =>
    rcases Parameter.parseBlock config.mode reading.registry obu.body
      with error | (_ | values) <;> exact ⟨rfl, rfl⟩
  case h_3 | h_4 => cases reading.packet obu <;> exact ⟨rfl, rfl⟩
  all_goals exact ⟨rfl, rfl⟩

/-- A reading among the descriptors. -/
structure IsFresh (reading : Reading) : Prop where
  failure : reading.failure = none
  opened : reading.opened = false
  values : reading.values = {}
  packets : reading.packets = []

theorem descriptor_same (config : DemuxerConfig) (reading : Reading) (obu : Obu.Complete) :
    ∃ registry failure, descriptor config reading obu = { reading with registry, failure } := by
  simp only [descriptor]
  split
  case h_5 => exact ⟨_, _, rfl⟩
  all_goals
    rcases Registry.parseDescriptor config.mode obu.header.kind obu.body reading.registry
      with ⟨⟨⟩, registry⟩ | ⟨error, registry⟩ <;> exact ⟨_, _, rfl⟩

/-- An OBU that was taken in was consumed whole. -/
theorem consumed_step (h : reading.failure = none) :
    (step config reading obu).consumed = reading.consumed + obu.bytes.length := by
  simp only [step, h]
  split
  · contradiction
  · split
    · exact (media_same config _ obu).1
    · obtain ⟨_, _, hsame⟩ := descriptor_same config { reading with
        opened := reading.opened || Demuxer.endsDescriptors obu.header.kind
        consumed := reading.consumed + obu.bytes.length
        failure := none } obu
      rw [hsame]

/-- A reading without a failure has consumed all OBUs. -/
theorem consumed_foldl {obus : List Obu.Complete}
    (h : (obus.foldl (step config) reading).failure = none) :
    (obus.foldl (step config) reading).consumed
      = reading.consumed + (obus.flatMap (·.bytes)).length := by
  induction obus generalizing reading with
  | nil => rfl
  | cons obu obus ih =>
    cases hfailure : reading.failure with
    | some error =>
      rw [foldl_step_of_failed (by rw [hfailure]; rfl), hfailure] at h
      cases h
    | none =>
      rw [List.foldl_cons] at h ⊢
      rw [ih h, consumed_step hfailure, List.flatMap_cons, List.length_append, Nat.add_assoc]

end Reading

/-! ### Audio frames -/

theorem Demuxer.splitFrame_eq (kind : Obu.Kind) (body : Bytes) :
    splitFrame kind body = Reading.frameOf kind body := by
  -- Reading the id and then all that remains is dropping the bytes of the id.
  have hexplicit : Read.parse (do
        let substream ← Leb128.read
        let data ← Read.remaining
        return (substream, data)) "audio frame" body
      = match Leb128.readSized.parse "audio frame" body with
        | .ok (id, size) => .ok (id, body.drop size)
        | .error error => .error error := by
    simp only [Read.parse, Leb128.read, Functor.map, StateT.map, bind, StateT.bind, Except.bind]
    cases hread : Leb128.readSized (Reader.ofBytes "audio frame" body) with
    | error error => rfl
    | ok result =>
      obtain ⟨⟨id, size⟩, after⟩ := result
      obtain ⟨front, rest, rfl, rfl, -, rfl⟩ := Leb128.readSized_eq_ok hread
      simp only [List.drop_left]
      rfl
  cases kind <;> first | rfl | exact hexplicit

namespace Demuxer

variable {config : DemuxerConfig} {demuxer : Demuxer} {reading : Reading}
  {obu : Obu.Complete} {rest : Bytes}

/-- A demuxer in the middle of a stream, with these bytes to come, and the
reading that got as far. -/
structure Tracks (config : DemuxerConfig) (demuxer : Demuxer) (reading : Reading)
    (rest : Bytes) : Prop where
  awaits : demuxer.source.Awaits rest
  config : demuxer.config = config
  registry : demuxer.registry = reading.registry
  values : demuxer.values = reading.values

/-- A demuxer and a reading that have yet to start. -/
theorem tracks_start (config : DemuxerConfig) {input : Input} {bytes : Bytes}
    (hbytes : input.rest = bytes) (hends : input.failure = none) :
    Tracks config { source := { input }, config } {} bytes :=
  ⟨⟨hbytes, hends, fun hnever => absurd hnever Bool.false_ne_true, Nat.zero_le _⟩, rfl, rfl,
    rfl⟩

theorem packetOf_eq (h : Tracks config demuxer reading rest) (obu : Obu.Complete) :
    demuxer.packetOf obu.header obu.body = reading.packet obu := by
  simp only [packetOf, Reading.packet, splitFrame_eq, h.registry, h.values]
  rcases Reading.frameOf obu.header.kind obu.body with error | ⟨id, data⟩
  · rfl
  · cases hfind : reading.registry.substream? id <;> simp only [bind, Except.bind, hfind] <;> rfl

/-! ### The second phase -/

theorem readPackets_of_readPacket (demuxer : Demuxer) :
    demuxer.readPackets
      = match demuxer.readPacket with
        | .ok none after => { packets := [], failure := none, demuxer := after }
        | .ok (some packet) after => after.readPackets.after [packet]
        | .error error after => { packets := [], failure := some error, demuxer := after } := by
  rw [readPackets]
  split <;> simp_all

theorem readPacket_eq (demuxer : Demuxer) :
    demuxer.readPacket
      = match packetStep demuxer with
        | .ok .ended after => .ok none after
        | .ok (.packet packet) after => .ok (some packet) after
        | .ok .passed after => after.readPacket
        | .error error after => .error error after := by
  rw [readPacket]
  split <;> simp_all

/-- Reading packets one OBU at a time. -/
theorem readPackets_eq (demuxer : Demuxer) :
    demuxer.readPackets
      = match packetStep demuxer with
        | .ok .ended after => { packets := [], failure := none, demuxer := after }
        | .ok (.packet packet) after => after.readPackets.after [packet]
        | .ok .passed after => after.readPackets
        | .error error after => { packets := [], failure := some error, demuxer := after } := by
  rw [readPackets_of_readPacket, readPacket_eq]
  rcases packetStep demuxer with ⟨_ | packet | _, after⟩ | ⟨error, after⟩
  case ok.passed => exact (readPackets_of_readPacket after).symm
  all_goals rfl

/-- What a step of the second phase came to, told by what its OBU did to a reading:
a frame adds a packet, other OBUs add nothing, and an OBU that fails leaves the
packets alone. -/
inductive Handled (isFrame : Bool) (before reading : Reading) (demuxer : Demuxer) :
    EStateM.Result Error Demuxer PacketStep → Prop where
  | packet (packet : Packet) (frame : isFrame = true) (clean : reading.failure = none)
      (gained : reading.packets = before.packets ++ [packet]) :
      Handled isFrame before reading demuxer (.ok (.packet packet) demuxer)
  | passed (other : isFrame = false) (clean : reading.failure = none)
      (same : reading.packets = before.packets) :
      Handled isFrame before reading demuxer (.ok .passed demuxer)
  | failed (error : Error) (failure : reading.failure = some error)
      (same : reading.packets = before.packets) :
      Handled isFrame before reading demuxer (.error error demuxer)

/-- What an OBU of the second phase does to a demuxer is what it does to the
reading. -/
theorem packetStep_media (h : Tracks config demuxer reading (obu.bytes ++ rest))
    (hsize : obu.header.totalLength ≤ config.maxObuSize) (hfailure : reading.failure = none) :
    ∃ after, Tracks config after (reading.media config obu) rest
      ∧ Handled (isFrame obu.header.kind) reading (reading.media config obu) after
        (packetStep demuxer) := by
  have hfits : obu.header.totalLength ≤ demuxer.config.maxObuSize := h.config ▸ hsize
  -- One case for each way in which the second phase treats an OBU.
  cases hkind : obu.header.kind
  case audioFrame | impliedFrame =>
    have hframe : isFrame obu.header.kind = true := by
      rw [hkind]
      rfl
    obtain ⟨source, hsource, hstep⟩ := packetStep_frame h.awaits hfits hframe
    rw [hstep, packetOf_eq h, Reading.media_of_frame hframe]
    refine ⟨{ demuxer with source }, ?_⟩
    cases reading.packet obu with
    | error error =>
      exact ⟨⟨hsource, h.config, h.registry, h.values⟩, .failed error rfl rfl⟩
    | ok packet =>
      exact ⟨⟨hsource, h.config, h.registry, h.values⟩, .packet packet rfl hfailure rfl⟩
  case parameterBlock =>
    obtain ⟨source, hsource, hstep⟩ := packetStep_block h.awaits hfits hkind
    have hparse : Parameter.parseBlock demuxer.config.mode demuxer.registry obu.body
        = Parameter.parseBlock config.mode reading.registry obu.body := by
      rw [h.config, h.registry]
    simp only [hstep, Reading.media, hkind, hparse]
    rcases Parameter.parseBlock config.mode reading.registry obu.body
      with error | (_ | values)
    · exact ⟨{ demuxer with source }, ⟨hsource, h.config, h.registry, h.values⟩,
        .failed error rfl rfl⟩
    · exact ⟨{ demuxer with source }, ⟨hsource, h.config, h.registry, h.values⟩,
        .passed rfl hfailure rfl⟩
    · exact ⟨{ demuxer with source, values := demuxer.values.update values },
        ⟨hsource, h.config, h.registry, congrArg (Snapshot.update · values) h.values⟩,
        .passed rfl hfailure rfl⟩
  case temporalDelimiter =>
    obtain ⟨source, hsource, hstep⟩ := packetStep_delimiter h.awaits hfits hkind
    simp only [hstep, Reading.media, hkind]
    exact ⟨{ demuxer with source, values := {} }, ⟨hsource, h.config, h.registry, rfl⟩,
      .passed rfl hfailure rfl⟩
  all_goals
    have hignored : isIgnored obu.header.kind = true := by
      rw [hkind]
      rfl
    obtain ⟨source, hsource, hstep⟩ := packetStep_ignored h.awaits hfits hignored
    rw [hstep, Reading.media_of_ignored hignored]
    exact ⟨{ demuxer with source }, ⟨hsource, h.config, h.registry, h.values⟩,
      .passed rfl hfailure rfl⟩

theorem readPackets_media (h : Tracks config demuxer reading (obu.bytes ++ rest))
    (hsize : obu.header.totalLength ≤ config.maxObuSize) (hfailure : reading.failure = none) :
    ∃ after packets, Tracks config after (reading.media config obu) rest
      ∧ (reading.media config obu).packets = reading.packets ++ packets
      ∧ demuxer.readPackets
        = match (reading.media config obu).failure with
          | some error => { packets, failure := some error, demuxer := after }
          | none => after.readPackets.after packets := by
  obtain ⟨after, hafter, hhandled⟩ := packetStep_media h hsize hfailure
  rw [readPackets_eq]
  revert hhandled
  generalize packetStep demuxer = result
  rintro (⟨packet, -, hclean, hgained⟩ | ⟨-, hclean, hsame⟩ | ⟨error, hended, hsame⟩)
  · exact ⟨after, [packet], hafter, hgained, by rw [hclean]⟩
  · exact ⟨after, [], hafter, by rw [hsame, List.append_nil], by rw [hclean]; rfl⟩
  · exact ⟨after, [], hafter, by rw [hsame, List.append_nil], by rw [hended]⟩

/-- What came of reading packets is what a reading gained from one point to
another, on these bytes. -/
structure Played.Agrees (played : Played) (start final : Reading) (bytes : Bytes) : Prop where
  packets : final.packets = start.packets ++ played.packets
  failure : final.failure = played.failure
  registry : played.demuxer.registry = final.registry
  values : played.demuxer.values = final.values
  opened : final.opened = start.opened
  unread : ∃ used, final.consumed = start.consumed + used
    ∧ played.demuxer.source.unread = bytes.drop used

/-- The session of a reading that gained this after the descriptors. -/
theorem Played.Agrees.session_eq {played : Played} {start final : Reading}
    {front bytes : Bytes} (h : played.Agrees start final bytes) (hopened : start.opened = true)
    (hpackets : start.packets = []) (hconsumed : start.consumed = front.length) :
    final.session (front ++ bytes)
      = .played played.demuxer.registry played.packets played.demuxer.values played.failure
          played.demuxer.source.unread := by
  obtain ⟨used, hused, hunread⟩ := h.unread
  have hfinal : final.opened = true := h.opened.trans hopened
  have hgained : final.packets = played.packets := by
    rw [h.packets, hpackets, List.nil_append]
  have hleft : (front ++ bytes).drop final.consumed = bytes.drop used := by
    rw [hused, hconsumed, ← List.drop_drop, List.drop_left]
  rw [h.registry, h.values, hunread, ← h.failure]
  simp only [Reading.session, hfinal, hgained, hleft]
  cases final.failure <;> rfl

/-- What whole OBUs do to a demuxer in the second phase is what they do to the
reading, whatever is behind them. One that fails is the last that is used. -/
theorem readPackets_of_front {obus : List Obu.Complete}
    (h : Tracks config demuxer reading (obus.flatMap (·.bytes) ++ rest))
    (hsize : ∀ obu ∈ obus, obu.header.totalLength ≤ config.maxObuSize)
    (hfailure : reading.failure = none) (hopened : reading.opened = true) :
    ∃ after packets used,
      Tracks config after (obus.foldl (Reading.step config) reading)
          ((obus.flatMap (·.bytes) ++ rest).drop used)
      ∧ ((obus.foldl (Reading.step config) reading).failure = none →
          used = (obus.flatMap (·.bytes)).length)
      ∧ (obus.foldl (Reading.step config) reading).consumed = reading.consumed + used
      ∧ (obus.foldl (Reading.step config) reading).opened = true
      ∧ (obus.foldl (Reading.step config) reading).packets = reading.packets ++ packets
      ∧ demuxer.readPackets
        = match (obus.foldl (Reading.step config) reading).failure with
          | some error => { packets, failure := some error, demuxer := after }
          | none => after.readPackets.after packets := by
  induction obus generalizing demuxer reading with
  | nil =>
    refine ⟨demuxer, [], 0, h, fun _ => rfl, rfl, hopened, (List.append_nil _).symm, ?_⟩
    rw [List.foldl_nil, hfailure]
    rfl
  | cons obu obus ih =>
    -- The step counts the bytes before it looks at the kind of the OBU.
    rw [List.flatMap_cons, List.append_assoc] at h ⊢
    rw [List.foldl_cons, Reading.step_of_opened hfailure hopened]
    set reached := { reading with consumed := reading.consumed + obu.bytes.length }
    have htracks : Tracks config demuxer reached
        (obu.bytes ++ (obus.flatMap (·.bytes) ++ rest)) :=
      ⟨h.awaits, h.config, h.registry, h.values⟩
    obtain ⟨after, packets, hafter, hpackets, hread⟩ :=
      readPackets_media htracks (hsize obu List.mem_cons_self) hfailure
    obtain ⟨hconsumed, hsame⟩ := Reading.media_same config reached obu
    cases hended : (reached.media config obu).failure with
    | some error =>
      rw [Reading.foldl_step_of_failed (by rw [hended]; rfl)]
      rw [hended] at hread ⊢
      exact ⟨after, packets, obu.bytes.length, by rwa [List.drop_left],
        fun hnone => (by cases hnone), hconsumed, hsame.trans hopened, hpackets, hread⟩
    | none =>
      rw [hended] at hread
      obtain ⟨last, others, used, hlast, hwhole, hused, hstill, hothers, hrest⟩ := ih hafter
        (fun other hother => hsize other (List.mem_cons_of_mem _ hother)) hended
        (hsame.trans hopened)
      refine ⟨last, packets ++ others, obu.bytes.length + used, ?_, fun hnone => ?_, ?_,
        hstill, ?_, ?_⟩
      · rwa [← List.drop_drop, List.drop_left]
      · rw [hwhole hnone, List.length_append]
      · rw [hused, hconsumed, Nat.add_assoc]
      · rw [hothers, hpackets, List.append_assoc]
      · show demuxer.readPackets = _
        rw [hread, hrest]
        cases (obus.foldl (Reading.step config) (reached.media config obu)).failure with
        | some error => rfl
        | none => simp only [Played.after, List.append_assoc]

/-- Reading packets is the fold of the step over the OBUs to come. -/
theorem readPackets_of_tracks {obus : List Obu.Complete}
    (h : Tracks config demuxer reading (obus.flatMap (·.bytes)))
    (hsize : ∀ obu ∈ obus, obu.header.totalLength ≤ config.maxObuSize)
    (hfailure : reading.failure = none) (hopened : reading.opened = true) :
    demuxer.readPackets.Agrees reading (obus.foldl (Reading.step config) reading)
      (obus.flatMap (·.bytes)) := by
  rw [← List.append_nil (obus.flatMap (·.bytes))] at h
  obtain ⟨after, packets, used, hafter, hwhole, hused, hstill, hpackets, hread⟩ :=
    readPackets_of_front h hsize hfailure hopened
  rw [List.append_nil] at hafter
  cases hended : (obus.foldl (Reading.step config) reading).failure with
  | some error =>
    rw [hended] at hread
    rw [hread]
    exact ⟨hpackets, hended, hafter.registry, hafter.values, hstill.trans hopened.symm, used,
      hused, hafter.awaits.unread⟩
  | none =>
    -- All OBUs have been used, so the demuxer meets the end of the input.
    rw [hwhole hended, List.drop_length] at hafter
    obtain ⟨source, hsource, hstep⟩ := packetStep_end hafter.awaits
    rw [hended, readPackets_eq after, hstep] at hread
    rw [hread]
    refine ⟨?_, hended, hafter.registry, hafter.values, hstill.trans hopened.symm, used, hused, ?_⟩
    · rw [hpackets, Played.after, List.append_nil]
    · rw [hwhole hended, List.drop_length]
      exact hsource.unread

/-! ### The first phase -/

theorem readDescriptors_eq (demuxer : Demuxer) :
    demuxer.readDescriptors
      = match descriptorStep demuxer with
        | .ok true after => after.readDescriptors
        | .ok false after => .ok after
        | .error error _ => .error error := by
  rw [readDescriptors]
  split <;> simp_all

/-- What an OBU of the first phase does to a demuxer is what it does to the
reading. There are no values yet. -/
theorem readDescriptors_descriptor (h : Tracks config demuxer reading (obu.bytes ++ rest))
    (hsize : obu.header.totalLength ≤ config.maxObuSize) (hfailure : reading.failure = none)
    (hvalues : reading.values = {}) (hends : endsDescriptors obu.header.kind = false) :
    ∃ after, Tracks config after (reading.descriptor config obu) rest
      ∧ demuxer.readDescriptors
        = match (reading.descriptor config obu).failure with
          | some error => .error error
          | none => after.readDescriptors := by
  have hfits : obu.header.totalLength ≤ demuxer.config.maxObuSize := h.config ▸ hsize
  rw [readDescriptors_eq]
  cases hkind : obu.header.kind
  -- These kinds end the first phase.
  case parameterBlock | audioFrame | impliedFrame =>
    rw [hkind] at hends
    cases hends
  case temporalDelimiter =>
    obtain ⟨source, hsource, hstep⟩ := descriptorStep_delimiter h.awaits hfits hkind
    simp only [hstep, Reading.descriptor, hkind, hfailure]
    exact ⟨{ demuxer with source, values := {} },
      ⟨hsource, h.config, h.registry, hvalues.symm⟩, rfl⟩
  case reserved =>
    obtain ⟨source, hsource, hstep⟩ := descriptorStep_reserved h.awaits hfits hkind
    simp only [hstep, Reading.descriptor, hkind, hfailure]
    exact ⟨{ demuxer with source }, ⟨hsource, h.config, h.registry, h.values⟩, rfl⟩
  all_goals
    obtain ⟨source, hsource, hstep⟩ :=
      descriptorStep_register h.awaits hfits (by rw [hkind]; rfl)
    have hparse : Registry.parseDescriptor demuxer.config.mode obu.header.kind obu.body
          demuxer.registry
        = Registry.parseDescriptor config.mode obu.header.kind obu.body reading.registry := by
      rw [h.config, h.registry]
    rw [hkind] at hparse hstep
    simp only [hstep, Reading.descriptor, hkind, hparse]
    rcases Registry.parseDescriptor config.mode _ obu.body reading.registry
      with ⟨⟨⟩, registry⟩ | ⟨error, registry⟩
    · simp only [hfailure]
      exact ⟨{ demuxer with source, registry }, ⟨hsource, h.config, rfl, h.values⟩, rfl⟩
    · exact ⟨{ demuxer with source, registry }, ⟨hsource, h.config, rfl, h.values⟩, rfl⟩

/-- What descriptors do to a demuxer in the first phase is what they do to the
reading, whatever is behind them. -/
theorem readDescriptors_of_front {obus : List Obu.Complete}
    (h : Tracks config demuxer reading (obus.flatMap (·.bytes) ++ rest))
    (hsize : ∀ obu ∈ obus, obu.header.totalLength ≤ config.maxObuSize)
    (hdescribes : ∀ obu ∈ obus, endsDescriptors obu.header.kind = false)
    (hfresh : reading.IsFresh) :
    ∃ after,
      ((obus.foldl (Reading.step config) reading).failure = none →
        (obus.foldl (Reading.step config) reading).IsFresh
          ∧ Tracks config after (obus.foldl (Reading.step config) reading) rest
          ∧ (obus.foldl (Reading.step config) reading).consumed
            = reading.consumed + (obus.flatMap (·.bytes)).length)
      ∧ (obus.foldl (Reading.step config) reading).opened = false
      ∧ demuxer.readDescriptors
        = match (obus.foldl (Reading.step config) reading).failure with
          | some error => .error error
          | none => after.readDescriptors := by
  induction obus generalizing demuxer reading with
  | nil =>
    refine ⟨demuxer, fun _ => ⟨hfresh, h, rfl⟩, hfresh.opened, ?_⟩
    rw [List.foldl_nil, hfresh.failure]
  | cons obu obus ih =>
    obtain ⟨hends, hothers⟩ := List.forall_mem_cons.1 hdescribes
    rw [List.flatMap_cons, List.append_assoc] at h
    rw [List.foldl_cons, Reading.step_of_descriptor hfresh.failure hfresh.opened hends]
    set reached := { reading with consumed := reading.consumed + obu.bytes.length }
    have htracks : Tracks config demuxer reached
        (obu.bytes ++ (obus.flatMap (·.bytes) ++ rest)) :=
      ⟨h.awaits, h.config, h.registry, h.values⟩
    obtain ⟨after, hafter, hread⟩ := readDescriptors_descriptor htracks
      (hsize obu List.mem_cons_self) hfresh.failure hfresh.values hends
    -- Only the registry and the failure have changed, so the reading is as fresh as it was.
    obtain ⟨registry, failure, hsame⟩ := Reading.descriptor_same config reached obu
    rw [hsame] at hafter hread ⊢
    cases failure with
    | some error =>
      rw [Reading.foldl_step_of_failed rfl]
      exact ⟨after, fun hnone => (by cases hnone), hfresh.opened, hread⟩
    | none =>
      obtain ⟨last, hlast, hstill, hrest⟩ := ih hafter
        (fun other hother => hsize other (List.mem_cons_of_mem _ hother)) hothers
        ⟨rfl, hfresh.opened, hfresh.values, hfresh.packets⟩
      refine ⟨last, fun hnone => ?_, hstill, hread.trans hrest⟩
      obtain ⟨hfinal, htracked, hconsumed⟩ := hlast hnone
      refine ⟨hfinal, htracked, hconsumed.trans ?_⟩
      rw [List.flatMap_cons, List.length_append, ← Nat.add_assoc]

/-- A stream of OBUs is descriptors, and OBUs from the one on that ends them. -/
theorem exists_descriptors (obus : List Obu.Complete) :
    ∃ front back, obus = front ++ back
      ∧ (∀ obu ∈ front, endsDescriptors obu.header.kind = false)
      ∧ ∀ obu ∈ back.head?, endsDescriptors obu.header.kind = true := by
  induction obus with
  | nil => exact ⟨[], [], rfl, by simp, by simp⟩
  | cons obu obus ih =>
    cases hends : endsDescriptors obu.header.kind with
    | true => exact ⟨[], obu :: obus, rfl, by simp, by simpa using hends⟩
    | false =>
      obtain ⟨front, back, rfl, hfront, hback⟩ := ih
      exact ⟨obu :: front, back, rfl, List.forall_mem_cons.2 ⟨hends, hfront⟩, hback⟩

/-- Descriptors that can be read are read, and the first phase ends in front of what
ends them, the end of the input or an OBU. -/
theorem readDescriptors_of_clean {front back : List Obu.Complete}
    (h : Tracks config demuxer reading ((front ++ back).flatMap (·.bytes)))
    (hsize : ∀ obu ∈ front ++ back, obu.header.totalLength ≤ config.maxObuSize)
    (hfront : ∀ obu ∈ front, endsDescriptors obu.header.kind = false)
    (hback : ∀ obu ∈ back.head?, endsDescriptors obu.header.kind = true)
    (hfresh : reading.IsFresh)
    (hclean : (front.foldl (Reading.step config) reading).failure = none) :
    ∃ opened, demuxer.readDescriptors = .ok opened
      ∧ (front.foldl (Reading.step config) reading).IsFresh
      ∧ Tracks config opened (front.foldl (Reading.step config) reading)
          (back.flatMap (·.bytes))
      ∧ (front.foldl (Reading.step config) reading).consumed
          = reading.consumed + (front.flatMap (·.bytes)).length := by
  rw [List.flatMap_append] at h
  obtain ⟨after, hafter, -, hread⟩ := readDescriptors_of_front h
    (fun obu hmem => hsize obu (List.mem_append_left _ hmem)) hfront hfresh
  obtain ⟨hstill, htracks, hconsumed⟩ := hafter hclean
  -- What ends the first phase is not consumed.
  have hstop : ∃ source, source.Awaits (back.flatMap (·.bytes))
      ∧ descriptorStep after = .ok false { after with source } := by
    cases back with
    | nil => exact descriptorStep_end htracks.awaits
    | cons obu back =>
      exact descriptorStep_stop htracks.awaits
        (htracks.config ▸ hsize obu (by simp)) (hback obu rfl)
  obtain ⟨source, hsource, hstep⟩ := hstop
  rw [hclean] at hread
  rw [hread, readDescriptors_eq, hstep]
  exact ⟨{ after with source }, rfl, hstill,
    ⟨hsource, htracks.config, htracks.registry, htracks.values⟩, hconsumed⟩

/-- Reading the descriptors is the fold of the step over the OBUs up to the one
that ends them, which is still to come. -/
theorem readDescriptors_of_tracks {obus : List Obu.Complete}
    (h : Tracks config demuxer reading (obus.flatMap (·.bytes)))
    (hsize : ∀ obu ∈ obus, obu.header.totalLength ≤ config.maxObuSize)
    (hfresh : reading.IsFresh) :
    match demuxer.readDescriptors with
    | .error error => (obus.foldl (Reading.step config) reading).failure = some error
        ∧ (obus.foldl (Reading.step config) reading).opened = false
    | .ok opened => ∃ front back, obus = front ++ back
        ∧ (front.foldl (Reading.step config) reading).IsFresh
        ∧ Tracks config opened (front.foldl (Reading.step config) reading)
            (back.flatMap (·.bytes))
        ∧ (front.foldl (Reading.step config) reading).consumed
            = reading.consumed + (front.flatMap (·.bytes)).length
        ∧ ∀ obu ∈ back.head?, endsDescriptors obu.header.kind = true := by
  obtain ⟨front, back, rfl, hfront, hback⟩ := exists_descriptors obus
  cases hended : (front.foldl (Reading.step config) reading).failure with
  | some error =>
    rw [List.flatMap_append] at h
    obtain ⟨after, -, hunopened, hread⟩ := readDescriptors_of_front h
      (fun obu hmem => hsize obu (List.mem_append_left _ hmem)) hfront hfresh
    rw [hended] at hread
    rw [hread, List.foldl_append, Reading.foldl_step_of_failed (by rw [hended]; rfl)]
    exact ⟨hended, hunopened⟩
  | none =>
    obtain ⟨opened, hread, hstill, htracks, hconsumed⟩ :=
      readDescriptors_of_clean h hsize hfront hback hfresh hended
    rw [hread]
    exact ⟨front, back, rfl, hstill, htracks, hconsumed, hback⟩

/-- Where no OBU ends the descriptors, all of them are read when a stream is
opened. -/
theorem ofInput_of_descriptors (config : DemuxerConfig) (input : Input)
    {obus : List Obu.Complete} (hbytes : input.rest = obus.flatMap (·.bytes))
    (hends : input.failure = none)
    (hsize : ∀ obu ∈ obus, obu.header.totalLength ≤ config.maxObuSize)
    (hdescribes : ∀ obu ∈ obus, endsDescriptors obu.header.kind = false) :
    match ofInput config input with
    | .error error => (obus.foldl (Reading.step config) {}).failure = some error
    | .ok opened => (obus.foldl (Reading.step config) {}).IsFresh
        ∧ (obus.foldl (Reading.step config) {}).registry = opened.registry := by
  have hphase := readDescriptors_of_tracks (tracks_start config hbytes hends) hsize
    ⟨rfl, rfl, rfl, rfl⟩
  rw [ofInput]
  cases hopen : readDescriptors { source := { input }, config } with
  | error error =>
    rw [hopen] at hphase
    exact hphase.1
  | ok opened =>
    rw [hopen] at hphase
    obtain ⟨front, back, rfl, hfresh, hopened, -, hback⟩ := hphase
    -- An OBU that is left over would be one that ends the descriptors.
    have hnone : back = [] := by
      cases back with
      | nil => rfl
      | cons obu back =>
        have hobu := hback obu rfl
        rw [hdescribes obu (by simp)] at hobu
        cases hobu
    rw [hnone, List.append_nil]
    exact ⟨hfresh, hopened.registry.symm⟩

/-- The OBU that ends the descriptors is read as if they had ended before. -/
theorem session_of_ends {back : List Obu.Complete} (hfresh : reading.IsFresh)
    (hback : ∀ obu ∈ back.head?, endsDescriptors obu.header.kind = true) (bytes : Bytes) :
    (back.foldl (Reading.step config) reading).session bytes
      = (back.foldl (Reading.step config) { reading with opened := true }).session bytes := by
  cases back with
  | nil =>
    simp only [List.foldl_nil, Reading.session, hfresh.failure]
  | cons obu back =>
    rw [List.foldl_cons, List.foldl_cons,
      Reading.step_of_ends hfresh.failure (hback obu (by simp))]

/-- From among the descriptors on, what a demuxer makes of the OBUs to come is
what the reading that got as far makes of them. -/
theorem sessionOf_readDescriptors (front : Bytes) {obus : List Obu.Complete}
    (h : Tracks config demuxer reading (obus.flatMap (·.bytes)))
    (hsize : ∀ obu ∈ obus, obu.header.totalLength ≤ config.maxObuSize)
    (hfresh : reading.IsFresh) (hconsumed : reading.consumed = front.length) :
    sessionOf demuxer.readDescriptors
      = (obus.foldl (Reading.step config) reading).session
          (front ++ obus.flatMap (·.bytes)) := by
  have hphase := readDescriptors_of_tracks h hsize hfresh
  cases hopen : demuxer.readDescriptors with
  | error error =>
    rw [hopen] at hphase
    obtain ⟨hfailure, hopened⟩ := hphase
    simp only [sessionOf, Reading.session, hfailure, hopened]
  | ok demuxer =>
    rw [hopen] at hphase
    obtain ⟨described, back, rfl, hdescribed, hopened, hused, hback⟩ := hphase
    -- The demuxer keeps no note of the end of the descriptors, so it tracks both readings.
    have htracks : Tracks config demuxer
        { described.foldl (Reading.step config) reading with opened := true }
        (back.flatMap (·.bytes)) :=
      ⟨hopened.awaits, hopened.config, hopened.registry, hopened.values⟩
    have hplayed := readPackets_of_tracks htracks
      (fun obu hobu => hsize obu (List.mem_append_right _ hobu)) hdescribed.failure rfl
    rw [List.foldl_append, session_of_ends hdescribed hback, List.flatMap_append,
      ← List.append_assoc, hplayed.session_eq rfl hdescribed.packets]
    · rfl
    · rw [List.length_append, ← hconsumed]
      exact hused

/-- What a demuxer makes of a stream of complete OBUs is the left fold of the step
over them, however the input cuts the stream into pieces. -/
theorem session_eq_foldl (config : DemuxerConfig) (obus : List Obu.Complete) (input : Input)
    (hbytes : input.rest = obus.flatMap (·.bytes)) (hends : input.failure = none)
    (hsize : ∀ obu ∈ obus, obu.header.totalLength ≤ config.maxObuSize) :
    session config input = (obus.foldl (Reading.step config) {}).session input.rest := by
  rw [session, ofInput, hbytes]
  exact sessionOf_readDescriptors [] (tracks_start config hbytes hends) hsize
    ⟨rfl, rfl, rfl, rfl⟩ rfl

/-- A temporal delimiter. -/
def delimiterObu : Obu.Complete where
  header := { kind := .temporalDelimiter, size := 0, headerLength := 2, bodyLength := 0 }
  bytes := [0x20, 0x00]
  parsed := by rfl
  whole := by rfl

/-- A frame of one byte for the substream 0. -/
def frameObu : Obu.Complete where
  header := { kind := .impliedFrame 0, size := 1, headerLength := 2, bodyLength := 1 }
  bytes := [0x30, 0x01, 0x07]
  parsed := by rfl
  whole := by rfl

/-- A frame without a substream puts an end to the packets, and is consumed. -/
theorem session_unknown_frame :
    session {} { rest := [0x20, 0x00, 0x30, 0x01, 0x07, 0x20, 0x00] }
      = .played .empty [] {} (some (.unknownReference .substream 0)) [0x20, 0x00] :=
  session_eq_foldl {} [delimiterObu, frameObu, delimiterObu] _ rfl rfl (by decide)

end Demuxer

end Iamf
