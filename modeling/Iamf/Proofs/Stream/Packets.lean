import Iamf.Proofs.Stream.Opened
import Iamf.Proofs.Stream.Reading
import Iamf.Proofs.Stream.Written

/-!
# `Iamf.Proofs.Stream.Packets`: packets come back as they were written

Only packets of the first stream write their parameter values; a reader keeps
values until the next temporal delimiter and gives them to every packet. So a
temporal unit comes back as long as its packets agree on the values from the
first packet of the first stream on, and the values are ones that their
definitions let blocks carry.

* `Reading.IsAt`: how far a reading is, as far as it matters for the packets.
* `Muxer.encodePacket_eq`: the OBUs of one packet add the packet.
* `session_writeStream`: a stream of units comes back whole, packet by packet.
-/

set_option autoImplicit false

namespace Iamf

/-! ### What can be written -/

/-- Another registry has the same elements and definitions. -/
structure Registry.Answers (registry other : Registry) : Prop where
  audioElements : other.audioElements = registry.audioElements
  parameters : ∀ id, other.parameter? id = registry.parameter? id

/-- Values that conform to the registered definition of their id. -/
def Parameter.ConformsIn (registry : Registry) (values : Parameter) : Prop :=
  ∃ definition, registry.parameter? values.id = some definition
    ∧ ∀ carrying, definition.carryingLayers registry = .ok carrying →
      Conforms definition carrying values

/-- A snapshot whose values conform, each kind in its place. -/
structure Snapshot.Conforms (registry : Registry) (snapshot : Snapshot) : Prop where
  mixGain : ∀ values ∈ snapshot.mixGain, values.kind = .mixGain ∧ values.ConformsIn registry
  demixing : ∀ values ∈ snapshot.demixing, values.kind = .demixing ∧ values.ConformsIn registry
  reconGain : ∀ values ∈ snapshot.reconGain,
    values.kind = .reconGain ∧ values.ConformsIn registry

/-- A packet of a registered substream, none of whose OBUs is too long. -/
structure Packet.IsWritable (registry : Registry) (packet : Packet) : Prop where
  registered : ∃ substream ∈ registry.substreams,
    packet.streamIndex = substream.streamIndex ∧ packet.substream = substream.id
  conforms : packet.values.Conforms registry
  frame : Obu.wireLength packet.trim (Muxer.frameBody packet).length ≤ Obu.maxSize
  blocks : packet.streamIndex = 0 → ∀ values ∈ packet.values.toList, ∀ definition body,
    registry.parameter? values.id = some definition →
    values.encodeBlock definition registry = .ok body →
    Obu.wireLength none body.length ≤ Obu.maxSize

/-- The packets of a temporal unit: from the first packet of the first stream on
all have the same values, and those before it have none. -/
structure IsTemporalUnit (packets : List Packet) : Prop where
  before : ∀ packet ∈ packets.takeWhile (·.streamIndex ≠ 0), packet.values = {}
  after : ∃ values, ∀ packet ∈ packets.dropWhile (·.streamIndex ≠ 0), packet.values = values

namespace Muxer

/-- Writes a temporal unit. -/
def writeUnit (packets : List Packet) : Stateful Muxer Unit := do
  writeTemporalDelimiter
  packets.forM writePacket

/-- Writes a whole stream. -/
def writeStream (units : List (List Packet)) : Stateful Muxer Unit := do
  writeHeader
  units.forM writeUnit

end Muxer

/-! ### Snapshots -/

namespace Snapshot

/-- Taking in the values of a snapshot one after the other, starting from none of
them or all of them, leads to the snapshot. -/
theorem foldl_update_toList {registry : Registry} {snapshot start : Snapshot}
    (h : snapshot.Conforms registry) (hstart : start = {} ∨ start = snapshot) :
    snapshot.toList.foldl update start = snapshot := by
  obtain ⟨mixGain, demixing, reconGain⟩ := snapshot
  -- Values go into the slot of their own kind, and leave the other two alone.
  have hmix : ∀ (start : Snapshot), mixGain.toList.foldl update start
      = { start with mixGain := mixGain.or start.mixGain } := by
    intro start
    cases mixGain with
    | none => rfl
    | some values => simp [update, (h.mixGain values rfl).1]
  have hdemixing : ∀ (start : Snapshot), demixing.toList.foldl update start
      = { start with demixing := demixing.or start.demixing } := by
    intro start
    cases demixing with
    | none => rfl
    | some values => simp [update, (h.demixing values rfl).1]
  have hrecon : ∀ (start : Snapshot), reconGain.toList.foldl update start
      = { start with reconGain := reconGain.or start.reconGain } := by
    intro start
    cases reconGain with
    | none => rfl
    | some values => simp [update, (h.reconGain values rfl).1]
  simp only [toList, List.foldl_append, hmix, hdemixing, hrecon]
  rcases hstart with rfl | rfl <;> simp

/-- All values of a snapshot conform. -/
theorem Conforms.of_mem_toList {registry : Registry} {snapshot : Snapshot}
    (h : snapshot.Conforms registry) {values : Parameter} (hmem : values ∈ snapshot.toList) :
    values.ConformsIn registry := by
  simp only [toList, List.mem_append, Option.mem_toList] at hmem
  rcases hmem with (hmem | hmem) | hmem
  · exact (h.mixGain values hmem).2
  · exact (h.demixing values hmem).2
  · exact (h.reconGain values hmem).2

end Snapshot

/-! ### Parameter blocks -/

/-- Values that conform are written as a block that gives them back. -/
theorem Muxer.encodeBlock_eq {registry opened : Registry} {values : Parameter}
    (hsame : registry.Answers opened) (hgrounded : opened.Grounded)
    (h : values.ConformsIn registry)
    (hfits : ∀ definition body, registry.parameter? values.id = some definition →
      values.encodeBlock definition registry = .ok body →
      Obu.wireLength none body.length ≤ Obu.maxSize) :
    ∃ obu : Obu.Complete, encodeBlock registry values = .ok obu.bytes
      ∧ obu.header.kind = .parameterBlock ∧ obu.header.totalLength ≤ Obu.maxSize
      ∧ ∀ mode, Parameter.parseBlock mode opened obu.body = .ok (some values) := by
  obtain ⟨definition, hfind, hconforms⟩ := h
  have hopened : opened.parameter? values.id = some definition :=
    (hsame.parameters values.id).trans hfind
  have hgrounds := hgrounded definition (List.mem_of_find?_eq_some hopened)
  obtain ⟨carrying, hcarrying⟩ := hgrounds.exists_carryingLayers
  -- Both registries have the same elements, so the same layers carry recon gain.
  have hlayers : definition.carryingLayers registry = .ok carrying := by
    rw [← hcarrying]
    simp only [Parameter.carryingLayers, Registry.reconGainLayers, Registry.audioElement?,
      hsame.audioElements]
  obtain ⟨body, hbody, hparse⟩ :=
    (hconforms carrying hlayers).exists_encodeBlock hgrounds.timed_isTimed hlayers
  have hkind : Obu.Kind.IsCoded .parameterBlock := ⟨by decide, by decide⟩
  obtain ⟨obu, hobu, hencode⟩ := encodeObu_eq hkind (hfits definition body hfind hbody)
  refine ⟨obu, ?_, hobu.kind, hobu.size, fun mode => ?_⟩
  · rw [encodeBlock, hfind, ← hencode, ← hbody]
  · rw [hobu.body]
    exact hparse mode opened hopened hcarrying

/-! ### How far a reading is -/

namespace Reading

/-- A reading with these descriptors, values and packets so far. -/
structure IsAt (registry : Registry) (values : Snapshot) (packets : List Packet)
    (reading : Reading) : Prop where
  failure : reading.failure = none
  registry : reading.registry = registry
  values : reading.values = values
  packets : reading.packets = packets
  closed : reading.opened = false → reading.values = {}

variable {config : DemuxerConfig} {registry : Registry} {values : Snapshot}
  {packets : List Packet} {reading : Reading} {obu : Obu.Complete}

theorem IsAt.delimiter (h : reading.IsAt registry values packets)
    (hkind : obu.header.kind = .temporalDelimiter) :
    (reading.step config obu).IsAt registry {} packets := by
  have hends : Demuxer.endsDescriptors obu.header.kind = false := by rw [hkind]; rfl
  cases hopened : reading.opened with
  | true =>
    simp only [step_of_opened h.failure hopened, media, hkind]
    exact ⟨h.failure, h.registry, rfl, h.packets, fun _ => rfl⟩
  | false =>
    simp only [step_of_descriptor h.failure hopened hends, descriptor, hkind]
    exact ⟨h.failure, h.registry, h.closed hopened, h.packets, h.closed⟩

/-- An OBU that ends the descriptors is read as media, wherever it comes. -/
theorem step_eq_media (hfailure : reading.failure = none)
    (hends : Demuxer.endsDescriptors obu.header.kind = true) :
    step config reading obu
      = media config { reading with
          opened := true, consumed := reading.consumed + obu.bytes.length } obu :=
  (step_of_ends hfailure hends).trans (step_of_opened hfailure rfl)

theorem IsAt.block (h : reading.IsAt registry values packets)
    (hkind : obu.header.kind = .parameterBlock) {latest : Parameter}
    (hparse : Parameter.parseBlock config.mode registry obu.body = .ok (some latest)) :
    (reading.step config obu).IsAt registry (values.update latest) packets := by
  rw [step_eq_media h.failure (by rw [hkind]; rfl)]
  rw [← h.registry] at hparse
  simp only [media, hkind, hparse]
  refine ⟨h.failure, h.registry, ?_, h.packets, fun hclosed => absurd hclosed (by simp)⟩
  rw [h.values]

theorem IsAt.frame (h : reading.IsAt registry values packets)
    (hkind : Demuxer.isFrame obu.header.kind = true) {packet : Packet}
    (hpacket : reading.packet obu = .ok packet) :
    (reading.step config obu).IsAt registry values (packets ++ [packet]) := by
  rw [step_eq_media h.failure (Demuxer.endsDescriptors_of_isFrame hkind), media_of_frame hkind]
  have hsame : Reading.packet { reading with
      opened := true, consumed := reading.consumed + obu.bytes.length } obu = .ok packet :=
    hpacket
  rw [hsame]
  refine ⟨h.failure, h.registry, h.values, ?_, fun hclosed => absurd hclosed (by simp)⟩
  rw [← h.packets]

/-! ### Packets -/

/-- A frame that was written is split where it was put together. -/
theorem frameOf_frameBody (packet : Packet) :
    frameOf (Obu.Kind.ofSubstream packet.substream) (Muxer.frameBody packet)
      = .ok (packet.substream, packet.data) := by
  rw [Muxer.frameBody, Obu.Kind.ofSubstream]
  split
  · rename_i hle
    -- The kind of the OBU implies the id, which fits in a byte.
    have hlt : packet.substream.toNat ≤ 17 := UInt32.le_iff_toNat_le.1 hle
    have hid : packet.substream.toUInt8.toUInt32 = packet.substream := by
      apply UInt32.toNat_inj.1
      simp only [UInt8.toNat_toUInt32, UInt32.toNat_toUInt8]
      omega
    simp only [frameOf, hid, reduceCtorEq, if_false]
  -- The id stands in front of the frame.
  · have hread : Leb128.readSized.parse "audio frame"
        (Leb128.encode packet.substream ++ packet.data)
          = .ok (packet.substream, Leb128.size packet.substream) := by
      rw [Read.parse_eq_ok]
      exact ⟨_, Leb128.consumes_encode_sized packet.substream _ packet.data trivial⟩
    simp only [frameOf, if_true, hread, ← Leb128.length_encode, List.drop_left]

/-- The packet that the frame of a packet is read as, where its values are in
effect. -/
theorem packet_eq {packet : Packet} {substream : Substream}
    (hobu : obu.IsMadeOf (Obu.Kind.ofSubstream packet.substream) packet.trim
      (Muxer.frameBody packet))
    (hfind : reading.registry.substream? packet.substream = some substream)
    (hstream : packet.streamIndex = substream.streamIndex)
    (hvalues : reading.values = packet.values) : reading.packet obu = .ok packet := by
  simp only [Reading.packet, hobu.kind, hobu.body, hobu.trim, frameOf_frameBody, hfind, ← hstream,
    hvalues]

theorem isFrame_ofSubstream (substream : UInt32) :
    Demuxer.isFrame (Obu.Kind.ofSubstream substream) = true := by
  rw [Obu.Kind.ofSubstream]
  split <;> rfl

/-- The blocks of some values take them in one after the other. -/
theorem IsAt.blocks (config : DemuxerConfig) {latest : List Parameter}
    {obus : List Obu.Complete} (h : reading.IsAt registry values packets)
    (hobus : List.Forall₂ (fun values (obu : Obu.Complete) =>
      obu.header.kind = .parameterBlock
        ∧ Parameter.parseBlock config.mode registry obu.body = .ok (some values)) latest obus) :
    (obus.foldl (step config) reading).IsAt registry (latest.foldl Snapshot.update values)
      packets := by
  induction hobus generalizing reading values with
  | nil => exact h
  | cons hfirst _ ih => exact ih (h.block hfirst.1 hfirst.2)

end Reading

namespace Muxer

variable {config : DemuxerConfig} {registry opened : Registry}

/-- The values that a packet brings along: those of the first stream bring theirs. -/
def blockValues (packet : Packet) : List Parameter :=
  if packet.streamIndex = 0 then packet.values.toList else []

/-- The values that are brought along lead to those of the packet, from where these
are in effect or none are. -/
theorem foldl_update_blockValues {packet : Packet} {values : Snapshot}
    (h : packet.values.Conforms registry)
    (hvalues : values = packet.values ∨ packet.streamIndex = 0 ∧ values = {}) :
    (blockValues packet).foldl Snapshot.update values = packet.values := by
  rw [blockValues]
  split
  · refine Snapshot.foldl_update_toList h ?_
    rcases hvalues with heq | ⟨-, hnone⟩
    · exact .inr heq
    · exact .inl hnone
  · rename_i hother
    exact hvalues.resolve_right fun hfirst => hother hfirst.1

/-- The values of a packet can be written, and their blocks give them back. -/
theorem encodeBlocks_eq (hsame : registry.Answers opened) (hgrounded : opened.Grounded)
    {packet : Packet} (h : packet.IsWritable registry) :
    ∃ blocks : List Obu.Complete,
      (blockValues packet).mapM (encodeBlock registry) = .ok (blocks.map (·.bytes))
        ∧ List.Forall₂ (fun values (obu : Obu.Complete) => obu.header.kind = .parameterBlock
            ∧ obu.header.totalLength ≤ Obu.maxSize
            ∧ ∀ mode, Parameter.parseBlock mode opened obu.body = .ok (some values))
          (blockValues packet) blocks := by
  refine exists_mapM fun values hmem => ?_
  rw [blockValues] at hmem
  split at hmem
  · rename_i hfirst
    exact encodeBlock_eq hsame hgrounded (h.conforms.of_mem_toList hmem)
      (h.blocks hfirst values hmem)
  · exact absurd hmem List.not_mem_nil

/-- The substream of a packet is found by the index of its stream when it is
written, and by its id when it is read. -/
theorem exists_substream (hsame : registry.Answers opened) (hcoherent : opened.Coherent)
    {packet : Packet} (h : packet.IsWritable registry) :
    ∃ substream, packet.streamIndex = substream.streamIndex ∧ packet.substream = substream.id
      ∧ registry.substreams.find? (·.streamIndex = packet.streamIndex) = some substream
      ∧ opened.substream? packet.substream = some substream := by
  obtain ⟨substream, hmem, hstream, hid⟩ := h.registered
  have hsubstreams : opened.substreams = registry.substreams := by
    rw [Registry.substreams, Registry.substreams, hsame.audioElements]
  have hstreams : (registry.substreams.map (·.streamIndex)).Nodup := by
    rw [← hsubstreams, hcoherent.numbered]
    exact List.nodup_range
  refine ⟨substream, hstream, hid, ?_, ?_⟩
  · rw [hstream]
    exact Registry.find?_of_nodup hstreams hmem
  · rw [hid]
    exact Registry.find?_of_nodup hcoherent.substreams (hsubstreams ▸ hmem)

/-- A packet can be written, and where its values are in effect, or none are and
it brings them, its OBUs are read as the packet. -/
theorem encodePacket_eq (config : DemuxerConfig) (hsame : registry.Answers opened)
    (hcoherent : opened.Coherent) (hgrounded : opened.Grounded) {packet : Packet}
    (h : packet.IsWritable registry) :
    ∃ obus : List Obu.Complete, encodePacket registry packet = .ok (obus.flatMap (·.bytes))
      ∧ (∀ obu ∈ obus, obu.header.totalLength ≤ Obu.maxSize)
      ∧ ∀ (reading : Reading) (values : Snapshot) (packets : List Packet),
        reading.IsAt opened values packets →
        (values = packet.values ∨ packet.streamIndex = 0 ∧ values = {}) →
        (obus.foldl (Reading.step config) reading).IsAt opened packet.values
          (packets ++ [packet]) := by
  obtain ⟨substream, hstream, hid, hfindStream, hfindId⟩ := exists_substream hsame hcoherent h
  obtain ⟨frame, hframe, hencodeFrame⟩ := encodeFrame_eq hid h.frame
  obtain ⟨blocks, hencodeBlocks, hall⟩ := encodeBlocks_eq hsame hgrounded h
  refine ⟨blocks ++ [frame], ?_, ?_, ?_⟩
  · rw [blockValues] at hencodeBlocks
    simp only [encodePacket, hfindStream, hencodeBlocks, hencodeFrame]
    rw [List.flatMap_append, List.flatMap_singleton, List.flatMap_def]
    rfl
  · intro obu hobu
    rcases List.mem_append.1 hobu with hblock | hlast
    · exact forall_of_forall₂ hall (fun _ _ hmade => hmade.2.1) obu hblock
    · rw [List.mem_singleton.1 hlast]
      exact hframe.size
  · intro reading values packets hreading hvalues
    have hread := hreading.blocks config
      (hall.imp fun _ _ hmade => ⟨hmade.1, hmade.2.2 config.mode⟩)
    rw [foldl_update_blockValues h.conforms hvalues] at hread
    -- The frame comes last, when the values of all blocks are in effect.
    rw [List.foldl_append]
    refine hread.frame (by rw [hframe.kind]; exact Reading.isFrame_ofSubstream _) ?_
    exact Reading.packet_eq hframe (hread.registry ▸ hfindId) hstream hread.values

/-! ### Programs that write OBUs -/

/-- A muxer of a registry that has written its header into a sink without bounds. -/
structure IsOpen (registry : Registry) (muxer : Muxer) : Prop where
  registry : muxer.registry = registry
  headerWritten : muxer.headerWritten = true
  room : muxer.sink.room = none

/-- The muxer with more bytes in its sink. -/
def append (muxer : Muxer) (bytes : Bytes) : Muxer :=
  { muxer with sink := { muxer.sink with written := muxer.sink.written ++ bytes } }

/-- Bytes that the sink has taken are behind those that it had. -/
theorem write_eq_ok {muxer after : Muxer} {bytes : Bytes}
    (h : onSink (Sink.write bytes) muxer = .ok () after) : after = muxer.append bytes := by
  rw [onSink, Stateful.onPart_eq_ok] at h
  obtain ⟨sink, hwrite, rfl⟩ := h
  rw [Sink.write, Stateful.get_bind] at hwrite
  cases hrefusal : muxer.sink.refusal? bytes.length with
  | some text =>
    rw [hrefusal] at hwrite
    cases hwrite
  | none =>
    rw [hrefusal] at hwrite
    cases hwrite
    rfl

theorem IsOpen.append {muxer : Muxer} (h : muxer.IsOpen registry) (bytes : Bytes) :
    (muxer.append bytes).IsOpen registry :=
  ⟨h.registry, h.headerWritten, h.room⟩

/-- The program writes OBUs, none of them too long, that a reading takes from the
one snapshot to the other and that give these packets. -/
def Writes (config : DemuxerConfig) (registry opened : Registry) (program : Stateful Muxer Unit)
    (before after : Snapshot) (written : List Packet) : Prop :=
  ∀ muxer : Muxer, muxer.IsOpen registry → ∃ obus : List Obu.Complete,
    program muxer = .ok () (muxer.append (obus.flatMap (·.bytes)))
      ∧ (∀ obu ∈ obus, obu.header.totalLength ≤ Obu.maxSize)
      ∧ ∀ (reading : Reading) (packets : List Packet), reading.IsAt opened before packets →
        (obus.foldl (Reading.step config) reading).IsAt opened after (packets ++ written)

theorem write_eq {muxer : Muxer} (hroom : muxer.sink.room = none) (bytes : Bytes) :
    onSink (Sink.write bytes) muxer = .ok () (muxer.append bytes) := by
  have hwrite : Sink.write bytes muxer.sink
      = .ok () { muxer.sink with written := muxer.sink.written ++ bytes } := by
    have haccepts : muxer.sink.refusal? bytes.length = none := by
      rw [Sink.refusal?, hroom]
    rw [Sink.write, Stateful.get_bind, haccepts]
    rfl
  simp only [onSink, Stateful.onPart, hwrite]
  rfl

/-- Nothing is written. -/
theorem Writes.nothing (values : Snapshot) :
    Writes config registry opened (pure ()) values values [] := by
  intro muxer _
  refine ⟨[], ?_, by simp, fun reading packets hreading => ?_⟩
  · show EStateM.Result.ok () muxer = .ok () (muxer.append [])
    rw [append, List.append_nil]
  · rw [List.append_nil]
    exact hreading

/-- Two programs in a row write the OBUs of both. -/
theorem Writes.bind {first second : Stateful Muxer Unit} {before middle after : Snapshot}
    {front back : List Packet} (hfirst : Writes config registry opened first before middle front)
    (hsecond : Writes config registry opened second middle after back) :
    Writes config registry opened (first >>= fun _ => second) before after (front ++ back) := by
  intro muxer hopen
  obtain ⟨obus, hrun, hsize, hread⟩ := hfirst muxer hopen
  obtain ⟨others, hrunOthers, hsizeOthers, hreadOthers⟩ := hsecond _ (hopen.append _)
  refine ⟨obus ++ others, ?_, ?_, ?_⟩
  · rw [Stateful.bind_of_ok hrun, hrunOthers, List.flatMap_append]
    simp only [append, List.append_assoc]
  · intro obu hobu
    rcases List.mem_append.1 hobu with hobu | hobu
    · exact hsize obu hobu
    · exact hsizeOthers obu hobu
  · intro reading packets hreading
    rw [List.foldl_append, ← List.append_assoc]
    exact hreadOthers _ _ (hread _ _ hreading)

/-- The OBU of a temporal delimiter. -/
theorem exists_delimiter :
    ∃ obu : Obu.Complete, obu.IsMadeOf .temporalDelimiter none []
      ∧ encodeObu .temporalDelimiter (pure []) = .ok obu.bytes := by
  have hkind : Obu.Kind.IsCoded .temporalDelimiter := ⟨by decide, by decide⟩
  have hshort : Obu.wireLength none ([] : Bytes).length ≤ Obu.maxSize := by decide
  exact encodeObu_eq hkind hshort

/-- A temporal delimiter puts an end to all values. -/
theorem writes_delimiter (values : Snapshot) :
    Writes config registry opened writeTemporalDelimiter values {} [] := by
  intro muxer hopen
  obtain ⟨obu, hobu, hencode⟩ := exists_delimiter
  refine ⟨[obu], ?_, by simpa using hobu.size, fun reading packets hreading => ?_⟩
  · rw [writeTemporalDelimiter, Stateful.lift_bind, hencode, List.flatMap_singleton]
    exact write_eq hopen.room _
  · rw [List.append_nil]
    exact hreading.delimiter hobu.kind

/-- An open muxer writes a packet that can be encoded. -/
theorem writePacket_eq {muxer : Muxer} (hopen : muxer.IsOpen registry) {packet : Packet}
    {bytes : Bytes} (h : encodePacket registry packet = .ok bytes) :
    writePacket packet muxer = .ok () (muxer.append bytes) := by
  rw [writePacket, Stateful.get_bind, ensure_of hopen.headerWritten, pure_bind,
    Stateful.lift_bind, hopen.registry, h]
  exact write_eq hopen.room _

/-- A packet brings its values, or relies on them. -/
theorem writes_packet (config : DemuxerConfig) (hsame : registry.Answers opened)
    (hcoherent : opened.Coherent) (hgrounded : opened.Grounded) {packet : Packet}
    (h : packet.IsWritable registry) {values : Snapshot}
    (hvalues : values = packet.values ∨ packet.streamIndex = 0 ∧ values = {}) :
    Writes config registry opened (writePacket packet) values packet.values [packet] := by
  intro muxer hopen
  obtain ⟨obus, hencode, hsize, hread⟩ :=
    encodePacket_eq config hsame hcoherent hgrounded h
  exact ⟨obus, writePacket_eq hopen hencode, hsize, fun reading packets hreading =>
    hread reading values packets hreading hvalues⟩

/-! ### Units and streams -/

section

variable (config) (hsame : registry.Answers opened) (hcoherent : opened.Coherent)
  (hgrounded : opened.Grounded)
include hsame hcoherent hgrounded

/-- Packets that all rely on the same values. -/
theorem writes_after {packets : List Packet} {values : Snapshot}
    (h : ∀ packet ∈ packets, packet.IsWritable registry)
    (hvalues : ∀ packet ∈ packets, packet.values = values) :
    Writes config registry opened (packets.forM writePacket) values values packets := by
  induction packets with
  | nil => exact .nothing values
  | cons packet packets ih =>
    obtain ⟨hfirst, hothers⟩ := List.forall_mem_cons.1 h
    obtain ⟨hnow, hlater⟩ := List.forall_mem_cons.1 hvalues
    have hwrite := writes_packet config hsame hcoherent hgrounded hfirst
      (.inl hnow.symm)
    rw [hnow] at hwrite
    exact hwrite.bind (ih hothers hlater)

/-- The packets of a temporal unit, from the temporal delimiter on. -/
theorem writes_packets {packets : List Packet}
    (h : ∀ packet ∈ packets, packet.IsWritable registry) (hunit : IsTemporalUnit packets) :
    ∃ values, Writes config registry opened (packets.forM writePacket) {} values packets := by
  induction packets with
  | nil => exact ⟨_, .nothing _⟩
  | cons packet packets ih =>
    obtain ⟨hfirst, hothers⟩ := List.forall_mem_cons.1 h
    obtain ⟨hbefore, values, hafter⟩ := hunit
    by_cases hstream : packet.streamIndex = 0
    · -- The first packet of the first stream: all from here on have its values.
      rw [List.dropWhile_cons_of_neg (by simpa using hstream)] at hafter
      obtain ⟨hnow, hlater⟩ := List.forall_mem_cons.1 hafter
      have hwrite := writes_packet config hsame hcoherent hgrounded hfirst
        (.inr ⟨hstream, rfl⟩)
      rw [hnow] at hwrite
      exact ⟨values, hwrite.bind (writes_after config hsame hcoherent hgrounded hothers hlater)⟩
    -- A packet before it brings nothing, and relies on there being no values.
    · rw [List.takeWhile_cons_of_pos (by simpa using hstream)] at hbefore
      rw [List.dropWhile_cons_of_pos (by simpa using hstream)] at hafter
      obtain ⟨hnow, hlater⟩ := List.forall_mem_cons.1 hbefore
      have hwrite := writes_packet config hsame hcoherent hgrounded hfirst
        (.inl hnow.symm)
      rw [hnow] at hwrite
      obtain ⟨final, hrest⟩ := ih hothers ⟨hlater, values, hafter⟩
      exact ⟨final, hwrite.bind hrest⟩

/-- Temporal units one after the other. -/
theorem writes_units {units : List (List Packet)}
    (h : ∀ packets ∈ units, IsTemporalUnit packets
      ∧ ∀ packet ∈ packets, packet.IsWritable registry) (values : Snapshot) :
    ∃ final, Writes config registry opened (units.forM writeUnit) values final
      units.flatten := by
  induction units generalizing values with
  | nil => exact ⟨values, .nothing values⟩
  | cons packets units ih =>
    obtain ⟨⟨hunit, hwritable⟩, hothers⟩ := List.forall_mem_cons.1 h
    obtain ⟨middle, hpackets⟩ :=
      writes_packets config hsame hcoherent hgrounded hwritable hunit
    obtain ⟨final, hrest⟩ := ih hothers middle
    exact ⟨final, ((writes_delimiter values).bind hpackets).bind hrest⟩

end

/-! ### Whole streams -/

/-- The OBUs of descriptors are of these kinds, and not too long. -/
theorem Descriptors.kind_of_mem (descriptors : Descriptors registry) {obu : Obu.Complete}
    (h : obu ∈ descriptors.obus) :
    obu.header.kind ∈ [Obu.Kind.sequenceHeader, .codecConfig, .audioElement, .mixPresentation]
      ∧ obu.header.totalLength ≤ Obu.maxSize := by
  have hmade : ∀ {kinds : List Obu.Kind} {kind : Obu.Kind} {encoded : Except Error Bytes}
      {obu : Obu.Complete}, kind ∈ kinds → obu.IsEncoded kind encoded →
      obu.header.kind ∈ kinds ∧ obu.header.totalLength ≤ Obu.maxSize := by
    rintro kinds kind encoded obu hkind ⟨body, -, hobu⟩
    exact ⟨hobu.kind ▸ hkind, hobu.size⟩
  simp only [Descriptors.obus, List.mem_cons, List.mem_append] at h
  rcases h with rfl | (h | h) | h
  · exact ⟨descriptors.sequence.kind ▸ List.mem_cons_self, descriptors.sequence.size⟩
  · exact forall_of_forall₂ descriptors.configs (fun _ _ => hmade (by decide)) obu h
  · exact forall_of_forall₂ descriptors.elements (fun _ _ => hmade (by decide)) obu h
  · exact forall_of_forall₂ descriptors.mixes (fun _ _ => hmade (by decide)) obu h

/-- They end no descriptors. -/
theorem Descriptors.of_mem (descriptors : Descriptors registry) {obu : Obu.Complete}
    (h : obu ∈ descriptors.obus) :
    Demuxer.endsDescriptors obu.header.kind = false
      ∧ obu.header.totalLength ≤ Obu.maxSize := by
  obtain ⟨hkind, hsize⟩ := descriptors.kind_of_mem h
  refine ⟨?_, hsize⟩
  generalize obu.header.kind = kind at hkind
  revert kind
  decide

/-- Behind the descriptors they are passed over. -/
theorem Descriptors.isIgnored (descriptors : Descriptors registry) {obu : Obu.Complete}
    (h : obu ∈ descriptors.obus) : Demuxer.isIgnored obu.header.kind = true := by
  obtain ⟨hkind, -⟩ := descriptors.kind_of_mem h
  generalize obu.header.kind = kind at hkind
  revert kind
  decide

/-- A header that was demuxed is read as a fresh reading with its registry. -/
theorem Descriptors.isFresh (descriptors : Descriptors registry)
    (hmax : Obu.maxSize ≤ config.maxObuSize) {demuxer : Demuxer}
    (h : Demuxer.ofBytes config (descriptors.obus.flatMap (·.bytes)) = .ok demuxer) :
    (descriptors.obus.foldl (Reading.step config) {}).IsFresh
      ∧ (descriptors.obus.foldl (Reading.step config) {}).registry = demuxer.registry := by
  have hphase := Demuxer.ofInput_of_descriptors config
    { rest := descriptors.obus.flatMap (·.bytes) } rfl rfl
    (fun obu hobu => Nat.le_trans (descriptors.of_mem hobu).2 hmax)
    fun obu hobu => (descriptors.of_mem hobu).1
  rw [Demuxer.ofBytes] at h
  rw [h] at hphase
  exact hphase

/-- A header that was demuxed is read without any values or packets. -/
theorem Descriptors.isAt (descriptors : Descriptors registry)
    (hmax : Obu.maxSize ≤ config.maxObuSize) {demuxer : Demuxer}
    (h : Demuxer.ofBytes config (descriptors.obus.flatMap (·.bytes)) = .ok demuxer) :
    (descriptors.obus.foldl (Reading.step config) {}).IsAt demuxer.registry {} [] := by
  obtain ⟨hfresh, hregistry⟩ := descriptors.isFresh hmax h
  exact ⟨hfresh.failure, hregistry, hfresh.values, hfresh.packets, fun _ => hfresh.values⟩

/-- A stream that is read without a failure is read to the end of the input. -/
theorem Descriptors.session_eq (descriptors : Descriptors registry)
    (hmax : Obu.maxSize ≤ config.maxObuSize) {obus : List Obu.Complete}
    (hsize : ∀ obu ∈ obus, obu.header.totalLength ≤ Obu.maxSize) {opened : Registry}
    {values : Snapshot} {packets : List Packet}
    (hread : ((descriptors.obus ++ obus).foldl (Reading.step config) {}).IsAt opened values packets)
    {input : Input}
    (hinput : input.rest = descriptors.obus.flatMap (·.bytes) ++ obus.flatMap (·.bytes))
    (hends : input.failure = none) :
    Demuxer.session config input = .played opened packets values none [] := by
  have hwritten : input.rest = (descriptors.obus ++ obus).flatMap (·.bytes) := by
    rw [hinput, List.flatMap_append]
  have hsizes : ∀ obu ∈ descriptors.obus ++ obus,
      obu.header.totalLength ≤ config.maxObuSize := by
    intro obu hobu
    refine Nat.le_trans ?_ hmax
    rcases List.mem_append.1 hobu with hobu | hobu
    · exact (descriptors.of_mem hobu).2
    · exact hsize obu hobu
  have hsession := Demuxer.sessionOf_readDescriptors []
    (Demuxer.tracks_start config hwritten hends) hsizes ⟨rfl, rfl, rfl, rfl⟩ rfl
  have hconsumed := Reading.consumed_foldl hread.failure
  rw [Demuxer.session, Demuxer.ofInput, hsession]
  simp only [Reading.session, hread.failure, hread.registry, hread.values, hread.packets,
    hconsumed, List.nil_append, Nat.zero_add, List.drop_length]

/-- A muxer that has written this header. -/
def started (registry : Registry) (header : Bytes) : Muxer :=
  { sink := { written := header }, registry, headerWritten := true }

theorem writeHeader_eq {header : Bytes} (h : encodeHeader registry = .ok header) :
    writeHeader { registry } = .ok () (started registry header) := by
  rw [writeHeader, Stateful.get_bind, Stateful.lift_bind]
  simp only [h]
  rw [Stateful.bind_of_ok (write_eq rfl header)]
  rfl

/-- A header that was written. -/
theorem writeHeader_eq_ok {start after : Muxer} (h : writeHeader start = .ok () after) :
    ∃ header, encodeHeader start.registry = .ok header
      ∧ after = { start.append header with headerWritten := true } := by
  simp only [writeHeader, Stateful.get_bind, Stateful.bind_eq_ok, Stateful.liftExcept_eq_ok,
    Stateful.modify_eq_ok] at h
  obtain ⟨header, _, ⟨hencode, rfl⟩, _, middle, hwrite, rfl⟩ := h
  exact ⟨header, hencode, by rw [write_eq_ok hwrite]⟩

/-- A temporal delimiter that was written. -/
theorem writeTemporalDelimiter_eq_ok {start after : Muxer}
    (h : writeTemporalDelimiter start = .ok () after) :
    ∃ obu : Obu.Complete, obu.IsMadeOf .temporalDelimiter none []
      ∧ after = start.append obu.bytes := by
  obtain ⟨obu, hobu, hencode⟩ := exists_delimiter
  rw [writeTemporalDelimiter, Stateful.lift_bind, hencode] at h
  exact ⟨obu, hobu, write_eq_ok h⟩

/-- A packet that was written. -/
theorem writePacket_eq_ok {start after : Muxer} {packet : Packet}
    (h : writePacket packet start = .ok () after) :
    start.headerWritten = true
      ∧ ∃ bytes, encodePacket start.registry packet = .ok bytes ∧ after = start.append bytes := by
  simp only [writePacket, Stateful.get_bind, Stateful.bind_eq_ok, Stateful.ensure_eq_ok,
    Stateful.liftExcept_eq_ok] at h
  obtain ⟨_, _, ⟨hopen, rfl⟩, bytes, _, ⟨hencode, rfl⟩, hwrite⟩ := h
  exact ⟨hopen, bytes, hencode, write_eq_ok hwrite⟩

/-- A stream of temporal units comes back whole: all writes succeed, and a demuxer
gives the packets that were written and then comes to the end of its input,
however that is cut into pieces. -/
theorem session_writeStream {config : DemuxerConfig} {registry opened : Registry}
    {header : Bytes} {units : List (List Packet)} (hmax : Obu.maxSize ≤ config.maxObuSize)
    (hheader : encodeHeader registry = .ok header) (hfits : DescriptorsFit registry)
    (hopened : (Demuxer.ofBytes config header).map (·.registry) = .ok opened)
    (hsame : registry.Answers opened)
    (hunits : ∀ packets ∈ units, IsTemporalUnit packets
      ∧ ∀ packet ∈ packets, packet.IsWritable registry) :
    ∃ muxer values, writeStream units { registry } = .ok () muxer
      ∧ ∀ input : Input, input.rest = muxer.sink.written → input.failure = none →
        Demuxer.session config input = .played opened units.flatten values none [] := by
  obtain ⟨descriptors, rfl⟩ := encodeHeader_eq_ok hheader hfits
  obtain ⟨demuxer, hdemuxer, rfl⟩ := outcome_map_eq_ok.1 hopened
  have hcoherent := Demuxer.coherent_of_ofInput hdemuxer
  have hgrounded := Demuxer.grounded_of_ofInput hdemuxer
  obtain ⟨values, hwrites⟩ := writes_units config hsame hcoherent hgrounded hunits {}
  have hstart : IsOpen registry (started registry (descriptors.obus.flatMap (·.bytes))) :=
    ⟨rfl, rfl, rfl⟩
  obtain ⟨obus, hrun, hsize, hread⟩ := hwrites _ hstart
  refine ⟨_, values, (Stateful.bind_of_ok (writeHeader_eq hheader)).trans hrun,
    fun input hinput hends => ?_⟩
  refine descriptors.session_eq hmax hsize ?_ hinput hends
  rw [List.foldl_append]
  exact hread _ [] (descriptors.isAt hmax hdemuxer)

/-- The down-mixing parameter of a mono element. -/
def monoDefinition : Parameter :=
  { Parameter.single 7 .demixing 48000 960 with element := some 5 }

/-- The codec config of a mono element. -/
def monoConfig : CodecConfig where
  id := 1
  codec := .pcm { littleEndian := true, depth := .bits16 }
  frameSize := 960
  seekPreroll := 0
  sampleRate := 48000
  decoderConfig := []

/-- An element of one mono substream. -/
def monoElement : AudioElement where
  id := 5
  kind := .channel
  codecConfig := 1
  substreams := [{ Substream.ofConfig 20 monoConfig with channelLayout := .mono }]
  layers := [.scalable 0 1 0]
  demixing := some monoDefinition
  reconGain := none
  defaultWeight := 0

/-- A registry with one mono element. -/
def monoRegistry : Registry where
  codecConfigs := [monoConfig]
  audioElements := [monoElement]
  parameters := [monoDefinition]

/-- A down-mixing mode for one frame. -/
def monoValues : Parameter :=
  { monoDefinition with subblocks := [{ duration := 960, value := .demixing 2 }] }

/-- A packet that brings the mode. -/
def monoPacket : Packet where
  streamIndex := 0
  substream := 20
  data := [1, 2, 3]
  values := { demixing := some monoValues }

/-- The header of the registry. -/
def monoHeader : Bytes :=
  [0xF8, 0x06, 0x69, 0x61, 0x6D, 0x66, 0x00, 0x00,
    0x00, 0x0F, 0x01, 0x69, 0x70, 0x63, 0x6D, 0xC0, 0x07, 0x00, 0x00, 0x01, 0x10, 0x00, 0x00,
    0xBB, 0x80,
    0x08, 0x16, 0x05, 0x00, 0x01, 0x01, 0x14, 0x01, 0x01, 0x07, 0x80, 0xF7, 0x02, 0x00, 0xC0,
    0x07, 0xC0, 0x07, 0x00, 0x00, 0x20, 0x00, 0x01, 0x00]

theorem conforms_monoValues (carrying : List Nat) :
    Parameter.Conforms monoDefinition carrying monoValues where
  id := rfl
  kind := rfl
  rate := rfl
  selfTimed := rfl
  element := rfl
  copied := fun _ => ⟨rfl, rfl, rfl⟩
  regular := fun hself => by cases hself
  bounded := by decide
  fits := by
    intro subblock hmem
    rw [List.mem_singleton.1 hmem]
    show (2 : UInt8).toNat < 8
    decide

theorem descriptorsFit_mono : DescriptorsFit monoRegistry where
  codecConfigs := by
    intro config hmem body h
    cases List.mem_singleton.1 hmem
    cases h
    decide
  audioElements := by
    intro element hmem body h
    cases List.mem_singleton.1 hmem
    cases h
    decide
  mixPresentations := fun _ hmem => absurd hmem List.not_mem_nil

theorem isWritable_monoPacket : monoPacket.IsWritable monoRegistry where
  registered := ⟨_, List.mem_singleton_self _, rfl, rfl⟩
  conforms := ⟨by simp [monoPacket],
    fun values hvalues => by
      cases hvalues
      exact ⟨rfl, monoDefinition, rfl, fun carrying _ => conforms_monoValues carrying⟩,
    by simp [monoPacket]⟩
  frame := by decide
  blocks := by
    intro _ values hmem definition body hfind hbody
    cases List.mem_singleton.1 hmem
    cases hfind
    cases hbody
    decide

theorem encodeHeader_mono : encodeHeader monoRegistry = .ok monoHeader := rfl

set_option maxRecDepth 4000 in
/-- A stream of one packet, with another temporal unit behind it. -/
theorem session_writeStream_mono :
    ∃ muxer values, writeStream [[monoPacket], []] { registry := monoRegistry } = .ok () muxer
      ∧ ∀ input : Input, input.rest = muxer.sink.written → input.failure = none →
        Demuxer.session {} input
          = .played { monoRegistry with sequenceHeader := some ⟨0, 0⟩ } [monoPacket] values none
              [] :=
  session_writeStream (Nat.le_refl _) encodeHeader_mono descriptorsFit_mono
    (by decide +kernel) ⟨rfl, fun _ => rfl⟩ (by
      intro packets hmem
      rcases List.mem_pair.1 hmem with rfl | rfl
      · exact ⟨⟨by simp [monoPacket], monoPacket.values, by simp [monoPacket]⟩,
          by simpa using isWritable_monoPacket⟩
      · exact ⟨⟨by simp, {}, by simp⟩, by simp⟩)

end Muxer

end Iamf
