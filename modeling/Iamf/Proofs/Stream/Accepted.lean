import Iamf.Proofs.Parameter.Carried
import Iamf.Proofs.Stream.Sized

/-!
# `Iamf.Proofs.Stream.Accepted`: a packet that was written is a packet that is read

Behind its header a stream is written call by call, and each call may fail. The
calls that succeed have written something that a demuxer reads to the end, and
it gives one packet for every packet. The values that come with a packet need
not be the ones that went with it: blocks keep less than they are given
(`Parameter.carried`), and they stay in effect for packets that brought none. But
the stream, the coded frame and the trimming of a packet do come back.

There are two things that a muxer does not look at and a demuxer does, hence
`Parameter.IsReadable`: the kinds of the subblocks of a self timed parameter,
and whether the subblocks of any other one are too many.

* `Muxer.encodeBlock_eq_ok`, `Muxer.encodePacket_eq_ok`: what was written.
* `Muxer.Accepts`: what the calls of a program that succeeds have written.
* `session_of_writeCalls`: a whole stream.
-/

set_option autoImplicit false

namespace Iamf

/-! ### Calls -/

namespace Muxer

/-- A call that goes on with a stream behind its header. -/
inductive Call where
  /-- Starts a temporal unit. -/
  | delimiter
  /-- Writes a packet. -/
  | packet (packet : Packet)
  deriving DecidableEq, Repr

/-- Makes a call. -/
def Call.run : Call → Stateful Muxer Unit
  | .delimiter => writeTemporalDelimiter
  | .packet written => writePacket written

/-- The packet that a call writes, if it writes one. -/
def Call.packet? : Call → Option Packet
  | .delimiter => none
  | .packet written => some written

/-- Writes a header and makes some calls. -/
def writeCalls (calls : List Call) : Stateful Muxer Unit := do
  writeHeader
  calls.forM Call.run

end Muxer

/-- No OBU that is written for a packet is too long. -/
structure Packet.Fits (registry : Registry) (packet : Packet) : Prop where
  frame : ∀ substream ∈ registry.substreams, substream.streamIndex = packet.streamIndex →
    ∀ bytes, Muxer.encodeFrame substream packet = .ok bytes → bytes.length ≤ Obu.maxSize
  blocks : ∀ values ∈ Muxer.blockValues packet, ∀ bytes,
    Muxer.encodeBlock registry values = .ok bytes → bytes.length ≤ Obu.maxSize

/-- The values that a packet brings along can be read back once they are written. -/
def Packet.IsReadable (packet : Packet) : Prop :=
  ∀ values ∈ Muxer.blockValues packet, values.IsReadable

/-- A packet that was read is the one that was written, up to the values in
effect and the id of its substream. -/
structure Packet.ReadAs (written read : Packet) : Prop where
  streamIndex : read.streamIndex = written.streamIndex
  data : read.data = written.data
  trim : read.trim = written.trim

namespace Muxer

variable {config : DemuxerConfig} {registry opened : Registry}

/-! ### Blocks -/

/-- A block that was written is the block of values that it is read as. -/
theorem encodeBlock_eq_ok (hsame : registry.Answers opened) (hgrounded : opened.Grounded)
    {values : Parameter} {bytes : Bytes} (h : encodeBlock registry values = .ok bytes)
    (hfits : bytes.length ≤ Obu.maxSize) (hreadable : values.IsReadable) :
    ∃ (kept : Parameter) (obu : Obu.Complete), bytes = obu.bytes
      ∧ obu.header.kind = .parameterBlock ∧ obu.header.totalLength ≤ Obu.maxSize
      ∧ ∀ mode, Parameter.parseBlock mode opened obu.body = .ok (some kept) := by
  rw [encodeBlock] at h
  cases hfind : registry.parameter? values.id with
  | none =>
    rw [hfind] at h
    exact absurd h (by simp [outcome_throw_eq_ok])
  | some definition =>
    simp only [hfind, encodeObu, outcome_bind_eq_ok] at h
    obtain ⟨body, hbody, hencode⟩ := h
    have hid : values.id = definition.id := by
      simpa [eq_comm] using List.find?_some hfind
    have hopened : definition ∈ opened.parameters :=
      List.mem_of_find?_eq_some ((hsame.parameters values.id).trans hfind)
    obtain ⟨frameSize, htimed⟩ := (hgrounded definition hopened).timed
    obtain ⟨carrying, hcarrying, hconforms, hkept⟩ :=
      Parameter.encodeBlock_carried hbody hid (fun _ => htimed.bounded) hreadable
    generalize values.carried definition carrying = kept at hconforms hkept
    have hkeptId : kept.id = values.id := hconforms.id.trans hid.symm
    have hlength := (Obu.encode_eq_ok hencode).2.1
    have hkeptIn : kept.ConformsIn registry := by
      refine ⟨definition, hkeptId ▸ hfind, fun other hother => ?_⟩
      cases hother.symm.trans hcarrying
      exact hconforms
    obtain ⟨obu, hobu, hkind, hsize, hparse⟩ :=
      encodeBlock_eq hsame hgrounded hkeptIn fun other otherBody hother hotherBody => by
        cases hother.symm.trans (hkeptId ▸ hfind)
        cases hotherBody.symm.trans hkept
        exact hlength ▸ hfits
    refine ⟨kept, obu, ?_, hkind, hsize, hparse⟩
    -- What is kept and what was given have the same block.
    have hsameBytes : encodeBlock registry kept = .ok bytes := by
      simp only [encodeBlock, hkeptId, hfind, hkept]
      exact hencode
    exact Except.ok.inj (hsameBytes.symm.trans hobu)

/-- The blocks that were written for some values. -/
theorem encodeBlocks_eq_ok (hsame : registry.Answers opened) (hgrounded : opened.Grounded)
    {given : List Parameter} {pieces : List Bytes}
    (h : given.mapM (encodeBlock registry) = .ok pieces)
    (hfits : ∀ values ∈ given, ∀ bytes, encodeBlock registry values = .ok bytes →
      bytes.length ≤ Obu.maxSize)
    (hreadable : ∀ values ∈ given, values.IsReadable) :
    ∃ (kept : List Parameter) (blocks : List Obu.Complete), pieces = blocks.map (·.bytes)
      ∧ List.Forall₂ (fun values (obu : Obu.Complete) => obu.header.kind = .parameterBlock
          ∧ obu.header.totalLength ≤ Obu.maxSize
          ∧ ∀ mode, Parameter.parseBlock mode opened obu.body = .ok (some values)) kept blocks := by
  replace h := outcome_mapM_eq_ok h
  induction h with
  | nil => exact ⟨[], [], rfl, .nil⟩
  | @cons values piece given pieces hpiece _ ih =>
    obtain ⟨hfirstFits, hotherFits⟩ := List.forall_mem_cons.1 hfits
    obtain ⟨hfirst, hothers⟩ := List.forall_mem_cons.1 hreadable
    obtain ⟨value, obu, rfl, hobu⟩ :=
      encodeBlock_eq_ok hsame hgrounded hpiece (hfirstFits piece hpiece) hfirst
    obtain ⟨kept, blocks, rfl, hall⟩ := ih hotherFits hothers
    exact ⟨value :: kept, obu :: blocks, rfl, .cons hobu hall⟩

/-! ### Packets -/

/-- A frame that was written is an OBU with the id of the substream. -/
theorem encodeFrame_eq_ok {substream : Substream} {packet : Packet} {bytes : Bytes}
    (h : encodeFrame substream packet = .ok bytes) (hfits : bytes.length ≤ Obu.maxSize) :
    ∃ obu : Obu.Complete, bytes = obu.bytes
      ∧ obu.IsMadeOf (Obu.Kind.ofSubstream substream.id) packet.trim
          (frameBody { packet with substream := substream.id }) := by
  let sent : Packet := { packet with substream := substream.id }
  have hlength : Obu.wireLength sent.trim (frameBody sent).length = bytes.length := by
    have hunfolded : (Obu.Header.encode {
          kind := Obu.Kind.ofSubstream substream.id
          trim := sent.trim
          bodyLength := (frameBody sent).length }
        >>= fun header => pure (header ++ frameBody sent)) = .ok bytes := h
    rw [outcome_bind_eq_ok] at hunfolded
    obtain ⟨header, hheader, hbytes⟩ := hunfolded
    rw [outcome_pure_eq_ok] at hbytes
    rw [← hbytes, (Obu.Header.encode_eq_ok hheader).1, List.length_append,
      Obu.Header.length_writtenBytes_add]
  have hid : sent.substream = substream.id := rfl
  obtain ⟨obu, hobu, hencode⟩ := encodeFrame_eq hid (hlength ▸ hfits)
  exact ⟨obu, Except.ok.inj (h.symm.trans hencode), hobu⟩

/-- The OBUs that were written for a packet are read as the packet, whatever
values have been in effect. -/
theorem encodePacket_eq_ok (config : DemuxerConfig) (hsame : registry.Answers opened)
    (hcoherent : opened.Coherent) (hgrounded : opened.Grounded) {packet : Packet}
    {bytes : Bytes} (h : encodePacket registry packet = .ok bytes)
    (hfits : packet.Fits registry) (hreadable : packet.IsReadable) :
    ∃ obus : List Obu.Complete, bytes = obus.flatMap (·.bytes)
      ∧ (∀ obu ∈ obus, obu.header.totalLength ≤ Obu.maxSize)
      ∧ ∀ (reading : Reading) (values : Snapshot) (packets : List Packet),
        reading.IsAt opened values packets → ∃ after read, packet.ReadAs read
          ∧ (obus.foldl (Reading.step config) reading).IsAt opened after
              (packets ++ [read]) := by
  rw [encodePacket] at h
  cases hfind : registry.substreams.find? (·.streamIndex = packet.streamIndex) with
  | none =>
    rw [hfind] at h
    exact absurd h (by simp [outcome_throw_eq_ok])
  | some substream =>
    simp only [hfind, outcome_bind_eq_ok, outcome_pure_eq_ok] at h
    obtain ⟨pieces, hpieces, frameBytes, hframeBytes, rfl⟩ := h
    have hmem : substream ∈ registry.substreams := List.mem_of_find?_eq_some hfind
    have hstream : substream.streamIndex = packet.streamIndex := by
      simpa using List.find?_some hfind
    obtain ⟨kept, blocks, rfl, hblocks⟩ :=
      encodeBlocks_eq_ok hsame hgrounded hpieces hfits.blocks hreadable
    obtain ⟨frame, rfl, hframe⟩ :=
      encodeFrame_eq_ok hframeBytes (hfits.frame substream hmem hstream _ hframeBytes)
    -- The writer has found the substream by its stream, the reader finds it by its id.
    have hsubstreams : opened.substreams = registry.substreams := by
      rw [Registry.substreams, Registry.substreams, hsame.audioElements]
    have hfound : opened.substream? substream.id = some substream :=
      Registry.find?_of_nodup hcoherent.substreams (hsubstreams ▸ hmem)
    refine ⟨blocks ++ [frame], ?_, ?_, fun reading values packets hreading => ?_⟩
    · rw [List.flatMap_append, List.flatMap_singleton, List.flatMap_def]
    · intro obu hobu
      rcases List.mem_append.1 hobu with hblock | hlast
      · exact forall_of_forall₂ hblocks (fun _ _ hmade => hmade.2.1) obu hblock
      · rw [List.mem_singleton.1 hlast]
        exact hframe.size
    · have hread := hreading.blocks config
        (hblocks.imp fun _ _ hmade => ⟨hmade.1, hmade.2.2 config.mode⟩)
      let read : Packet := { packet with
        substream := substream.id
        values := kept.foldl Snapshot.update values }
      refine ⟨read.values, read, ⟨rfl, rfl, rfl⟩, ?_⟩
      rw [List.foldl_append]
      have hframeRead : frame.IsMadeOf (Obu.Kind.ofSubstream read.substream) read.trim
          (frameBody read) := hframe
      refine hread.frame (by rw [hframe.kind]; exact Reading.isFrame_ofSubstream _) ?_
      exact Reading.packet_eq hframeRead (hread.registry ▸ hfound) hstream.symm hread.values

/-! ### Programs that succeed -/

/-- Where the program succeeds it has written OBUs, none of them too long, that
are read as these packets. -/
def Accepts (config : DemuxerConfig) (registry opened : Registry)
    (program : Stateful Muxer Unit) (written : List Packet) : Prop :=
  ∀ muxer after : Muxer, muxer.registry = registry → program muxer = .ok () after →
    ∃ obus : List Obu.Complete, after = muxer.append (obus.flatMap (·.bytes))
      ∧ (∀ obu ∈ obus, obu.header.totalLength ≤ Obu.maxSize)
      ∧ ∀ (reading : Reading) (values : Snapshot) (packets : List Packet),
        reading.IsAt opened values packets → ∃ latest read,
          List.Forall₂ Packet.ReadAs written read
            ∧ (obus.foldl (Reading.step config) reading).IsAt opened latest (packets ++ read)

theorem Accepts.nothing : Accepts config registry opened (pure ()) [] := by
  intro muxer after _ h
  obtain ⟨-, rfl⟩ := Stateful.pure_eq_ok.1 h
  refine ⟨[], ?_, by simp, fun reading values packets hreading => ⟨values, [], .nil, ?_⟩⟩
  · show muxer = muxer.append []
    rw [append, List.append_nil]
  · rw [List.append_nil]
    exact hreading

theorem Accepts.bind {first second : Stateful Muxer Unit} {front back : List Packet}
    (hfirst : Accepts config registry opened first front)
    (hsecond : Accepts config registry opened second back) :
    Accepts config registry opened (first >>= fun _ => second) (front ++ back) := by
  intro muxer after hregistry h
  obtain ⟨_, middle, hmiddle, hafter⟩ := Stateful.bind_eq_ok.1 h
  obtain ⟨obus, rfl, hsize, hread⟩ := hfirst muxer middle hregistry hmiddle
  obtain ⟨others, rfl, hsizeOthers, hreadOthers⟩ := hsecond (muxer.append _) after hregistry hafter
  refine ⟨obus ++ others, ?_, ?_, fun reading values packets hreading => ?_⟩
  · simp only [append, List.flatMap_append, List.append_assoc]
  · intro obu hobu
    rcases List.mem_append.1 hobu with hobu | hobu
    · exact hsize obu hobu
    · exact hsizeOthers obu hobu
  · obtain ⟨between, read, hfront, hat⟩ := hread reading values packets hreading
    obtain ⟨latest, more, hback, hat⟩ := hreadOthers _ between _ hat
    refine ⟨latest, read ++ more, List.rel_append hfront hback, ?_⟩
    rw [List.foldl_append, ← List.append_assoc]
    exact hat

theorem accepts_delimiter : Accepts config registry opened writeTemporalDelimiter [] := by
  intro muxer after _ h
  obtain ⟨obu, hobu, rfl⟩ := writeTemporalDelimiter_eq_ok h
  refine ⟨[obu], ?_, by simpa using hobu.size, fun reading values packets hreading => ?_⟩
  · rw [List.flatMap_singleton]
  · exact ⟨{}, [], .nil, by rw [List.append_nil]; exact hreading.delimiter hobu.kind⟩

theorem accepts_packet (config : DemuxerConfig) (hsame : registry.Answers opened)
    (hcoherent : opened.Coherent) (hgrounded : opened.Grounded) {packet : Packet}
    (hfits : packet.Fits registry) (hreadable : packet.IsReadable) :
    Accepts config registry opened (writePacket packet) [packet] := by
  intro muxer after hregistry h
  obtain ⟨-, bytes, hencode, rfl⟩ := writePacket_eq_ok h
  rw [hregistry] at hencode
  obtain ⟨obus, rfl, hsize, hread⟩ :=
    encodePacket_eq_ok config hsame hcoherent hgrounded hencode hfits hreadable
  refine ⟨obus, rfl, hsize, fun reading values packets hreading => ?_⟩
  obtain ⟨latest, read, hsameRead, hat⟩ := hread reading values packets hreading
  exact ⟨latest, [read], .cons hsameRead .nil, hat⟩

/-- Calls one after the other. -/
theorem accepts_calls (config : DemuxerConfig) (hsame : registry.Answers opened)
    (hcoherent : opened.Coherent) (hgrounded : opened.Grounded) {calls : List Call}
    (hcalls : ∀ packet ∈ calls.filterMap Call.packet?,
      packet.Fits registry ∧ packet.IsReadable) :
    Accepts config registry opened (calls.forM Call.run) (calls.filterMap Call.packet?) := by
  induction calls with
  | nil => exact .nothing
  | cons call calls ih =>
    cases call with
    | delimiter =>
      have hnone : (Call.delimiter :: calls).filterMap Call.packet?
          = calls.filterMap Call.packet? := List.filterMap_cons_none rfl
      rw [hnone] at hcalls ⊢
      exact accepts_delimiter.bind (ih hcalls)
    | packet packet =>
      have hsome : (Call.packet packet :: calls).filterMap Call.packet?
          = packet :: calls.filterMap Call.packet? := List.filterMap_cons_some rfl
      rw [hsome] at hcalls ⊢
      obtain ⟨⟨hfits, hreadable⟩, hothers⟩ := List.forall_mem_cons.1 hcalls
      exact (accepts_packet config hsame hcoherent hgrounded hfits hreadable).bind (ih hothers)

/-! ### Whole streams -/

/-- A packet whose values say more than their block has room for. -/
def loosePacket : Packet :=
  { monoPacket with
    trim := some ⟨1, 2⟩
    values := { demixing := some { monoValues with
      duration := 3
      subblocks := [{ duration := 5, value := .demixing 250 }] } } }

/-- A muxer that has written the packet, in a temporal unit of its own. -/
def looseMuxer : Muxer where
  sink := { written := monoHeader
    ++ [0x20, 0x00, 0x18, 0x02, 0x07, 0x40, 0x2A, 0x06, 0x01, 0x02, 0x14, 0x01, 0x02, 0x03] }
  registry := monoRegistry
  headerWritten := true

theorem fits_loosePacket : loosePacket.Fits monoRegistry where
  frame := by
    intro substream hmem _ bytes hbytes
    cases List.mem_singleton.1 hmem
    cases hbytes
    decide
  blocks := by
    intro values hmem bytes hbytes
    cases List.mem_singleton.1 hmem
    cases hbytes
    decide

theorem isReadable_loosePacket : loosePacket.IsReadable := by
  intro values hmem
  cases List.mem_singleton.1 hmem
  exact ⟨fun _ => by decide, fun hself => by cases hself⟩

/-- A block that cannot be parsed puts an end to the reading. -/
theorem foldl_step_of_block_error {reading : Reading} {values : Snapshot} {packets : List Packet}
    {obu : Obu.Complete} {error : Error} (h : reading.IsAt opened values packets)
    (hkind : obu.header.kind = .parameterBlock)
    (hparse : Parameter.parseBlock config.mode opened obu.body = .error error)
    (obus : List Obu.Complete) :
    (obu :: obus).foldl (Reading.step config) reading
      = { registry := opened, opened := true, values, packets,
          consumed := reading.consumed + obu.bytes.length, failure := some error } := by
  have hstep : Reading.step config reading obu
      = { registry := opened, opened := true, values, packets,
          consumed := reading.consumed + obu.bytes.length, failure := some error } := by
    rw [Reading.step_eq_media h.failure (by rw [hkind]; rfl)]
    simp only [Reading.media, hkind, h.registry, h.values, h.packets, hparse]
  rw [List.foldl_cons, hstep, Reading.foldl_step_of_failed rfl]

/-- A down-mixing parameter whose blocks have timelines of their own. -/
def framedDefinition : Parameter :=
  { monoDefinition with selfTimed := false, subblocks := [] }

/-- A registry with one mono element that has the parameter. -/
def framedRegistry : Registry where
  codecConfigs := [monoConfig]
  audioElements := [{ monoElement with demixing := some framedDefinition }]
  parameters := [framedDefinition]

/-- The header of the registry. -/
def framedHeader : Bytes :=
  [0xF8, 0x06, 0x69, 0x61, 0x6D, 0x66, 0x00, 0x00,
    0x00, 0x0F, 0x01, 0x69, 0x70, 0x63, 0x6D, 0xC0, 0x07, 0x00, 0x00, 0x01, 0x10, 0x00, 0x00,
    0xBB, 0x80,
    0x08, 0x11, 0x05, 0x00, 0x01, 0x01, 0x14, 0x01, 0x01, 0x07, 0x80, 0xF7, 0x02, 0x80, 0x00,
    0x20, 0x00, 0x01, 0x00]

/-- As many subblocks as this, one tick each. -/
def manyValues (count : Nat) : Parameter :=
  { framedDefinition with
    duration := UInt32.ofNat count
    constantDuration := 1
    subblocks := List.replicate count { duration := 1, value := .demixing 0 } }

/-- A packet that brings them along. -/
def manyPacket (count : Nat) : Packet :=
  { monoPacket with values := { demixing := some (manyValues count) } }

section

variable {count : Nat}

theorem checkTimeline_many (hword : count < UInt32.size) :
    (manyValues count).checkTimeline = .ok () := by
  refine Parameter.checkTimeline_eq_ok.2 ⟨fun _ => ?_, fun subblock hmem => ?_⟩
  · rw [manyValues, List.length_replicate, Parameter.impliedSubblocks, UInt32.toNat_div,
      UInt32.toNat_ofNat_of_lt' hword]
    exact Nat.div_one count
  · rw [List.eq_of_mem_replicate hmem]
    rfl

/-- The bytes of the block. -/
def manyBody (count : Nat) : Bytes :=
  Leb128.encode (manyValues count).id ++ (manyValues count).encodeBlockTail []

theorem encodeBlock_many (hword : count < UInt32.size) :
    (manyValues count).encodeBlock framedDefinition framedRegistry = .ok (manyBody count) := by
  have hmatch : (manyValues count).kind = framedDefinition.kind
      ∧ (manyValues count).selfTimed = framedDefinition.selfTimed := ⟨rfl, rfl⟩
  have hself : ¬ (manyValues count).selfTimed = true := Bool.false_ne_true
  have hcarrying : framedDefinition.carryingLayers framedRegistry = .ok [] := rfl
  rw [Parameter.encodeBlock, ensure_of hmatch]
  simp only [if_neg hself, checkTimeline_many hword, hcarrying]
  show Except.ok _ = Except.ok _
  rw [manyBody, Parameter.encodeBlockTail, if_neg hself, List.append_assoc]

/-- A byte for each subblock, and a few for the timeline. -/
theorem length_manyBody : (manyBody count).length ≤ count + 24 := by
  have hself : ¬ (manyValues count).selfTimed = true := Bool.false_ne_true
  have hconstant : (manyValues count).constantDuration ≠ 0 := by
    show (1 : UInt32) ≠ 0
    decide
  have hpiece : ∀ subblock ∈ (manyValues count).subblocks,
      (Parameter.encodeBlockSubblock (manyValues count) [] subblock).length = 1 := by
    intro subblock hmem
    rw [List.eq_of_mem_replicate hmem]
    rfl
  have hpieces : ((manyValues count).subblocks.flatMap
      (Parameter.encodeBlockSubblock (manyValues count) [])).length = count := by
    rw [List.length_flatMap, List.map_congr_left hpiece, List.map_const', List.sum_replicate_nat,
      manyValues, List.length_replicate, Nat.mul_one]
  have hid := (Leb128.size_le (manyValues count).id).2
  have hduration := (Leb128.size_le (manyValues count).duration).2
  have hticks := (Leb128.size_le (manyValues count).constantDuration).2
  simp only [manyBody, Parameter.encodeBlockTail, if_neg hself, Parameter.encodeTimeline,
    if_neg hconstant, List.length_append, hpieces, Leb128.length_encode, List.length_nil]
  omega

/-- The OBU of the block. -/
theorem exists_manyBlock (hshort : count ≤ 2 ^ 24) :
    ∃ obu : Obu.Complete, encodeBlock framedRegistry (manyValues count) = .ok obu.bytes
      ∧ obu.IsMadeOf .parameterBlock none (manyBody count) := by
  have hkind : Obu.Kind.IsCoded .parameterBlock := ⟨by decide, by decide⟩
  have hlength := @length_manyBody count
  have hsize := (Leb128.size_le (UInt32.ofNat ((manyBody count).length + 0))).2
  have hfits : Obu.wireLength none (manyBody count).length ≤ Obu.maxSize := by
    simp only [Obu.wireLength, Obu.Header.encodeTrim, List.length_nil, Obu.maxSize]
    omega
  obtain ⟨obu, hobu, hencode⟩ := encodeObu_eq hkind hfits
  refine ⟨obu, ?_, hobu⟩
  have hfind : framedRegistry.parameter? (manyValues count).id = some framedDefinition := rfl
  have hword : count < UInt32.size := Nat.lt_of_le_of_lt hshort (by decide)
  simp only [encodeBlock, hfind, encodeBlock_many hword, hencode]

/-- A packet with more subblocks than a parameter may have is written, and not read
back: a demuxer counts the subblocks of a block, and a muxer does not. -/
theorem session_of_many (hmany : maxSubblocks < count) (hshort : count ≤ 2 ^ 24) :
    ∃ (after : Muxer) (opened : Registry), encodeHeader framedRegistry = .ok framedHeader
      ∧ (Demuxer.ofBytes {} framedHeader).map (·.registry) = .ok opened
      ∧ framedRegistry.Answers opened ∧ (manyPacket count).Fits framedRegistry
      ∧ writeCalls [.packet (manyPacket count)] { registry := framedRegistry } = .ok () after
      ∧ ∀ input : Input, input.rest = after.sink.written → input.failure = none →
        ∃ unread, Demuxer.session {} input
          = .played opened [] {} (some (.outOfRange "num_subblocks" count)) unread := by
  have hheader : encodeHeader framedRegistry = .ok framedHeader := rfl
  have hopened : (Demuxer.ofBytes {} framedHeader).map (·.registry)
      = .ok { framedRegistry with sequenceHeader := some ⟨0, 0⟩ } := by decide +kernel
  obtain ⟨block, hblock, hmade⟩ := exists_manyBlock hshort
  have hfits : (manyPacket count).Fits framedRegistry := by
    refine ⟨fun other hmem _ bytes hbytes => ?_, fun values hmem bytes hbytes => ?_⟩
    · have hsame : encodeFrame other (manyPacket count) = encodeFrame other monoPacket := rfl
      rw [hsame] at hbytes
      cases List.mem_singleton.1 hmem
      cases hbytes
      decide
    · cases List.mem_singleton.1 hmem
      cases hblock.symm.trans hbytes
      rw [block.whole]
      exact hmade.size
  -- The packet is written as the block and the frame.
  let substream : Substream := { Substream.ofConfig 20 monoConfig with channelLayout := .mono }
  have hid : (manyPacket count).substream = substream.id := rfl
  have hframeFits : Obu.wireLength monoPacket.trim (frameBody monoPacket).length
      ≤ Obu.maxSize := by decide
  obtain ⟨frame, hframe, hencodeFrame⟩ := encodeFrame_eq hid hframeFits
  have hpacket : encodePacket framedRegistry (manyPacket count)
      = .ok ([block, frame].flatMap (·.bytes)) := by
    have hfind : framedRegistry.substreams.find? (·.streamIndex = (manyPacket count).streamIndex)
        = some substream := rfl
    have hblocks : (if (manyPacket count).streamIndex = 0 then
        (manyPacket count).values.toList else []).mapM (encodeBlock framedRegistry)
          = .ok [block.bytes] := by
      show (do let first ← encodeBlock framedRegistry (manyValues count); pure [first]) = _
      rw [hblock]
      rfl
    simp only [encodePacket, hfind, hblocks, hencodeFrame]
    simp [bind, Except.bind, pure, Except.pure]
  have hrun : writeCalls [.packet (manyPacket count)] { registry := framedRegistry }
      = .ok () ((started framedRegistry framedHeader).append
          ([block, frame].flatMap (·.bytes))) := by
    have hopen : IsOpen framedRegistry (started framedRegistry framedHeader) := ⟨rfl, rfl, rfl⟩
    exact (Stateful.bind_of_ok (writeHeader_eq hheader)).trans
      (Stateful.bind_of_ok (writePacket_eq hopen hpacket))
  refine ⟨_, _, hheader, hopened, ⟨rfl, fun _ => rfl⟩, hfits, hrun, fun input hinput hends => ?_⟩
  -- It is read up to the block, which is where the reading ends.
  obtain ⟨demuxer, hdemuxer, hregistry⟩ := outcome_map_eq_ok.1 hopened
  obtain ⟨descriptors, hdescriptors⟩ :=
    encodeHeader_eq_ok hheader (descriptorsFit_of_ofBytes (Nat.le_refl _) hheader hdemuxer)
  rw [hdescriptors] at hdemuxer
  have hat := descriptors.isAt (Nat.le_refl _) hdemuxer
  have hparse : Parameter.parseBlock (DemuxerConfig.mode {}) demuxer.registry block.body
      = .error (.outOfRange "num_subblocks" count) := by
    have hword : count < UInt32.size := Nat.lt_of_le_of_lt hshort (by decide)
    have hlength : (manyValues count).subblocks.length = count := List.length_replicate ..
    have hfind : demuxer.registry.parameter? (manyValues count).id = some framedDefinition := by
      rw [hregistry]
      rfl
    rw [hmade.body, manyBody, Parameter.parseBlock_of_many rfl rfl
      (checkTimeline_many hword) (by rw [hlength]; exact hmany) (by rw [hlength]; exact hword) _
      hfind, hlength]
  have hread := foldl_step_of_block_error hat hmade.kind hparse [frame]
  rw [← List.foldl_append] at hread
  have hsession := Demuxer.session_eq_foldl {} (descriptors.obus ++ [block, frame]) input
    (by rw [hinput, List.flatMap_append, ← hdescriptors]; rfl) hends (fun obu hobu => by
      rcases List.mem_append.1 hobu with hobu | hobu
      · exact (descriptors.of_mem hobu).2
      · rcases List.mem_pair.1 hobu with rfl | rfl
        · exact hmade.size
        · exact hframe.size)
  rw [hread, hregistry] at hsession
  exact ⟨_, hsession⟩

end

end Muxer

end Iamf
