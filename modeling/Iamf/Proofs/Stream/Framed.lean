import Iamf.Proofs.Stateful.Atomic
import Iamf.Proofs.Stream.Sized

/-!
# `Iamf.Proofs.Stream.Framed`: the OBUs of a run of muxer calls

A muxer encodes all that a call writes before it hands anything to the sink, so
a call that fails has written nothing, wherever in a header or behind whichever
parameter block the failure is. A call that succeeds has written the `contents` of
its request: kinds, trimming and bodies, which are put behind headers one after
the other. No header reaches into the bytes of another OBU: parsing headers over
and over cuts the output into what was put in.

* `Obu.split_flatMap`: a stream of OBUs is cut into these OBUs.
* `Muxer.atomic_program`: the calls of a muxer.
* `Muxer.writes_contents`: what one call writes.
* `Muxer.written_run`: what a run of calls writes.
-/

set_option autoImplicit false

namespace Iamf

/-! ### Cutting bytes into OBUs -/

namespace Obu

/-- The headers and bodies of the OBUs that some bytes consist of. Every header says
where the next one is. -/
def split (bytes : Bytes) : Except Error (List (Header × Bytes)) :=
  if bytes = [] then .ok []
  else
    match _h : Header.parse bytes with
    | .error error => .error error
    | .ok header =>
      if bytes.length < header.totalLength then .error (.truncated "OBU body")
      else do
        let others ← split (bytes.drop header.totalLength)
        return (header, (bytes.take header.totalLength).drop header.headerLength) :: others
  termination_by bytes.length
  decreasing_by
    have htwo := Header.two_le_totalLength _h
    rw [List.length_drop]
    omega

/-- A stream of OBUs is cut into these OBUs. -/
theorem split_flatMap (obus : List Complete) :
    split (obus.flatMap (·.bytes)) = .ok (obus.map fun obu => (obu.header, obu.body)) := by
  induction obus with
  | nil => rw [List.flatMap_nil, split, if_pos rfl, List.map_nil]
  | cons obu obus ih =>
    have htwo := obu.two_le_length
    have hparse : Header.parse (obu.bytes ++ obus.flatMap (·.bytes)) = .ok obu.header :=
      obu.parse_of_prefix ((List.take_prefix _ _).trans (List.prefix_append _ _))
    have hlong : ¬ (obu.bytes ++ obus.flatMap (·.bytes)).length < obu.header.totalLength := by
      rw [List.length_append, obu.whole]
      omega
    have hnonempty : obu.bytes ++ obus.flatMap (·.bytes) ≠ [] := by
      exact List.append_ne_nil_of_left_ne_nil (List.ne_nil_of_length_pos (by omega)) _
    rw [List.flatMap_cons, split, if_neg hnonempty]
    split
    · rename_i error hfailed
      cases hparse.symm.trans hfailed
    · rename_i header hfound
      cases hparse.symm.trans hfound
      rw [if_neg hlong, ← obu.whole, List.drop_left, List.take_left, ih]
      rfl

/-- What an OBU is made from. -/
structure Content where
  /-- What the OBU carries. -/
  kind : Kind
  /-- Trimming, if the header has it. -/
  trim : Option Trim := none
  /-- The body. -/
  body : Bytes
  deriving DecidableEq, Repr

namespace Content

/-- The bytes of the OBU. -/
def bytes (content : Content) : Bytes :=
  Header.writtenBytes content.kind content.trim content.body.length ++ content.body

/-- The header and the body that the OBU is cut into. -/
def framed (content : Content) : Header × Bytes :=
  (Header.written content.kind content.trim content.body.length, content.body)

theorem length_bytes (content : Content) :
    content.bytes.length = wireLength content.trim content.body.length := by
  rw [bytes, List.length_append, Header.length_writtenBytes_add]

/-- The bytes of an OBU that is not too long are complete. -/
theorem exists_complete {content : Content} (hkind : content.kind.IsCoded)
    (h : content.bytes.length ≤ maxSize) :
    ∃ obu : Complete, obu.bytes = content.bytes ∧ (obu.header, obu.body) = content.framed := by
  rw [length_bytes] at h
  obtain ⟨obu, hbytes, hheader, hbody⟩ := Obu.exists_complete hkind h
  exact ⟨obu, hbytes, by rw [hheader, hbody, framed]⟩

/-- OBUs that are not too long are cut apart where they were put together. -/
theorem split_contents {contents : List Content}
    (hkinds : ∀ content ∈ contents, content.kind.IsCoded)
    (h : ∀ content ∈ contents, content.bytes.length ≤ maxSize) :
    split (contents.flatMap bytes) = .ok (contents.map framed) := by
  obtain ⟨obus, hbytes, hframed⟩ : ∃ obus : List Complete,
      contents.map bytes = obus.map (·.bytes)
        ∧ contents.map framed = obus.map fun obu => (obu.header, obu.body) := by
    induction contents with
    | nil => exact ⟨[], rfl, rfl⟩
    | cons content contents ih =>
      obtain ⟨hkind, hothers⟩ := List.forall_mem_cons.1 hkinds
      obtain ⟨hfits, hshort⟩ := List.forall_mem_cons.1 h
      obtain ⟨obu, hobu, hmade⟩ := exists_complete hkind hfits
      obtain ⟨obus, hbytes, hframed⟩ := ih hothers hshort
      refine ⟨obu :: obus, ?_, ?_⟩
      · rw [List.map_cons, List.map_cons, hobu, hbytes]
      · rw [List.map_cons, List.map_cons, hmade, hframed]
  rw [List.flatMap_def, hbytes, ← List.flatMap_def, split_flatMap, hframed]

end Content

end Obu

/-! ### The calls of a muxer -/

namespace Muxer

/-- One call of a muxer. -/
inductive Request where
  /-- Writing the descriptors. -/
  | header
  /-- Starting a temporal unit. -/
  | delimiter
  /-- Writing a packet. -/
  | packet (packet : Packet)
  deriving DecidableEq, Repr

/-- The program of a request. -/
def Request.program : Request → Stateful Muxer Unit
  | header => writeHeader
  | delimiter => writeTemporalDelimiter
  | packet written => writePacket written

theorem atomic_write (bytes : Bytes) : Stateful.Atomic (onSink (Sink.write bytes)) := by
  refine .onPart (fun _ => rfl) (.get_bind fun sink => ?_)
  cases sink.refusal? bytes.length with
  | some text => exact Stateful.atomic_throw _
  | none => exact Stateful.Total.atomic fun state => ⟨(), _, rfl⟩

/-- Everything is encoded before anything is written. -/
theorem atomic_program (request : Request) : Stateful.Atomic request.program := by
  cases request with
  | header =>
    exact .get_bind fun _ => .lift_bind fun _ =>
      (atomic_write _).bind fun _ => Stateful.total_modify _
  | delimiter => exact .lift_bind fun _ => atomic_write _
  | packet written => exact .get_bind fun _ => .ensure_bind (.lift_bind fun _ => atomic_write _)

/-! ### What a call writes -/

/-- The audio frame of a packet. The kind implies the first ids; the others stand in
front of the coded frame. -/
def frameContent (substream : Substream) (packet : Packet) : Obu.Content :=
  if substream.id ≤ 17 then
    { kind := .impliedFrame substream.id.toUInt8, trim := packet.trim, body := packet.data }
  else
    { kind := .audioFrame, trim := packet.trim
      body := Leb128.encode substream.id ++ packet.data }

/-- The body of a parameter block. -/
def blockBody (registry : Registry) (values : Parameter) : Except Error Bytes :=
  match registry.parameter? values.id with
  | none => throw (.invalidModel (.undefinedParameter values.id))
  | some definition => values.encodeBlock definition registry

/-- What the OBUs of a request are made from. A header is the sequence header, then
the codec configs, elements and presentations as they were registered. A packet is
the parameter blocks of its values, if it is one of the first stream, and then its
audio frame. -/
def Request.contents (registry : Registry) : Request → Except Error (List Obu.Content)
  | header => do
    let configs ← registry.codecConfigs.mapM CodecConfig.encode
    let elements ← registry.audioElements.mapM AudioElement.encode
    let mixes ← registry.mixPresentations.mapM MixPresentation.encode
    return { kind := .sequenceHeader, body := (sequenceHeader registry).encode }
      :: (configs.map (fun body => { kind := .codecConfig, body })
        ++ elements.map (fun body => { kind := .audioElement, body })
        ++ mixes.map (fun body => { kind := .mixPresentation, body }))
  | delimiter => return [{ kind := .temporalDelimiter, body := [] }]
  | packet written => do
    match registry.substreams.find? (·.streamIndex = written.streamIndex) with
    | none => throw (.invalidModel (.unknownStream written.streamIndex))
    | some substream =>
      let values := if written.streamIndex = 0 then
        written.values.mixGain.toList ++ written.values.demixing.toList
          ++ written.values.reconGain.toList
        else []
      let blocks ← values.mapM (blockBody registry)
      return blocks.map (fun body => { kind := .parameterBlock, body })
        ++ [frameContent substream written]

/-- A body that was put into an OBU. -/
theorem encodeObu_eq_ok {kind : Obu.Kind} {encoded : Except Error Bytes} {bytes : Bytes}
    (h : encodeObu kind encoded = .ok bytes) :
    ∃ body, encoded = .ok body ∧ bytes = ({ kind, body } : Obu.Content).bytes := by
  rw [encodeObu, outcome_bind_eq_ok] at h
  obtain ⟨body, hbody, hencode⟩ := h
  exact ⟨body, hbody, (Obu.encode_eq_ok hencode).1⟩

/-- Bodies that were put into OBUs of one kind. -/
theorem exists_bodies {α : Type} {kind : Obu.Kind} {encode : α → Except Error Bytes}
    {items : List α} {pieces : List Bytes}
    (h : items.mapM (fun item => encodeObu kind (encode item)) = .ok pieces) :
    ∃ bodies, items.mapM encode = .ok bodies
      ∧ pieces = bodies.map fun body => ({ kind, body } : Obu.Content).bytes := by
  replace h := outcome_mapM_eq_ok h
  induction h with
  | nil => exact ⟨[], rfl, rfl⟩
  | cons hpiece _ ih =>
    obtain ⟨body, hbody, rfl⟩ := encodeObu_eq_ok hpiece
    obtain ⟨bodies, hbodies, rfl⟩ := ih
    refine ⟨body :: bodies, ?_, rfl⟩
    rw [List.mapM_cons, hbody, hbodies]
    rfl

theorem encodeHeader_contents {registry : Registry} {bytes : Bytes}
    (h : encodeHeader registry = .ok bytes) :
    ∃ contents, Request.header.contents registry = .ok contents
      ∧ bytes = contents.flatMap Obu.Content.bytes := by
  simp only [encodeHeader, outcome_bind_eq_ok, outcome_pure_eq_ok] at h
  obtain ⟨sequence, hsequence, configs, hconfigs, elements, helements, mixes, hmixes, rfl⟩ := h
  obtain ⟨first, hfirst, rfl⟩ := encodeObu_eq_ok hsequence
  cases hfirst
  obtain ⟨configBodies, hconfigBodies, rfl⟩ := exists_bodies hconfigs
  obtain ⟨elementBodies, helementBodies, rfl⟩ := exists_bodies helements
  obtain ⟨mixBodies, hmixBodies, rfl⟩ := exists_bodies hmixes
  simp only [Request.contents, outcome_bind_eq_ok, outcome_pure_eq_ok]
  refine ⟨_, ⟨configBodies, hconfigBodies, elementBodies, helementBodies, mixBodies, hmixBodies,
    rfl⟩, ?_⟩
  simp only [List.flatMap_cons, List.flatMap_append, List.flatMap_map, ← List.flatMap_def,
    List.append_assoc]

/-- An audio frame that was written. -/
theorem encodeFrame_contents {substream : Substream} {packet : Packet} {bytes : Bytes}
    (h : encodeFrame substream packet = .ok bytes) :
    bytes = (frameContent substream packet).bytes := by
  rw [encodeFrame, outcome_bind_eq_ok] at h
  obtain ⟨header, hheader, hbytes⟩ := h
  rw [outcome_pure_eq_ok] at hbytes
  rw [← hbytes, (Obu.Header.encode_eq_ok hheader).1, frameContent]
  by_cases hid : substream.id ≤ 17
  · have hkind : Obu.Kind.ofSubstream substream.id = .impliedFrame substream.id.toUInt8 :=
      if_pos hid
    rw [if_pos hid, hkind]
    rfl
  · have hkind : Obu.Kind.ofSubstream substream.id = .audioFrame := if_neg hid
    rw [if_neg hid, hkind]
    rfl

theorem encodePacket_contents {registry : Registry} {packet : Packet} {bytes : Bytes}
    (h : encodePacket registry packet = .ok bytes) :
    ∃ contents, (Request.packet packet).contents registry = .ok contents
      ∧ bytes = contents.flatMap Obu.Content.bytes := by
  simp only [encodePacket, Request.contents] at h ⊢
  cases hfind : registry.substreams.find? (·.streamIndex = packet.streamIndex) with
  | none =>
    rw [hfind] at h
    exact absurd h (by simp [outcome_throw_eq_ok])
  | some substream =>
    simp only [hfind, outcome_bind_eq_ok, outcome_pure_eq_ok] at h ⊢
    obtain ⟨pieces, hpieces, frame, hframe, rfl⟩ := h
    have hblocks : (fun values => encodeObu .parameterBlock (blockBody registry values))
        = encodeBlock registry := by
      funext values
      rw [encodeBlock, blockBody]
      cases registry.parameter? values.id <;> rfl
    obtain ⟨bodies, hbodies, rfl⟩ := exists_bodies (hblocks ▸ hpieces)
    refine ⟨_, ⟨bodies, hbodies, rfl⟩, ?_⟩
    rw [encodeFrame_contents hframe, List.flatMap_append, List.flatMap_map, ← List.flatMap_def,
      List.flatMap_singleton]

/-- A call that succeeds has written what its request is made of, and has left the
descriptors as they were. -/
theorem writes_contents {request : Request} {muxer after : Muxer}
    (h : request.program muxer = .ok () after) :
    ∃ contents, request.contents muxer.registry = .ok contents
      ∧ after.registry = muxer.registry
      ∧ after.sink.written = muxer.sink.written ++ contents.flatMap Obu.Content.bytes := by
  cases request with
  | header =>
    obtain ⟨header, hencode, rfl⟩ := writeHeader_eq_ok h
    obtain ⟨contents, hcontents, rfl⟩ := encodeHeader_contents hencode
    exact ⟨contents, hcontents, rfl, rfl⟩
  | delimiter =>
    have hwritten : (liftExcept (encodeObu .temporalDelimiter (pure []))
        >>= fun delimiter => onSink (Sink.write delimiter)) muxer = .ok () after := h
    simp only [Stateful.bind_eq_ok, Stateful.liftExcept_eq_ok] at hwritten
    obtain ⟨bytes, _, ⟨hencode, rfl⟩, hwrite⟩ := hwritten
    obtain ⟨body, hbody, rfl⟩ := encodeObu_eq_ok hencode
    cases hbody
    exact ⟨_, rfl, by rw [write_eq_ok hwrite]; exact ⟨rfl, by rw [List.flatMap_singleton]; rfl⟩⟩
  | packet packet =>
    obtain ⟨-, bytes, hencode, rfl⟩ := writePacket_eq_ok h
    obtain ⟨contents, hcontents, rfl⟩ := encodePacket_contents hencode
    exact ⟨contents, hcontents, rfl, rfl⟩

/-- All OBUs that are ever written have kinds with a code of their own. -/
theorem isCoded_of_contents {registry : Registry} {request : Request}
    {contents : List Obu.Content} (h : request.contents registry = .ok contents) :
    ∀ content ∈ contents, content.kind.IsCoded := by
  have hmap : ∀ {kind : Obu.Kind} {bodies : List Bytes}, kind.IsCoded →
      ∀ content ∈ bodies.map (fun body => ({ kind, body } : Obu.Content)),
        content.kind.IsCoded := by
    intro kind bodies hkind content hmem
    obtain ⟨body, -, rfl⟩ := List.mem_map.1 hmem
    exact hkind
  cases request with
  | header =>
    simp only [Request.contents, outcome_bind_eq_ok, outcome_pure_eq_ok] at h
    obtain ⟨configs, -, elements, -, mixes, -, rfl⟩ := h
    simp only [List.forall_mem_cons, List.forall_mem_append]
    exact ⟨⟨by decide, by decide⟩, ⟨hmap ⟨by decide, by decide⟩, hmap ⟨by decide, by decide⟩⟩,
      hmap ⟨by decide, by decide⟩⟩
  | delimiter =>
    cases h
    exact List.forall_mem_singleton.2 ⟨by decide, by decide⟩
  | packet packet =>
    simp only [Request.contents] at h
    split at h
    · exact absurd h (by simp [outcome_throw_eq_ok])
    · rename_i substream _
      simp only [outcome_bind_eq_ok, outcome_pure_eq_ok] at h
      obtain ⟨bodies, -, rfl⟩ := h
      refine List.forall_mem_append.2 ⟨hmap ⟨by decide, by decide⟩,
        List.forall_mem_singleton.2 ?_⟩
      have hcoded := Obu.Kind.isCoded_ofSubstream substream.id
      rw [Obu.Kind.ofSubstream] at hcoded
      rw [frameContent]
      by_cases hid : substream.id ≤ 17
      · rw [if_pos hid]
        exact (if_pos hid ▸ hcoded :)
      · rw [if_neg hid]
        exact (if_neg hid ▸ hcoded :)

/-! ### Runs -/

/-- The calls of a run that succeed, and what they have written. -/
theorem exists_contents (start : Muxer) (requests : List Request) :
    ∃ contents : List (List Obu.Content),
      (Stateful.succeeding Request.program start requests).mapM
          (·.contents start.registry) = .ok contents
        ∧ (Stateful.run Request.program start requests).sink.written
          = start.sink.written ++ contents.flatten.flatMap Obu.Content.bytes
        ∧ ∀ content ∈ contents.flatten, content.kind.IsCoded := by
  rw [← Stateful.run_succeeding atomic_program]
  refine Stateful.run_induction atomic_program
    (motive := fun (state : Muxer) done => ∃ contents : List (List Obu.Content),
      done.mapM (·.contents state.registry) = .ok contents
        ∧ (Stateful.run Request.program state done).sink.written
          = state.sink.written ++ contents.flatten.flatMap Obu.Content.bytes
        ∧ ∀ content ∈ contents.flatten, content.kind.IsCoded) ?_ ?_ start requests
  · exact fun state => ⟨[], rfl, (List.append_nil _).symm, by simp⟩
  · rintro state request after requests hrun ⟨contents, hmap, hwritten, hcoded⟩
    obtain ⟨first, hfirst, hregistry, hafter⟩ := writes_contents hrun
    have hleft : Stateful.left request.program state = after := by
      rw [Stateful.left, hrun]
    refine ⟨first :: contents, ?_, ?_, ?_⟩
    · rw [hregistry] at hmap
      rw [List.mapM_cons, hfirst, hmap]
      rfl
    · rw [Stateful.run, List.foldl_cons, hleft, ← Stateful.run, hwritten, hafter,
        List.flatten_cons, List.flatMap_append, List.append_assoc]
    · rw [List.flatten_cons]
      exact List.forall_mem_append.2 ⟨isCoded_of_contents hfirst, hcoded⟩

/-- Whatever calls are made of a muxer, those that fail can be left out: the others
succeed as they did, and lead to the same muxer and the same output. Its bytes are
those of the contents of the calls that succeeded, in order. If none of their OBUs
is too long, parsing headers cuts the output into just these OBUs. -/
theorem written_run (registry : Registry) (requests : List Request) :
    let start : Muxer := { registry }
    let done := Stateful.succeeding Request.program start requests
    let output := (Stateful.run Request.program start requests).sink.written
    Stateful.run Request.program start done = Stateful.run Request.program start requests
      ∧ Stateful.history Request.program start done
        = (Stateful.history Request.program start requests).filter (·.2.isOk)
      ∧ ∃ contents : List (List Obu.Content),
        done.mapM (·.contents registry) = .ok contents
          ∧ output = contents.flatten.flatMap Obu.Content.bytes
          ∧ ((∀ content ∈ contents.flatten, content.bytes.length ≤ Obu.maxSize) →
            Obu.split output = .ok (contents.flatten.map Obu.Content.framed)) := by
  intro start done output
  obtain ⟨contents, hdone, hwritten, hcoded⟩ := exists_contents start requests
  have houtput : output = contents.flatten.flatMap Obu.Content.bytes := hwritten
  refine ⟨Stateful.run_succeeding atomic_program start requests,
    Stateful.history_of_succeeding atomic_program start requests,
    contents, hdone, houtput, fun hshort => ?_⟩
  rw [houtput]
  exact Obu.Content.split_contents hcoded hshort

/-- A registry with a codec config alone. -/
def configRegistry : Registry where
  codecConfigs := [{
    id := 1, codec := .pcm { littleEndian := true, depth := .bits16 }, frameSize := 960
    seekPreroll := 0, sampleRate := 48000, decoderConfig := [] }]

/-- A packet that comes too early, and comes once more behind the header. -/
def earlyRequests : List Request :=
  let packet : Packet := { streamIndex := 0, substream := 20, data := [1, 2, 3] }
  [.packet packet, .header, .packet packet, .delimiter]

/-- What is written all the same. -/
def earlyContents : List Obu.Content :=
  [{ kind := .sequenceHeader, body := [0x69, 0x61, 0x6D, 0x66, 0, 0] },
    { kind := .codecConfig
      body := [1, 0x69, 0x70, 0x63, 0x6D, 0xC0, 7, 0, 0, 1, 16, 0, 0, 0xBB, 0x80] },
    { kind := .temporalDelimiter, body := [] }]

/-- Neither packet is written, the second one because its stream is unknown. The output is
a header of two descriptors and a temporal delimiter. -/
theorem written_run_early :
    let start : Muxer := { registry := configRegistry }
    Stateful.succeeding Request.program start earlyRequests = [.header, .delimiter]
      ∧ (∀ content ∈ earlyContents, content.bytes.length ≤ Obu.maxSize)
      ∧ Obu.split (Stateful.run Request.program start earlyRequests).sink.written
        = .ok (earlyContents.map Obu.Content.framed) := by
  intro start
  have hdone : Stateful.succeeding Request.program start earlyRequests
      = [.header, .delimiter] := by decide +kernel
  have hshort : ∀ content ∈ earlyContents, content.bytes.length ≤ Obu.maxSize := by
    decide +kernel
  obtain ⟨-, -, contents, hcontents, -, hsplit⟩ := written_run configRegistry earlyRequests
  have hpieces : [Request.header, .delimiter].mapM (·.contents configRegistry)
      = .ok [earlyContents.take 2, earlyContents.drop 2] := by decide +kernel
  rw [hdone, hpieces] at hcontents
  cases hcontents
  exact ⟨hdone, hshort, hsplit hshort⟩

end Muxer

end Iamf
