import Iamf.Proofs.Stream.Schedules
import Iamf.Proofs.Stream.Truncated
import Mathlib.Data.List.InsertIdx

/-!
# `Iamf.Proofs.Stream.Isolated`: an OBU that is rejected

After a failure a demuxer can be asked for packets again. Where an audio frame or
a parameter block is rejected for what is in it, all of the OBU has been consumed
before it was looked into, and nothing else has changed. So the calls that follow
give what they would give if the OBU were not there: of all the results of a
stream, an OBU that is put into it costs one more, its error.

Two demuxers that track one reading on the same bytes need not have read the same
bytes ahead, so they are not alike. Their results are the same nevertheless, as
they follow from the OBUs to come.

* `results_of_front`: the results of OBUs that do not fail, and what comes behind them.
* `results_of_tracks`: two demuxers that are equally far give the same results.
* `IsRejected`, `Reading.media_of_isRejected`: the OBUs in question.
* `results_insertIdx`: a stream with one of them put in.
-/

set_option autoImplicit false

namespace Iamf.Demuxer

variable {config : DemuxerConfig} {demuxer other first second : Demuxer} {reading : Reading}
  {obu bad : Obu.Complete} {rest : Bytes} {error : Error}

/-! ### Results, one OBU at a time -/

/-- The results from one OBU on. An OBU that gives nothing is not seen. -/
theorem results_succ (demuxer : Demuxer) (calls : Nat) :
    demuxer.results (calls + 1)
      = match packetStep demuxer with
        | .ok .ended after => .ok none :: after.results calls
        | .ok (.packet packet) after => .ok (some packet) :: after.results calls
        | .ok .passed after => after.results (calls + 1)
        | .error error after => .error error :: after.results calls := by
  rw [results, readPacket_eq]
  rcases packetStep demuxer with ⟨_ | packet | _, after⟩ | ⟨error, after⟩ <;> rfl

theorem results_of_passed {after : Demuxer} (h : packetStep demuxer = .ok .passed after)
    (calls : Nat) : demuxer.results calls = after.results calls := by
  cases calls with
  | zero => rfl
  | succ calls => rw [results_succ, h]

/-- The results from an OBU on, by what it did to the reading. -/
theorem results_of_handled {before : Reading} {after : Demuxer} {frame : Bool}
    (h : Handled frame before reading after (packetStep demuxer)) (calls : Nat) :
    demuxer.results (calls + 1)
      = match reading.failure, reading.packets.drop before.packets.length with
        | some error, _ => .error error :: after.results calls
        | none, packet :: _ => .ok (some packet) :: after.results calls
        | none, [] => after.results (calls + 1) := by
  generalize hstep : packetStep demuxer = result at h
  rw [results_succ, hstep]
  cases h with
  | packet packet _ clean gained => simp only [clean, gained, List.drop_left]
  | passed _ clean same => simp only [clean, same, List.drop_length]
  | failed error failure _ => simp only [failure]

/-- Descriptors are complete when the second phase starts. -/
theorem registry_media (config : DemuxerConfig) (reading : Reading) (obu : Obu.Complete) :
    (reading.media config obu).registry = reading.registry := by
  simp only [Reading.media]
  split
  case h_2 =>
    rcases Parameter.parseBlock config.mode reading.registry obu.body
      with error | (_ | values) <;> rfl
  case h_3 | h_4 => cases reading.packet obu <;> rfl
  all_goals rfl

/-- A demuxer keeps no note of failures, nor of packets and bytes that are behind it. -/
theorem Tracks.of_eq {other : Reading} (h : Tracks config demuxer reading rest)
    (hregistry : other.registry = reading.registry) (hvalues : other.values = reading.values) :
    Tracks config demuxer other rest :=
  ⟨h.awaits, h.config, h.registry.trans hregistry.symm, h.values.trans hvalues.symm⟩

theorem Tracks.of_failure (h : Tracks config demuxer reading rest) (failure : Option Error) :
    Tracks config demuxer { reading with failure } rest :=
  h.of_eq rfl rfl

theorem Tracks.of_opened (h : Tracks config demuxer reading rest) :
    Tracks config demuxer { reading with opened := true } rest :=
  h.of_eq rfl rfl

/-- At the end of the input, and from there on. -/
theorem results_of_nil (h : demuxer.source.Awaits []) (calls : Nat) :
    demuxer.results calls = List.replicate calls (.ok none) := by
  induction calls generalizing demuxer with
  | zero => rfl
  | succ calls ih =>
    obtain ⟨source, hsource, hstep⟩ := packetStep_end h
    rw [results_succ, hstep, List.replicate_succ]
    have hothers : results calls { demuxer with source } = List.replicate calls (.ok none) :=
      ih hsource
    exact congrArg (Except.ok none :: ·) hothers

/-- The results of OBUs none of which fails: a packet of each frame, and then
whatever comes behind them. -/
theorem results_of_front {obus : List Obu.Complete}
    (h : Tracks config demuxer reading (obus.flatMap (·.bytes) ++ rest))
    (hsize : ∀ obu ∈ obus, obu.header.totalLength ≤ config.maxObuSize)
    (hfailure : reading.failure = none) (hopened : reading.opened = true)
    (hclean : (obus.foldl (Reading.step config) reading).failure = none) :
    ∃ after packets, Tracks config after (obus.foldl (Reading.step config) reading) rest
      ∧ (obus.foldl (Reading.step config) reading).registry = reading.registry
      ∧ (obus.foldl (Reading.step config) reading).packets = reading.packets ++ packets
      ∧ packets.length = obus.countP (isFrame ·.header.kind)
      ∧ ∀ calls, demuxer.results (packets.length + calls)
        = packets.map (fun packet => .ok (some packet)) ++ after.results calls := by
  induction obus generalizing demuxer reading with
  | nil =>
    refine ⟨demuxer, [], h, rfl, (List.append_nil _).symm, rfl, fun calls => ?_⟩
    rw [List.length_nil, Nat.zero_add]
    rfl
  | cons obu obus ih =>
    rw [List.flatMap_cons, List.append_assoc] at h
    rw [List.foldl_cons, Reading.step_of_opened hfailure hopened] at hclean ⊢
    set reached := { reading with consumed := reading.consumed + obu.bytes.length }
    have htracks : Tracks config demuxer reached
        (obu.bytes ++ (obus.flatMap (·.bytes) ++ rest)) := h.of_eq rfl rfl
    obtain ⟨middle, hmiddle, hhandled⟩ :=
      packetStep_media htracks (hsize obu List.mem_cons_self) hfailure
    have hstill : (reached.media config obu).opened = true :=
      (Reading.media_same config reached obu).2.trans hopened
    have hkept : (reached.media config obu).failure = none := failure_of_foldl hclean
    obtain ⟨after, packets, hafter, hregistry, hpackets, hlength, hresults⟩ := ih hmiddle
      (fun other hother => hsize other (List.mem_cons_of_mem _ hother)) hkept hstill hclean
    have hsame := hregistry.trans (registry_media config reached obu)
    generalize hstep : packetStep demuxer = result at hhandled
    cases hhandled with
    | packet packet frame _ gained =>
      refine ⟨after, packet :: packets, hafter, hsame, ?_, ?_, fun calls => ?_⟩
      · rw [hpackets, gained, List.append_assoc, List.singleton_append]
      · rw [List.length_cons, List.countP_cons_of_pos (by exact frame), hlength]
      · rw [List.length_cons, Nat.add_right_comm, results_succ, hstep]
        exact congrArg (Except.ok (some packet) :: ·) (hresults calls)
    | passed other _ same =>
      refine ⟨after, packets, hafter, hsame, ?_, ?_, fun calls => ?_⟩
      · rw [hpackets, same]
      · rw [List.countP_cons_of_neg (by simp [other]), hlength]
      · rw [results_of_passed hstep, hresults]
    | failed error failure _ =>
      rw [hkept] at failure
      cases failure

/-- Demuxers that have got equally far, with the same OBUs to come, give the same
results from there on, whatever they have read ahead. -/
theorem results_of_tracks {obus : List Obu.Complete}
    (h : Tracks config first reading (obus.flatMap (·.bytes)))
    (h' : Tracks config second reading (obus.flatMap (·.bytes)))
    (hsize : ∀ obu ∈ obus, obu.header.totalLength ≤ config.maxObuSize)
    (hfailure : reading.failure = none) (calls : Nat) :
    first.results calls = second.results calls := by
  induction obus generalizing first second reading calls with
  | nil => rw [results_of_nil h.awaits, results_of_nil h'.awaits]
  | cons obu obus ih =>
    obtain ⟨hobu, hothers⟩ := List.forall_mem_cons.1 hsize
    rw [List.flatMap_cons] at h h'
    obtain ⟨one, hone, hhandled⟩ := packetStep_media h hobu hfailure
    obtain ⟨other, hother, hhandled'⟩ := packetStep_media h' hobu hfailure
    -- A failure is not the end: what was read stays, and the next OBU is met with it.
    have hnext : ∀ calls, one.results calls = other.results calls :=
      ih (hone.of_failure none) (hother.of_failure none) hothers rfl
    cases calls with
    | zero => rfl
    | succ calls =>
      rw [results_of_handled hhandled, results_of_handled hhandled', hnext, hnext]

/-! ### OBUs that are rejected -/

/-- An OBU that the second phase rejects for what is in it, and with which error: a
frame of a substream that is not registered, a frame whose own substream id cannot
be read from its body, or a parameter block that cannot be parsed. -/
inductive IsRejected (config : DemuxerConfig) (registry : Registry) (obu : Obu.Complete) :
    Error → Prop where
  | unknownSubstream {id : UInt32} {data : Bytes} (frame : isFrame obu.header.kind = true)
      (split : splitFrame obu.header.kind obu.body = .ok (id, data))
      (unknown : registry.substream? id = none) :
      IsRejected config registry obu (.unknownReference .substream id)
  | brokenId {error : Error} (kind : obu.header.kind = .audioFrame)
      (broken : Leb128.read.parse "audio frame" obu.body = .error error) :
      IsRejected config registry obu error
  | brokenBlock {error : Error} (kind : obu.header.kind = .parameterBlock)
      (broken : Parameter.parseBlock config.mode registry obu.body = .error error) :
      IsRejected config registry obu error

theorem IsRejected.endsDescriptors {registry : Registry}
    (h : IsRejected config registry bad error) : endsDescriptors bad.header.kind = true := by
  cases h with
  | unknownSubstream frame _ _ =>
    cases hkind : bad.header.kind <;> simp only [hkind, isFrame] at frame ⊢
    all_goals first | rfl | cases frame
  | brokenId kind _ | brokenBlock kind _ =>
    rw [kind]
    rfl

/-- The frame cannot be split where its id cannot be read. -/
theorem frameOf_of_brokenId {body : Bytes}
    (h : Leb128.read.parse "audio frame" body = .error error) :
    Reading.frameOf .audioFrame body = .error error := by
  simp only [Reading.frameOf]
  simp only [Read.parse, Leb128.read, Functor.map, StateT.map, bind, Except.bind] at h ⊢
  cases hread : Leb128.readSized (Reader.ofBytes "audio frame" body) with
  | error found =>
    rw [hread] at h
    cases h
    rfl
  | ok result =>
    rw [hread] at h
    cases h

/-- Nothing comes of an OBU that is rejected but its error. -/
theorem media_of_isRejected (h : IsRejected config reading.registry bad error) :
    reading.media config bad = { reading with failure := some error } := by
  cases h with
  | unknownSubstream frame split unknown =>
    rw [Reading.media_of_frame frame, Reading.packet, ← splitFrame_eq, split]
    simp only [unknown]
  | brokenId kind broken =>
    have hframe : isFrame bad.header.kind = true := by
      rw [kind]
      rfl
    rw [Reading.media_of_frame hframe, Reading.packet, kind, frameOf_of_brokenId broken]
  | brokenBlock kind broken => simp only [Reading.media, kind, broken]

/-- In front of it a demuxer fails, and then goes on as if it were not there. -/
theorem results_of_isRejected {obus : List Obu.Complete}
    (h : Tracks config demuxer reading (obus.flatMap (·.bytes)))
    (h' : Tracks config other reading (bad.bytes ++ obus.flatMap (·.bytes)))
    (hsize : ∀ obu ∈ obus, obu.header.totalLength ≤ config.maxObuSize)
    (hbad : bad.header.totalLength ≤ config.maxObuSize) (hfailure : reading.failure = none)
    (hrejected : IsRejected config reading.registry bad error) (calls : Nat) :
    other.results (calls + 1) = .error error :: demuxer.results calls := by
  obtain ⟨after, hafter, hhandled⟩ := packetStep_media h' hbad hfailure
  rw [results_of_handled hhandled]
  rw [media_of_isRejected hrejected] at hafter ⊢
  have htracks : Tracks config after reading (obus.flatMap (·.bytes)) := hafter.of_eq rfl rfl
  rw [results_of_tracks htracks h hsize hfailure]

/-! ### Where the second phase starts -/

/-- An OBU boundary behind the first phase is a boundary among the OBUs of the second. -/
theorem exists_before {front back described media : List Obu.Complete}
    (heq : front ++ back = described ++ media)
    (hbehind : back.flatMap (·.bytes) <:+ media.flatMap (·.bytes)) :
    ∃ before, front = described ++ before ∧ media = before ++ back := by
  rcases List.append_eq_append_iff.1 heq with ⟨others, hfront, hback⟩ | ⟨others, hfront, hback⟩
  · -- The OBUs in between would have to be of no length.
    subst hback
    have hlength := hbehind.length_le
    rw [List.flatMap_append, List.length_append] at hlength
    cases others with
    | nil => exact ⟨[], by simpa using hfront.symm, rfl⟩
    | cons obu others =>
      have := obu.two_le_length
      rw [List.flatMap_cons, List.length_append] at hlength
      omega
  · exact ⟨others, hfront, hback⟩

/-- The OBU that ends the descriptors fails or not as it does behind them. -/
theorem failure_of_ends (config : DemuxerConfig) {obus : List Obu.Complete}
    (hfailure : reading.failure = none)
    (hends : ∀ obu ∈ obus.head?, endsDescriptors obu.header.kind = true) :
    (obus.foldl (Reading.step config) { reading with opened := true }).failure
      = (obus.foldl (Reading.step config) reading).failure := by
  cases obus with
  | nil => rfl
  | cons obu obus =>
    rw [List.foldl_cons, List.foldl_cons, Reading.step_of_ends hfailure (hends obu rfl)]

/-- No packet comes of a descriptor. -/
theorem countP_of_describes {obus : List Obu.Complete}
    (h : ∀ obu ∈ obus, endsDescriptors obu.header.kind = false) :
    obus.countP (isFrame ·.header.kind) = 0 := by
  rw [List.countP_eq_zero]
  intro obu hmem
  have hkind := h obu hmem
  cases hcode : obu.header.kind <;> simp only [hcode, Demuxer.endsDescriptors, isFrame] at hkind ⊢
  all_goals first | exact Bool.false_ne_true | cases hkind

/-- A boundary in the second phase of a stream that can be read to its end: the
descriptors, and the OBUs in front of the boundary and behind it. -/
structure IsSplit (config : DemuxerConfig) (opened : Demuxer)
    (described before back : List Obu.Complete) : Prop where
  fits : ∀ obu ∈ described ++ (before ++ back), obu.header.totalLength ≤ config.maxObuSize
  describes : ∀ obu ∈ described, endsDescriptors obu.header.kind = false
  ends : ∀ obu ∈ (before ++ back).head?, endsDescriptors obu.header.kind = true
  fresh : (described.foldl (Reading.step config) {}).IsFresh
  tracks : Tracks config opened (described.foldl (Reading.step config) {})
    ((before ++ back).flatMap (·.bytes))
  clean : (before.foldl (Reading.step config)
    { described.foldl (Reading.step config) {} with opened := true }).failure = none

/-- Such a boundary is one behind whole OBUs, of which the demuxer has read no more
than those in front of it when the stream has been opened. -/
theorem exists_isSplit {whole : Input} {opened : Demuxer} {front : List Obu.Complete}
    (hwhole : whole.failure = none) (hclean : (session config whole).failure = none)
    (hopened : ofInput config whole = .ok opened)
    (hbytes : whole.rest = front.flatMap (·.bytes) ++ rest)
    (hphase : rest <:+ opened.source.unread) :
    ∃ described before back, front = described ++ before ∧ rest = back.flatMap (·.bytes)
      ∧ IsSplit config opened described before back := by
  obtain ⟨obus, hobus, hfits⟩ := exists_obus_of_session hwhole hclean
  obtain ⟨back, rfl⟩ : front <+: obus := Obu.Complete.prefix_of_flatMap_prefix (by
    rw [← hobus, hbytes]
    exact List.prefix_append _ _)
  obtain rfl : rest = back.flatMap (·.bytes) := by
    rw [hbytes, List.flatMap_append] at hobus
    exact List.append_cancel_left hobus
  have hfolded := (session_of_obus hobus hwhole hfits).1
  rw [hclean] at hfolded
  obtain ⟨described, media, hsplit, hdescribes, hends⟩ := exists_descriptors (front ++ back)
  rw [hsplit] at hobus hfits hfolded
  rw [List.foldl_append] at hfolded
  obtain ⟨demuxer, hread, hfresh, htracks, -⟩ := readDescriptors_of_clean
    (tracks_start config hobus hwhole) hfits hdescribes hends ⟨rfl, rfl, rfl, rfl⟩
    (failure_of_foldl hfolded.symm)
  obtain rfl : demuxer = opened := Except.ok.inj (hread.symm.trans hopened)
  rw [htracks.awaits.unread] at hphase
  obtain ⟨before, rfl, rfl⟩ := exists_before hsplit hphase
  -- What stands in front of the boundary has not failed if nothing has.
  have hmedia := (failure_of_ends config hfresh.failure hends).trans hfolded.symm
  rw [List.foldl_append] at hmedia
  exact ⟨described, before, back, rfl, rfl, hfits, hdescribes, hends, hfresh, htracks,
    failure_of_foldl hmedia⟩

/-! ### A stream with an OBU put in -/

theorem insertIdx_length_append {α : Type} (items others : List α) (item : α) :
    (items ++ others).insertIdx items.length item = items ++ item :: others := by
  induction items with
  | nil => rfl
  | cons first items ih => exact congrArg (first :: ·) ih

/-- From the start of the second phase on. -/
theorem results_of_insert {before back : List Obu.Complete}
    (h : Tracks config first reading ((before ++ back).flatMap (·.bytes)))
    (h' : Tracks config second reading ((before ++ bad :: back).flatMap (·.bytes)))
    (hsize : ∀ obu ∈ before ++ back, obu.header.totalLength ≤ config.maxObuSize)
    (hbad : bad.header.totalLength ≤ config.maxObuSize)
    (hfailure : reading.failure = none) (hopened : reading.opened = true)
    (hclean : (before.foldl (Reading.step config) reading).failure = none)
    (hrejected : IsRejected config reading.registry bad error) (calls : Nat) :
    second.results (before.countP (isFrame ·.header.kind) + calls + 1)
      = (first.results (before.countP (isFrame ·.header.kind) + calls)).insertIdx
          (before.countP (isFrame ·.header.kind)) (.error error) := by
  obtain ⟨hbefore, hback⟩ := List.forall_mem_append.1 hsize
  rw [List.flatMap_append] at h h'
  obtain ⟨one, packets, hone, hregistry, hpackets, hlength, hresults⟩ :=
    results_of_front h hbefore hfailure hopened hclean
  obtain ⟨other, packets', hother, -, hpackets', -, hresults'⟩ :=
    results_of_front h' hbefore hfailure hopened hclean
  -- Up to the OBU that was put in the two have given the same packets.
  obtain rfl : packets = packets' := List.append_cancel_left (hpackets.symm.trans hpackets')
  have hbroken := results_of_isRejected hone hother hback hbad hclean (hregistry ▸ hrejected) calls
  rw [← hlength, Nat.add_assoc, hresults', hbroken, hresults,
    ← List.length_map (fun packet => Except.ok (some packet)), insertIdx_length_append]

/-- An OBU that is rejected is isolated. Put into a stream that can be read to its
end, at any OBU boundary from the end of the descriptors on, it costs one more call,
which gives its error. The stream is opened with the same descriptors, and the other
calls give what they gave: the packets in front of it, one for each frame, the
packets behind it with the values that they had, and the end of the stream. -/
theorem results_insertIdx {whole spoiled : Input} {opened : Demuxer}
    {front : List Obu.Complete} (hwhole : whole.failure = none)
    (hspoiled : spoiled.failure = none) (hclean : (session config whole).failure = none)
    (hopened : ofInput config whole = .ok opened)
    (hbytes : whole.rest = front.flatMap (·.bytes) ++ rest)
    (hinserted : spoiled.rest = front.flatMap (·.bytes) ++ (bad.bytes ++ rest))
    (hphase : rest <:+ opened.source.unread)
    (hsize : bad.header.totalLength ≤ config.maxObuSize)
    (hrejected : IsRejected config opened.registry bad error) :
    ∃ reopened, ofInput config spoiled = .ok reopened ∧ reopened.registry = opened.registry
      ∧ ∀ calls, reopened.results (front.countP (isFrame ·.header.kind) + calls + 1)
        = (opened.results (front.countP (isFrame ·.header.kind) + calls)).insertIdx
            (front.countP (isFrame ·.header.kind)) (.error error) := by
  obtain ⟨described, before, back, rfl, rfl, hsplit⟩ :=
    exists_isSplit hwhole hclean hopened hbytes hphase
  obtain ⟨hfitsDescribed, hfits⟩ := List.forall_mem_append.1 hsplit.fits
  obtain ⟨hfitsBefore, hfitsBack⟩ := List.forall_mem_append.1 hfits
  -- The other stream has the same descriptors, ended by the same OBU or by the one put in.
  have hends : ∀ obu ∈ (before ++ bad :: back).head?, endsDescriptors obu.header.kind = true := by
    cases before with
    | nil => simpa using hrejected.endsDescriptors
    | cons first before => simpa using hsplit.ends
  have hstart : spoiled.rest = (described ++ (before ++ bad :: back)).flatMap (·.bytes) := by
    simpa only [List.flatMap_append, List.flatMap_cons, List.append_assoc] using hinserted
  have hfits' := List.forall_mem_append.2 ⟨hfitsDescribed, List.forall_mem_append.2
    ⟨hfitsBefore, List.forall_mem_cons.2 ⟨hsize, hfitsBack⟩⟩⟩
  obtain ⟨reopened, hread, -, htracks, -⟩ := readDescriptors_of_clean
    (tracks_start config hstart hspoiled) hfits' hsplit.describes hends ⟨rfl, rfl, rfl, rfl⟩
    hsplit.fresh.failure
  refine ⟨reopened, hread, htracks.registry.trans hsplit.tracks.registry.symm, fun calls => ?_⟩
  rw [List.countP_append, countP_of_describes hsplit.describes, Nat.zero_add]
  exact results_of_insert hsplit.tracks.of_opened htracks.of_opened hfits hsize
    hsplit.fresh.failure rfl hsplit.clean (hsplit.tracks.registry ▸ hrejected) calls

/-- The config of a PCM codec. -/
def configObu : Obu.Complete where
  header := { kind := .codecConfig, size := 14, headerLength := 2, bodyLength := 14 }
  bytes := [0x00, 0x0E, 0, 0x69, 0x70, 0x63, 0x6D, 4, 0, 0, 1, 16, 0, 0, 0xBB, 0x80]
  parsed := by rfl
  whole := by rfl

/-- A mono element with the substream 0. -/
def elementObu : Obu.Complete where
  header := { kind := .audioElement, size := 10, headerLength := 2, bodyLength := 10 }
  bytes := [0x08, 0x0A, 1, 0, 0, 1, 0, 0, 0x20, 0, 1, 0]
  parsed := by rfl
  whole := by rfl

/-- A frame with a substream id that does not end in its body. -/
def cutObu : Obu.Complete where
  header := { kind := .audioFrame, size := 1, headerLength := 2, bodyLength := 1 }
  bytes := [0x28, 0x01, 0x80]
  parsed := by rfl
  whole := by rfl

/-- Two frames behind their descriptors. -/
def framesStream : Bytes :=
  [configObu, elementObu, frameObu, frameObu].flatMap (·.bytes)

/-- The same, with a broken frame between them. -/
def cutStream : Bytes :=
  [configObu, elementObu, frameObu, cutObu, frameObu].flatMap (·.bytes)

/-- The second call fails, and the third one gives the second packet. -/
theorem results_insertIdx_cut :
    ∃ opened reopened, ofInput {} { rest := framesStream } = .ok opened
      ∧ ofInput {} { rest := cutStream } = .ok reopened
      ∧ (opened.results 3).map Except.isOk = [true, true, true]
      ∧ reopened.results 4
        = (opened.results 3).insertIdx 1 (.error (.truncated "audio frame")) := by
  have hclean : (session {} { rest := framesStream }).failure = none := by decide +kernel
  have hread : (ofInput {} { rest := framesStream }).map
        (fun opened => (opened.source.unread, (opened.results 3).map Except.isOk))
      = .ok (frameObu.bytes ++ frameObu.bytes, [true, true, true]) := by decide +kernel
  obtain ⟨opened, hopened, hseen⟩ := outcome_map_eq_ok.1 hread
  obtain ⟨hunread, hresults⟩ := Prod.mk.inj hseen
  have hbytes : framesStream
      = [configObu, elementObu, frameObu].flatMap (·.bytes) ++ frameObu.bytes := rfl
  have hspoiled : Input.failure { rest := cutStream } = none := rfl
  have hinserted : cutStream = [configObu, elementObu, frameObu].flatMap (·.bytes)
      ++ (cutObu.bytes ++ frameObu.bytes) := rfl
  have hphase : frameObu.bytes <:+ opened.source.unread :=
    hunread ▸ List.suffix_append _ _
  have hrejected : IsRejected {} opened.registry cutObu (.truncated "audio frame") :=
    .brokenId rfl (by decide +kernel)
  obtain ⟨reopened, hreopened, -, hcalls⟩ := results_insertIdx rfl hspoiled hclean hopened hbytes
    hinserted hphase (by decide) hrejected
  exact ⟨opened, reopened, hopened, hreopened, hresults, hcalls 2⟩

end Iamf.Demuxer
