import Iamf.Proofs.Checked.Codec
import Iamf.Proofs.Checked.Element
import Iamf.Proofs.Checked.Feed
import Iamf.Proofs.Checked.Header
import Iamf.Proofs.Checked.Mix
import Iamf.Proofs.Stream.Blamed

/-!
# `Iamf.Proofs.Checked.Demuxer`: a demuxer that checks its arithmetic

All the checked programs come together in a demuxer on a `Feed`. It finds a header in
the buffer, cuts out the body of its OBU, and hands it to the checked readers. The
loops over OBUs have as many rounds as there are bytes to come, and run out of none.
What changes a registry once a descriptor has been read computes nothing, and is taken
over as it is (`plain`).

A machine `Carries` what a demuxer has: its feed shows the source, and its registry is
the same and coherent, which bounds the numbers of substreams. The relation outlives
failures, so it holds through any number of calls.

* `follows_descriptorStep`, `follows_packetStep`: one OBU is handled as it should be.
* `transcript_eq_raise`: so is a whole stream, whatever its input, without any fault.
* `faultless_transcript`: and if the input does not fail, all its errors are invalid data.
-/

set_option autoImplicit false

namespace Iamf.Checked

/-! ### Descriptors -/

/-- Reads the body of a descriptor into the registry. -/
def parseDescriptor (strict : Bool) (kind : Obu.Kind) (body : Bytes) : Run Registry Unit := do
  let registry ← get
  match kind with
  | .sequenceHeader => do
    let header ← liftExcept (parseSequenceHeader strict body)
    plain (Registry.setSequenceHeader header)
  | .codecConfig => do
    let config ← liftExcept (parseCodecConfig strict body)
    plain (Registry.addCodecConfig config)
  | .audioElement => do
    match ← liftExcept (parseAudioElement strict registry body) with
    | some (element, definitions) => plain (Registry.commitAudioElement element definitions)
    | none => return ()
  | .mixPresentation => do
    let (mix, definitions) ← liftExcept (parseMixPresentation strict registry body)
    plain (Registry.commitMixPresentation mix definitions)
  | _ => return ()

/-- A registry without contradictions, and the same one. -/
def SameRegistry (one other : Registry) : Prop :=
  other = one ∧ one.Coherent

theorem parseDescriptor_eq {mode : ReadMode} (hmode : mode.earlyCounts = true) (kind : Obu.Kind)
    {body : Bytes} (hbody : body.length ≤ Obu.maxSize) {registry : Registry}
    (hregistry : registry.Coherent) :
    parseDescriptor mode.strict kind body registry
      = plain (Registry.parseDescriptor mode kind body) registry := by
  rw [parseDescriptor, state_get_bind, Registry.parseDescriptor, plain_get_bind]
  cases kind
  case sequenceHeader =>
    simp only
    rw [plain_lift_bind, parseSequenceHeader_eq mode.strict hbody]
  case codecConfig =>
    simp only
    rw [plain_lift_bind, parseCodecConfig_eq mode.strict hbody]
  case audioElement =>
    simp only
    rw [plain_lift_bind, parseAudioElement_eq hmode hregistry hbody]
    cases AudioElement.parse mode registry body with
    | error error => rfl
    | ok found => cases found <;> rfl
  case mixPresentation =>
    simp only
    rw [plain_lift_bind, parseMixPresentation_eq hmode registry hbody]
  all_goals rfl

/-- A descriptor is registered as it should be, and leaves the registry coherent. -/
theorem follows_parseDescriptor {mode : ReadMode} (hmode : mode.earlyCounts = true)
    (kind : Obu.Kind) {body : Bytes} (hbody : body.length ≤ Obu.maxSize) :
    Follows SameRegistry SameRegistry (fun _ => SameRegistry)
      (parseDescriptor mode.strict kind body) (Registry.parseDescriptor mode kind body) := by
  rintro _ registry ⟨rfl, hregistry⟩
  -- Whichever way the program comes out, it has changed the registry as an operation does.
  have hafter := hregistry.change
    (Registry.change_perform registry (.parseDescriptor mode kind body))
  rw [parseDescriptor_eq hmode kind hbody hregistry, plain]
  simp only [Registry.perform, Registry.left, Registry.Operation.program] at hafter
  revert hafter
  generalize Registry.parseDescriptor mode kind body registry = outcome
  intro hafter
  cases outcome with
  | ok value after => exact .ok ⟨rfl, hafter⟩
  | error error after => exact .error error ⟨rfl, hafter⟩

/-! ### A demuxer on a feed -/

/-- A stream that is being read. -/
structure Machine where
  /-- The bytes to come. -/
  feed : Feed
  /-- How the stream is read. -/
  config : DemuxerConfig
  /-- The descriptors. -/
  registry : Registry := .empty
  /-- The values since the last temporal delimiter. -/
  values : Snapshot := {}

/-- A machine and a demuxer at the same place of a stream. -/
structure Carries (machine : Machine) (demuxer : Demuxer) : Prop where
  shows : machine.feed.Shows demuxer.source
  config : demuxer.config = machine.config
  registry : SameRegistry machine.registry demuxer.registry
  values : demuxer.values = machine.values

/-- Machine and demuxer stay together, and the value is as said. -/
def Giving {α : Type} (fact : α → Prop) (value : α) (machine : Machine) (demuxer : Demuxer) :
    Prop :=
  fact value ∧ Carries machine demuxer

namespace Machine

/-- A program on the feed. -/
def onFeed {α : Type} (program : Run Feed α) : Run Machine α :=
  onPart (·.feed) (fun machine feed => { machine with feed }) program

/-- The header of the next OBU, which stays unread; nothing at the end of the input. -/
def peekHeader : Run Machine (Option Obu.Header) := do
  onFeed (Feed.fill Obu.maxHeaderSize)
  let machine ← get
  if machine.feed.buffer.length = 0 then return none
  else do
    let peeked ← slice machine.feed.buffer machine.feed.position machine.feed.buffer.length
    let header ← liftExcept (parseHeader peeked)
    let total ← add 64 header.headerLength header.bodyLength
    require (total ≤ machine.config.maxObuSize) (.outOfRange "obu_size" total)
    return some header

/-- Consumes the OBU of a header and gives its body. -/
def readBody (header : Obu.Header) : Run Machine Bytes := do
  onFeed (Feed.skip header.headerLength "OBU header")
  onFeed (Feed.take header.bodyLength "OBU body")

/-- Passes over the OBU of a header. -/
def skipObu (header : Obu.Header) (subject : String) : Run Machine Unit := do
  let total ← add 64 header.headerLength header.bodyLength
  onFeed (Feed.skip total subject)

/-- Forgets the values, since a temporal unit starts. -/
def startTemporalUnit (header : Obu.Header) : Run Machine Unit := do
  skipObu header "temporal delimiter"
  modify fun machine => { machine with values := {} }

/-- Reads the OBU of a header into the registry. -/
def register (header : Obu.Header) : Run Machine Unit := do
  let body ← readBody header
  let machine ← get
  onPart (·.registry) (fun machine registry => { machine with registry })
    (parseDescriptor machine.config.strict header.kind body)

/-- Handles the OBU of a header in the first phase; whether the phase goes on. -/
def handleDescriptor (header : Obu.Header) : Run Machine Bool :=
  match header.kind with
  | .parameterBlock | .audioFrame | .impliedFrame _ => return false
  | .sequenceHeader | .codecConfig | .audioElement | .mixPresentation => do
    register header
    return true
  | .temporalDelimiter => do
    startTemporalUnit header
    return true
  | .reserved _ => do
    skipObu header "OBU body"
    return true

/-- Handles one OBU of the first phase; whether the phase goes on. -/
def descriptorStep : Run Machine Bool := do
  match ← peekHeader with
  | none => return false
  | some header => handleDescriptor header

end Machine

/-- The bytes from the next byte boundary on, which stay unread. -/
def behind : Parse Bytes := do
  let start ← bytePosition
  let cursor ← get
  slice cursor.data start cursor.data.length

/-- The substream id of an audio frame, and the coded frame. -/
def splitFrame (kind : Obu.Kind) (body : Bytes) : Except Stop (UInt32 × Bytes) :=
  match kind with
  | .impliedFrame substream => return (substream.toUInt32, body)
  | _ => do
    let program : Parse (UInt32 × Bytes) := do
      let substream ← number
      let data ← behind
      return (substream, data)
    parse program "audio frame" body

namespace Machine

/-- The packet of an audio frame. -/
def packetOf (machine : Machine) (header : Obu.Header) (body : Bytes) : Except Stop Packet := do
  let (id, data) ← splitFrame header.kind body
  let some substream := machine.registry.substream? id
    | fail (.unknownReference .substream id)
  return {
    streamIndex := substream.streamIndex
    substream := id
    data
    trim := header.trim
    values := machine.values }

/-- Takes in the values of a parameter block, if its parameter is defined. -/
def applyBlock (body : Bytes) : Run Machine Unit := do
  let machine ← get
  match ← liftExcept (parseParameterBlock machine.config.strict machine.registry body) with
  | some values => set { machine with values := machine.values.update values }
  | none => return ()

/-- Reads the OBU of a header as a packet. -/
def readFrame (header : Obu.Header) : Run Machine Packet := do
  let body ← readBody header
  let machine ← get
  liftExcept (machine.packetOf header body)

/-- Handles the OBU of a header in the second phase. -/
def handlePacket (header : Obu.Header) : Run Machine Demuxer.PacketStep :=
  match header.kind with
  | .audioFrame | .impliedFrame _ => do
    let packet ← readFrame header
    return .packet packet
  | .parameterBlock => do
    let body ← readBody header
    applyBlock body
    return .passed
  | .temporalDelimiter => do
    startTemporalUnit header
    return .passed
  | .codecConfig | .audioElement | .mixPresentation | .sequenceHeader | .reserved _ => do
    skipObu header "OBU body"
    return .passed

/-- Handles one OBU of the second phase. -/
def packetStep : Run Machine Demuxer.PacketStep := do
  match ← peekHeader with
  | none => return .ended
  | some header => handlePacket header

/-- Reads descriptors up to the first parameter block or audio frame, or the end of the
input, in so many rounds. -/
def readDescriptors : (rounds : Nat) → Run Machine Unit
  | 0 => throw (.faulted .endless)
  | rounds + 1 => do
    if ← descriptorStep then readDescriptors rounds else return ()

/-- The next packet, within so many rounds; nothing at the end of the input. -/
def readPacket : (rounds : Nat) → Run Machine (Option Packet)
  | 0 => throw (.faulted .endless)
  | rounds + 1 => do
    match ← packetStep with
    | .ended => return none
    | .packet packet => return some packet
    | .passed => readPacket rounds

/-- How many rounds a loop over OBUs has: one for each byte, and one more. -/
def rounds (machine : Machine) : Nat :=
  machine.feed.buffer.length + machine.feed.input.rest.length + 1

/-- Starts to read a stream. -/
def ofInput (config : DemuxerConfig) (input : Input) : Except Stop Machine :=
  let machine : Machine := { feed := { input }, config }
  match readDescriptors machine.rounds machine with
  | .ok _ after => .ok after
  | .error stop _ => .error stop

/-- What so many calls of `readPacket` give. -/
def results : Nat → Machine → List (Except Stop (Option Packet))
  | 0, _ => []
  | count + 1, machine =>
    match readPacket machine.rounds machine with
    | .ok packet after => .ok packet :: results count after
    | .error stop after => .error stop :: results count after

/-! ### One OBU -/

section

variable {α : Type} {header : Obu.Header}

theorem carries_put {machine : Machine} {demuxer : Demuxer} (h : Carries machine demuxer)
    {feed : Feed} {source : Source} (hshows : feed.Shows source) :
    Carries { machine with feed } { demuxer with source } :=
  { h with shows := hshows }

theorem follows_onFeed {shown : α → Feed → Source → Prop} {after : α → Machine → Demuxer → Prop}
    {fast : Run Feed α} {slow : Stateful Source α}
    (h : Follows Feed.Shows Feed.Shows shown fast slow)
    (hafter : ∀ value machine demuxer feed source, Carries machine demuxer →
      shown value feed source → after value { machine with feed } { demuxer with source }) :
    Follows Carries Carries after (onFeed fast) (Demuxer.onSource slow) :=
  h.onPart (fun _ _ hcarries => hcarries.shows) (fun _ _ _ _ _ => hafter _ _ _ _ _)
    fun _ _ _ _ h hshows => carries_put h hshows

theorem follows_skipFeed (count : Nat) (subject : String) :
    Follows Carries Carries (fun _ => Carries) (onFeed (Feed.skip count subject))
      (Demuxer.onSource (Source.skip count subject)) :=
  follows_onFeed (Feed.follows_skip count subject) fun _ _ _ _ _ h hshows => carries_put h hshows

theorem follows_peekHeader :
    Follows Carries Carries
      (Giving fun peeked => ∀ header ∈ peeked, header.totalLength ≤ Obu.maxSize)
      peekHeader Demuxer.peekHeader := by
  have hfill : Follows Carries Carries
      (fun _ machine demuxer => machine.feed.position = 0 ∧ Carries machine demuxer)
      (onFeed (Feed.fill Obu.maxHeaderSize)) (Demuxer.onSource (Source.fill Obu.maxHeaderSize)) :=
    follows_onFeed Feed.follows_fill fun _ _ _ _ _ h hshown => ⟨hshown.1, carries_put h hshown.2⟩
  refine hfill.bind fun _ => Follows.get_bind fun machine demuxer ⟨hposition, hcarries⟩ =>
    Follows.of_imp ?_ (fun _ _ h => h.2 : ∀ machine demuxer, _ → Carries machine demuxer)
  -- Nothing of the buffer has been consumed, so it starts with the header.
  have hlookahead : demuxer.source.lookahead = machine.feed.buffer := by
    rw [hcarries.shows.source_eq, hposition, List.drop_zero]
  have hroom : machine.feed.buffer.length ≤ Obu.maxSize :=
    Nat.le_trans hcarries.shows.bounded (by decide)
  rw [hlookahead, hcarries.config]
  by_cases hempty : machine.feed.buffer.length = 0
  · rw [if_pos hempty, if_pos (by simpa using hempty)]
    exact follows_pure fun _ _ h => ⟨by simp, h⟩
  · rw [if_neg hempty, if_neg (by simpa using hempty), hposition,
      slice_of (Nat.zero_le _) (Nat.le_refl _), pure_bind, List.take_length, List.drop_zero]
    refine (follows_lift (parseHeader_eq hroom)).bind fun header => Follows.given fun hheader => ?_
    have htotal := Obu.Header.totalLength_le hheader
    have hfits : header.headerLength + header.bodyLength < 2 ^ 64 :=
      Nat.lt_of_le_of_lt htotal (by decide)
    rw [add_of hfits, pure_bind]
    refine follows_require.bind fun _ => follows_pure fun _ _ h => ⟨?_, h⟩
    rintro _ ⟨⟩
    exact htotal

theorem length_le_of_header {body : Bytes} (hlength : header.totalLength ≤ Obu.maxSize)
    (hbody : body.length = header.bodyLength) : body.length ≤ Obu.maxSize := by
  rw [Obu.Header.totalLength] at hlength
  omega

theorem follows_readBody :
    Follows Carries Carries (Giving fun body => body.length = header.bodyLength)
      (readBody header) (Demuxer.readBody header) := by
  have htake := (Feed.follows_take header.bodyLength "OBU body").noting
    fun source body after h => (Source.take_eq_ok h).2.1
  exact (follows_skipFeed _ _).bind fun _ =>
    follows_onFeed htake fun _ _ _ _ _ h hshown => ⟨hshown.1, carries_put h hshown.2⟩

theorem follows_skipObu (hlength : header.totalLength ≤ Obu.maxSize) (subject : String) :
    Follows Carries Carries (fun _ => Carries) (skipObu header subject)
      (Demuxer.skipObu header subject) := by
  have hfits : header.headerLength + header.bodyLength < 2 ^ 64 :=
    Nat.lt_of_le_of_lt hlength (by decide)
  rw [skipObu, add_of hfits, pure_bind]
  exact follows_skipFeed _ _

theorem follows_startTemporalUnit (hlength : header.totalLength ≤ Obu.maxSize) :
    Follows Carries Carries (fun _ => Carries) (startTemporalUnit header)
      (Demuxer.startTemporalUnit header) :=
  (follows_skipObu hlength _).bind fun _ => follows_modify fun _ _ h => { h with values := rfl }

theorem follows_register (hlength : header.totalLength ≤ Obu.maxSize) :
    Follows Carries Carries (fun _ => Carries) (register header) (Demuxer.register header) := by
  refine follows_readBody.bind fun body => Follows.given fun hbody => ?_
  refine Follows.get_bind fun machine demuxer hcarries => ?_
  have hmode : machine.config.mode.earlyCounts = true := rfl
  have hparse : Follows SameRegistry SameRegistry (fun _ => SameRegistry)
      (parseDescriptor machine.config.strict header.kind body)
      (Registry.parseDescriptor machine.config.mode header.kind body) :=
    follows_parseDescriptor hmode header.kind (length_le_of_header hlength hbody)
  rw [hcarries.config]
  exact hparse.onPart (fun _ _ h => h.registry)
    (fun _ _ _ _ _ h hregistry => { h with registry := hregistry })
    fun _ _ _ _ h hregistry => { h with registry := hregistry }

theorem follows_handleDescriptor (hlength : header.totalLength ≤ Obu.maxSize) :
    Follows Carries Carries (fun _ => Carries) (handleDescriptor header)
      (Demuxer.handleDescriptor header) := by
  have hpure : ∀ value : Bool, Follows Carries Carries (fun _ => Carries)
      (pure value : Run Machine Bool) (pure value) :=
    fun value => follows_pure fun _ _ h => h
  cases hkind : header.kind
  all_goals simp only [handleDescriptor, Demuxer.handleDescriptor, hkind]
  case parameterBlock | audioFrame | impliedFrame => exact hpure false
  case temporalDelimiter => exact (follows_startTemporalUnit hlength).bind fun _ => hpure true
  case reserved => exact (follows_skipObu hlength _).bind fun _ => hpure true
  all_goals exact (follows_register hlength).bind fun _ => hpure true

theorem follows_descriptorStep :
    Follows Carries Carries (fun _ => Carries) descriptorStep Demuxer.descriptorStep := by
  refine follows_peekHeader.bind fun peeked => Follows.given fun hlength => ?_
  cases peeked with
  | none => exact follows_pure fun _ _ h => h
  | some header => exact follows_handleDescriptor (hlength header rfl)

/-- What is behind the id of a substream is the same bytes, at a position or left to read. -/
theorem refinesFrom_behind : RefinesFrom Aligned (fun _ _ _ => True) behind Read.remaining := by
  rintro cursor reader ⟨offset, h⟩
  have hslow : Read.remaining reader
      = .ok (cursor.data.drop offset, ⟨cursor.subject, [], []⟩) := by
    rw [h.reader_eq]
    rfl
  rw [behind, run_bind_of_ok (run_bytePosition h.sound.addressable h.position), run_get_bind,
    slice_of h.length_le (Nat.le_refl _), List.take_length, hslow]
  exact .ok trivial

theorem splitFrame_eq (kind : Obu.Kind) {body : Bytes} (hbody : body.length ≤ Obu.maxSize) :
    splitFrame kind body = raise (Demuxer.splitFrame kind body) := by
  have hnumbered : RefinesFrom Aligned (fun _ _ _ => True)
      (number >>= fun substream => behind >>= fun data => pure (substream, data))
      (Leb128.read >>= fun substream => Read.remaining >>= fun data => pure (substream, data)) :=
    refines_number.bind fun _ => refinesFrom_behind.bind fun _ => refinesFrom_pure fun _ _ h => h
  cases kind
  case impliedFrame => rfl
  all_goals exact parse_eq hnumbered "audio frame" hbody

theorem packetOf_eq {machine : Machine} {demuxer : Demuxer} (h : Carries machine demuxer)
    {body : Bytes} (hbody : body.length ≤ Obu.maxSize) :
    machine.packetOf header body = raise (demuxer.packetOf header body) := by
  rw [packetOf, Demuxer.packetOf, splitFrame_eq _ hbody, raise_bind, h.registry.1, h.values]
  congr
  funext frame
  obtain ⟨id, data⟩ := frame
  simp only
  cases machine.registry.substream? id <;> rfl

theorem follows_applyBlock {body : Bytes} (hbody : body.length ≤ Obu.maxSize) :
    Follows Carries Carries (fun _ => Carries) (applyBlock body) (Demuxer.applyBlock body) := by
  refine Follows.get_bind fun machine demuxer hcarries => ?_
  have hmode : machine.config.mode.earlyCounts = true := rfl
  rw [hcarries.config, hcarries.registry.1, hcarries.values]
  refine (follows_lift (parseParameterBlock_eq hmode machine.registry hbody)).bind
    fun found => Follows.given fun _ => ?_
  cases found with
  | none => exact follows_pure fun _ _ h => h
  | some values => exact follows_set ⟨hcarries.shows, rfl, ⟨rfl, hcarries.registry.2⟩, rfl⟩

theorem follows_readFrame (hlength : header.totalLength ≤ Obu.maxSize) :
    Follows Carries Carries (fun _ => Carries) (readFrame header) (Demuxer.readFrame header) := by
  refine follows_readBody.bind fun body => Follows.given fun hbody =>
    Follows.get_bind fun machine demuxer hcarries => ?_
  have hpacket : machine.packetOf header body = raise (demuxer.packetOf header body) :=
    packetOf_eq hcarries (length_le_of_header hlength hbody)
  exact (follows_lift hpacket).mono fun _ _ _ h => h.2

theorem follows_handlePacket (hlength : header.totalLength ≤ Obu.maxSize) :
    Follows Carries Carries (fun _ => Carries) (handlePacket header)
      (Demuxer.handlePacket header) := by
  have hpure : ∀ value : Demuxer.PacketStep, Follows Carries Carries (fun _ => Carries)
      (pure value : Run Machine Demuxer.PacketStep) (pure value) :=
    fun value => follows_pure fun _ _ h => h
  cases hkind : header.kind
  all_goals simp only [handlePacket, Demuxer.handlePacket, hkind]
  case audioFrame | impliedFrame => exact (follows_readFrame hlength).bind fun _ => hpure _
  case parameterBlock =>
    exact follows_readBody.bind fun body => Follows.given fun hbody =>
      (follows_applyBlock (length_le_of_header hlength hbody)).bind fun _ => hpure _
  case temporalDelimiter => exact (follows_startTemporalUnit hlength).bind fun _ => hpure _
  all_goals exact (follows_skipObu hlength _).bind fun _ => hpure _

theorem follows_packetStep :
    Follows Carries Carries (fun _ => Carries) packetStep Demuxer.packetStep := by
  refine follows_peekHeader.bind fun peeked => Follows.given fun hlength => ?_
  cases peeked with
  | none => exact follows_pure fun _ _ h => h
  | some header => exact follows_handlePacket (hlength header rfl)

end

/-! ### Whole streams -/

section

variable {machine : Machine} {demuxer : Demuxer}

/-- There is a round for every byte to come. -/
theorem remaining_le (h : Carries machine demuxer) :
    demuxer.remaining ≤ machine.feed.buffer.length + machine.feed.input.rest.length := by
  simp only [Demuxer.remaining, Source.remaining, h.shows.source_eq, List.length_drop]
  omega

/-- The first phase fails with the same error, or leaves machine and demuxer together. -/
theorem readDescriptors_of_carries (h : Carries machine demuxer) {left : Nat}
    (hleft : demuxer.remaining ≤ left) :
    (∃ after opened, readDescriptors (left + 1) machine = .ok () after
        ∧ demuxer.readDescriptors = .ok opened ∧ Carries after opened)
      ∨ ∃ error stopped, readDescriptors (left + 1) machine = .error (.failed error) stopped
        ∧ demuxer.readDescriptors = .error error := by
  -- Induction on the steps of the demuxer, each of which shortens what is to come.
  fun_induction Demuxer.readDescriptors demuxer generalizing machine left with
  | case1 demuxer after hstep ih =>
    obtain ⟨next, hnext, hcarries⟩ := (hstep ▸ follows_descriptorStep h).of_ok
    have hlt := Demuxer.descriptorStep_eq_ok hstep
    obtain ⟨rounds, rfl⟩ : ∃ rounds, left = rounds + 1 := ⟨left - 1, by omega⟩
    rw [readDescriptors, state_bind_of_ok hnext, if_pos rfl]
    exact ih hcarries (by omega)
  | case2 demuxer after hstep =>
    obtain ⟨next, hnext, hcarries⟩ := (hstep ▸ follows_descriptorStep h).of_ok
    rw [readDescriptors, state_bind_of_ok hnext, if_neg Bool.false_ne_true]
    exact .inl ⟨next, after, rfl, rfl, hcarries⟩
  | case3 demuxer error after hstep =>
    obtain ⟨next, hnext, -⟩ := (hstep ▸ follows_descriptorStep h).of_error
    rw [readDescriptors, state_bind_of_error hnext]
    exact .inr ⟨error, next, rfl, rfl⟩

/-- Reading a packet comes out alike. -/
theorem concurs_readPacket (h : Carries machine demuxer) {left : Nat}
    (hleft : demuxer.remaining ≤ left) :
    Concurs Carries (fun _ => Carries) (readPacket (left + 1) machine) demuxer.readPacket := by
  -- As before; a step that gives nothing by itself has shortened what is to come.
  fun_induction Demuxer.readPacket demuxer generalizing machine left with
  | case1 demuxer after hstep =>
    obtain ⟨next, hnext, hcarries⟩ := (hstep ▸ follows_packetStep h).of_ok
    rw [readPacket, state_bind_of_ok hnext]
    exact .ok hcarries
  | case2 demuxer packet after hstep =>
    obtain ⟨next, hnext, hcarries⟩ := (hstep ▸ follows_packetStep h).of_ok
    rw [readPacket, state_bind_of_ok hnext]
    exact .ok hcarries
  | case3 demuxer after hstep ih =>
    obtain ⟨next, hnext, hcarries⟩ := (hstep ▸ follows_packetStep h).of_ok
    have hlt := Demuxer.packetStep_eq_ok hstep (by simp)
    obtain ⟨rounds, rfl⟩ : ∃ rounds, left = rounds + 1 := ⟨left - 1, by omega⟩
    rw [readPacket, state_bind_of_ok hnext]
    exact ih hcarries (by omega)
  | case4 demuxer error after hstep =>
    obtain ⟨next, hnext, hcarries⟩ := (hstep ▸ follows_packetStep h).of_error
    rw [readPacket, state_bind_of_error hnext]
    exact .error error hcarries

/-- Calls give what they should, also those behind a failure. -/
theorem results_of_carries (calls : Nat) (h : Carries machine demuxer) :
    machine.results calls = (demuxer.results calls).map raise := by
  induction calls generalizing machine demuxer with
  | zero => rfl
  | succ calls ih =>
    have hconcurs := concurs_readPacket h (remaining_le h)
    rw [← rounds] at hconcurs
    simp only [results, Demuxer.results]
    revert hconcurs
    generalize readPacket machine.rounds machine = first
    generalize demuxer.readPacket = second
    rintro (hstates | ⟨error, hstates⟩)
    · simp only [ih hstates, List.map_cons]
      rfl
    · simp only [ih hstates, List.map_cons]
      rfl

end

end Machine

/-- What is seen of a stream when faults are seen too. -/
structure Transcript where
  /-- The registry that opening the stream gives. -/
  registry : Registry
  /-- What the calls of `readPacket` give that follow. -/
  results : List (Except Stop (Option Packet))

/-- What is seen of a stream, none of it a fault. -/
def Transcript.ofPlain (seen : Demuxer.Transcript) : Transcript where
  registry := seen.registry
  results := seen.results.map raise

/-- Opens a stream and reads so many packets, with every check on the way. -/
def transcript (config : DemuxerConfig) (calls : Nat) (input : Input) :
    Except Stop Transcript := do
  let machine ← Machine.ofInput config input
  return { registry := machine.registry, results := machine.results calls }

/-- Whatever the input is, and however it ends, every check is passed. -/
theorem transcript_eq_raise (config : DemuxerConfig) (calls : Nat) (input : Input) :
    transcript config calls input
      = raise ((Demuxer.transcript config calls input).map Transcript.ofPlain) := by
  have hstart : Carries { feed := { input }, config } { source := { input }, config } :=
    ⟨⟨Nat.le_refl _, Nat.zero_le _, rfl⟩, rfl, ⟨rfl, Registry.coherent_empty⟩, rfl⟩
  simp only [transcript, Machine.ofInput, Machine.rounds, Demuxer.transcript, Demuxer.ofInput]
  rcases Machine.readDescriptors_of_carries hstart (Machine.remaining_le hstart) with
    ⟨after, opened, hafter, hopened, hcarries⟩ | ⟨error, stopped, hstopped, hfailed⟩
  · rw [hafter, hopened]
    show Except.ok (Transcript.mk after.registry (after.results calls))
      = .ok (Transcript.mk opened.registry ((opened.results calls).map raise))
    rw [Machine.results_of_carries calls hcarries, hcarries.registry.1]
  · rw [hstopped, hfailed]
    rfl

/-- From an input that does not fail, whatever its bytes are and however they arrive, a
stream is opened and read without a fault, and every error of that is invalid data. -/
theorem faultless_transcript (config : DemuxerConfig) (calls : Nat) {input : Input}
    (hends : input.failure = none) :
    transcript config calls input
        = raise ((Demuxer.transcript config calls input).map Transcript.ofPlain)
      ∧ (∀ error, Demuxer.transcript config calls input = .error error →
        error.isInvalidData = true)
      ∧ ∀ seen, Demuxer.transcript config calls input = .ok seen →
        ∀ error, .error error ∈ seen.results → error.isInvalidData = true := by
  have hinvalid : ∀ {error : Error}, error.IsOwed input.failure → error.isInvalidData = true := by
    rintro error (hinvalid | ⟨text, hfails, -⟩)
    · exact hinvalid
    · rw [hends] at hfails
      cases hfails
  refine ⟨transcript_eq_raise config calls input, ?_, ?_⟩
  · intro error herror
    rw [Demuxer.transcript] at herror
    cases hopened : Demuxer.ofInput config input with
    | ok opened =>
      rw [hopened] at herror
      cases herror
    | error failed =>
      rw [hopened] at herror
      cases herror
      exact hinvalid (Demuxer.owed_of_ofInput hopened)
  · intro seen hseen error herror
    rw [Demuxer.transcript] at hseen
    cases hopened : Demuxer.ofInput config input with
    | error failed =>
      rw [hopened] at hseen
      cases hseen
    | ok opened =>
      rw [hopened] at hseen
      cases hseen
      exact hinvalid (Demuxer.owed_of_mem_results hopened herror)

/-- A sequence header, a frame of a substream that is not there, and one that is cut off. -/
def malformedStream : Bytes :=
  [0xf8, 0x06, 0x69, 0x61, 0x6d, 0x66, 0x00, 0x00, 0x28, 0x02, 0x09, 0x09, 0x28, 0x04, 0x01]

set_option maxRecDepth 4000 in
/-- Both frames are refused, and then the stream is at its end. -/
theorem faultless_transcript_malformed :
    ∃ seen, Demuxer.transcript {} 3 { rest := malformedStream } = .ok seen
      ∧ seen.results = [.error (.unknownReference .substream 9),
          .error (.truncated "OBU body"), .ok none]
      ∧ transcript {} 3 { rest := malformedStream } = .ok (.ofPlain seen)
      ∧ ∀ error, .error error ∈ seen.results → error.isInvalidData = true := by
  have hread : (Demuxer.transcript {} 3 { rest := malformedStream }).map (·.results)
      = .ok [.error (.unknownReference .substream 9), .error (.truncated "OBU body"),
          .ok none] := by
    decide +kernel
  obtain ⟨seen, hseen, hresults⟩ := outcome_map_eq_ok.1 hread
  have hends : ({ rest := malformedStream } : Input).failure = none := rfl
  obtain ⟨hchecked, -, hinvalid⟩ := faultless_transcript {} 3 hends
  rw [hseen] at hchecked
  exact ⟨seen, hseen, hresults, hchecked, hinvalid seen hseen⟩

end Iamf.Checked
