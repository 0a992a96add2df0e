import Iamf.Packet
import Iamf.Registry.Update
import Iamf.Stream.Source

/-!
# `Iamf.Demuxer`: reading streams

A stream is read in two phases. `Demuxer.ofInput` reads descriptors into a
registry up to the first parameter block or audio frame, which stays unread.
After that `Demuxer.readPacket` gives one audio frame at a time, with the
parameter values in effect; descriptors that come late are passed over.

Both phases handle one OBU per step, and every OBU is at least two bytes long,
which is why they come to an end.

* `readBody_eq_ok`, `skipObu_eq_ok`: an OBU that was handled is consumed whole.
* `remaining_of_descriptorStep`, `remaining_of_packetStep`: a step takes two bytes or
  more off what is to come.
-/

set_option autoImplicit false

namespace Iamf

/-- How a stream is read. -/
structure DemuxerConfig where
  /-- Whether bytes left over at the end of an OBU are an error. -/
  strict : Bool := false
  /-- The largest OBU that is accepted, header included. -/
  maxObuSize : Nat := Obu.maxSize
  deriving DecidableEq, Repr

/-- How a demuxer reads OBU bodies. -/
def DemuxerConfig.mode (config : DemuxerConfig) : ReadMode :=
  { strict := config.strict }

/-- A stream that is being read. -/
structure Demuxer where
  /-- The bytes to come. -/
  source : Source
  /-- How the stream is read. -/
  config : DemuxerConfig
  /-- The descriptors. -/
  registry : Registry := .empty
  /-- The values since the last temporal delimiter. -/
  values : Snapshot := {}
  /-- Whether iteration has met a failure. -/
  failed : Bool := false

namespace Demuxer

/-- How many bytes are to come. -/
def remaining (demuxer : Demuxer) : Nat :=
  demuxer.source.remaining

/-- A program on the source. -/
def onSource {α : Type} (program : Stateful Source α) : Stateful Demuxer α :=
  Stateful.onPart (·.source) (fun demuxer source => { demuxer with source }) program

/-- A program on the registry. -/
def onRegistry {α : Type} (program : Registry.Update α) : Stateful Demuxer α :=
  Stateful.onPart (·.registry) (fun demuxer registry => { demuxer with registry }) program

/-- The header of the next OBU, which stays unread; nothing at the end of the
input. -/
def peekHeader : Stateful Demuxer (Option Obu.Header) := do
  onSource (Source.fill Obu.maxHeaderSize)
  let demuxer ← get
  if demuxer.source.lookahead.isEmpty then return none
  else do
    let header ← liftExcept (Obu.Header.parse demuxer.source.lookahead)
    ensure (header.totalLength ≤ demuxer.config.maxObuSize)
      (.outOfRange "obu_size" header.totalLength)
    return some header

/-- Consumes the OBU of a header and gives its body. -/
def readBody (header : Obu.Header) : Stateful Demuxer Bytes := do
  onSource (Source.skip header.headerLength "OBU header")
  onSource (Source.take header.bodyLength "OBU body")

/-- Passes over the OBU of a header. -/
def skipObu (header : Obu.Header) (subject : String) : Stateful Demuxer Unit :=
  onSource (Source.skip header.totalLength subject)

/-- Forgets the values, since a temporal unit starts. -/
def startTemporalUnit (header : Obu.Header) : Stateful Demuxer Unit := do
  skipObu header "temporal delimiter"
  modify fun demuxer => { demuxer with values := {} }

/-! ### Descriptors -/

/-- Reads the OBU of a header into the registry. -/
def register (header : Obu.Header) : Stateful Demuxer Unit := do
  let body ← readBody header
  let demuxer ← get
  onRegistry (Registry.parseDescriptor demuxer.config.mode header.kind body)

/-- Handles the OBU of a header in the first phase; whether the phase goes on. -/
def handleDescriptor (header : Obu.Header) : Stateful Demuxer Bool :=
  match header.kind with
  | .parameterBlock | .audioFrame | .impliedFrame _ => return false
  | .sequenceHeader | .codecConfig | .audioElement | .mixPresentation => do
    register header
    return true
  | .temporalDelimiter => do
    startTemporalUnit header
    return true
  | .reserved _ => do
    skipObu header "OBU body"
    return true

/-- Handles one OBU of the first phase; whether the phase goes on. -/
def descriptorStep : Stateful Demuxer Bool := do
  match ← peekHeader with
  | none => return false
  | some header => handleDescriptor header

/-! ### Packets -/

/-- The substream id of an audio frame, and the coded frame. -/
def splitFrame (kind : Obu.Kind) (body : Bytes) : Except Error (UInt32 × Bytes) :=
  match kind with
  | .impliedFrame substream => return (substream.toUInt32, body)
  | _ => do
    let program : Read (UInt32 × Bytes) := do
      let substream ← Leb128.read
      let data ← Read.remaining
      return (substream, data)
    program.parse "audio frame" body

/-- The packet of an audio frame. -/
def packetOf (demuxer : Demuxer) (header : Obu.Header) (body : Bytes) :
    Except Error Packet := do
  let (id, data) ← splitFrame header.kind body
  let some substream := demuxer.registry.substream? id
    | throw (.unknownReference .substream id)
  return {
    streamIndex := substream.streamIndex
    substream := id
    data
    trim := header.trim
    values := demuxer.values }

/-- Takes in the values of a parameter block, if its parameter is defined. -/
def applyBlock (body : Bytes) : Stateful Demuxer Unit := do
  let demuxer ← get
  match ← liftExcept (Parameter.parseBlock demuxer.config.mode demuxer.registry body) with
  | some values => set { demuxer with values := demuxer.values.update values }
  | none => return ()

/-- What one OBU of the second phase gave. -/
inductive PacketStep where
  /-- The input is at its end. -/
  | ended
  /-- A packet. -/
  | packet (packet : Packet)
  /-- Nothing by itself. -/
  | passed
  deriving DecidableEq, Repr

/-- Reads the OBU of a header as a packet. -/
def readFrame (header : Obu.Header) : Stateful Demuxer Packet := do
  let body ← readBody header
  let demuxer ← get
  liftExcept (demuxer.packetOf header body)

/-- Handles the OBU of a header in the second phase. -/
def handlePacket (header : Obu.Header) : Stateful Demuxer PacketStep :=
  match header.kind with
  | .audioFrame | .impliedFrame _ => do
    let packet ← readFrame header
    return .packet packet
  | .parameterBlock => do
    let body ← readBody header
    applyBlock body
    return .passed
  | .temporalDelimiter => do
    startTemporalUnit header
    return .passed
  | .codecConfig | .audioElement | .mixPresentation | .sequenceHeader | .reserved _ => do
    skipObu header "OBU body"
    return .passed

/-- Handles one OBU of the second phase. -/
def packetStep : Stateful Demuxer PacketStep := do
  match ← peekHeader with
  | none => return .ended
  | some header => handlePacket header

/-! ### Every step consumes an OBU -/

theorem onSource_eq_ok {α : Type} {program : Stateful Source α} {demuxer after : Demuxer}
    {result : α} :
    onSource program demuxer = .ok result after
      ↔ ∃ source, program demuxer.source = .ok result source
          ∧ { demuxer with source } = after :=
  Stateful.onPart_eq_ok

/-- A header that was looked at is that of an OBU of at least two bytes, and is
still to come. -/
theorem peekHeader_eq_ok {demuxer after : Demuxer} {header : Obu.Header}
    (h : peekHeader demuxer = .ok (some header) after) :
    after.remaining = demuxer.remaining ∧ 2 ≤ header.totalLength := by
  simp only [peekHeader, Stateful.bind_eq_ok, onSource_eq_ok] at h
  obtain ⟨_, middle, ⟨source, hfill, rfl⟩, state, _, hget, h⟩ := h
  cases hget
  split at h
  · cases h
  · simp only [Stateful.bind_eq_ok, Stateful.liftExcept_eq_ok] at h
    obtain ⟨parsed, _, ⟨hparse, rfl⟩, _, _, hensure, h⟩ := h
    simp only [ensure] at hensure
    split at hensure
    · cases hensure
      cases h
      exact ⟨Source.remaining_fill hfill, Obu.Header.two_le_totalLength hparse⟩
    · cases hensure

/-- Reading a body consumes its OBU. -/
theorem readBody_eq_ok {header : Obu.Header} {demuxer after : Demuxer} {body : Bytes}
    (h : readBody header demuxer = .ok body after) :
    after.remaining + header.totalLength = demuxer.remaining := by
  simp only [readBody, Stateful.bind_eq_ok, onSource_eq_ok] at h
  obtain ⟨_, _, ⟨first, hskip, rfl⟩, second, htake, rfl⟩ := h
  have hskipped := Source.skip_eq_ok hskip
  have htaken := (Source.take_eq_ok htake).2.2
  simp only [remaining, Obu.Header.totalLength] at *
  omega

/-- Passing over an OBU consumes it. -/
theorem skipObu_eq_ok {header : Obu.Header} {subject : String} {demuxer after : Demuxer}
    {result : Unit} (h : skipObu header subject demuxer = .ok result after) :
    after.remaining + header.totalLength = demuxer.remaining := by
  simp only [skipObu, onSource_eq_ok] at h
  obtain ⟨source, hskip, rfl⟩ := h
  exact Source.skip_eq_ok hskip

theorem startTemporalUnit_eq_ok {header : Obu.Header} {demuxer after : Demuxer}
    {result : Unit} (h : startTemporalUnit header demuxer = .ok result after) :
    after.remaining + header.totalLength = demuxer.remaining := by
  simp only [startTemporalUnit, Stateful.bind_eq_ok, Stateful.modify_eq_ok] at h
  obtain ⟨_, middle, hskip, rfl⟩ := h
  have hskipped := skipObu_eq_ok hskip
  exact hskipped

theorem applyBlock_eq_ok {body : Bytes} {demuxer after : Demuxer} {result : Unit}
    (h : applyBlock body demuxer = .ok result after) :
    after.remaining = demuxer.remaining := by
  simp only [applyBlock, Stateful.bind_eq_ok, Stateful.liftExcept_eq_ok] at h
  obtain ⟨state, _, hget, values, _, ⟨-, rfl⟩, h⟩ := h
  cases hget
  cases values <;> cases h <;> rfl

theorem register_eq_ok {header : Obu.Header} {demuxer after : Demuxer} {result : Unit}
    (h : register header demuxer = .ok result after) :
    after.remaining + header.totalLength = demuxer.remaining := by
  simp only [register, Stateful.bind_eq_ok, onRegistry, Stateful.onPart_eq_ok] at h
  obtain ⟨body, _, hbody, state, _, hget, registry, -, rfl⟩ := h
  cases hget
  have hread := readBody_eq_ok hbody
  exact hread

theorem readFrame_eq_ok {header : Obu.Header} {demuxer after : Demuxer} {packet : Packet}
    (h : readFrame header demuxer = .ok packet after) :
    after.remaining + header.totalLength = demuxer.remaining := by
  simp only [readFrame, Stateful.bind_eq_ok, Stateful.liftExcept_eq_ok] at h
  obtain ⟨body, _, hbody, state, _, hget, -, rfl⟩ := h
  cases hget
  exact readBody_eq_ok hbody

/-- An OBU after which the first phase goes on was consumed whole. -/
theorem handleDescriptor_eq_ok {header : Obu.Header} {demuxer after : Demuxer}
    (h : handleDescriptor header demuxer = .ok true after) :
    after.remaining + header.totalLength = demuxer.remaining := by
  cases hkind : header.kind
  all_goals simp only [handleDescriptor, hkind, Stateful.bind_eq_ok, Stateful.pure_eq_ok] at h
  case parameterBlock => exact absurd h.1 (by simp)
  case audioFrame => exact absurd h.1 (by simp)
  case impliedFrame => exact absurd h.1 (by simp)
  case temporalDelimiter =>
    obtain ⟨_, _, hstart, -, rfl⟩ := h
    exact startTemporalUnit_eq_ok hstart
  case reserved =>
    obtain ⟨_, _, hskip, -, rfl⟩ := h
    exact skipObu_eq_ok hskip
  all_goals
    obtain ⟨_, _, hregister, -, rfl⟩ := h
    exact register_eq_ok hregister

/-- An OBU that the second phase handled was consumed whole. -/
theorem handlePacket_eq_ok {header : Obu.Header} {demuxer after : Demuxer}
    {step : PacketStep} (h : handlePacket header demuxer = .ok step after) :
    after.remaining + header.totalLength = demuxer.remaining := by
  cases hkind : header.kind
  all_goals simp only [handlePacket, hkind, Stateful.bind_eq_ok, Stateful.pure_eq_ok] at h
  case audioFrame =>
    obtain ⟨_, _, hframe, -, rfl⟩ := h
    exact readFrame_eq_ok hframe
  case impliedFrame =>
    obtain ⟨_, _, hframe, -, rfl⟩ := h
    exact readFrame_eq_ok hframe
  case parameterBlock =>
    obtain ⟨_, _, hbody, _, _, happly, -, rfl⟩ := h
    rw [applyBlock_eq_ok happly]
    exact readBody_eq_ok hbody
  case temporalDelimiter =>
    obtain ⟨_, _, hstart, -, rfl⟩ := h
    exact startTemporalUnit_eq_ok hstart
  all_goals
    obtain ⟨_, _, hskip, -, rfl⟩ := h
    exact skipObu_eq_ok hskip

/-- A step of the first phase that lets it go on takes an OBU off what is to come. -/
theorem remaining_of_descriptorStep {demuxer after : Demuxer}
    (h : descriptorStep demuxer = .ok true after) :
    after.remaining + 2 ≤ demuxer.remaining := by
  simp only [descriptorStep, Stateful.bind_eq_ok] at h
  obtain ⟨peeked, middle, hpeek, h⟩ := h
  cases peeked with
  | none => cases h
  | some header =>
    obtain ⟨hremaining, hlength⟩ := peekHeader_eq_ok hpeek
    have := handleDescriptor_eq_ok h
    omega

theorem descriptorStep_eq_ok {demuxer after : Demuxer}
    (h : descriptorStep demuxer = .ok true after) :
    after.remaining < demuxer.remaining :=
  Nat.lt_of_succ_lt (remaining_of_descriptorStep h)

/-- A step of the second phase before the end of the input takes an OBU off what is to
come. -/
theorem remaining_of_packetStep {demuxer after : Demuxer} {step : PacketStep}
    (h : packetStep demuxer = .ok step after) (hstep : step ≠ .ended) :
    after.remaining + 2 ≤ demuxer.remaining := by
  simp only [packetStep, Stateful.bind_eq_ok] at h
  obtain ⟨peeked, middle, hpeek, h⟩ := h
  cases peeked with
  | none =>
    cases h
    exact absurd rfl hstep
  | some header =>
    obtain ⟨hremaining, hlength⟩ := peekHeader_eq_ok hpeek
    have := handlePacket_eq_ok h
    omega

theorem packetStep_eq_ok {demuxer after : Demuxer} {step : PacketStep}
    (h : packetStep demuxer = .ok step after) (hstep : step ≠ .ended) :
    after.remaining < demuxer.remaining :=
  Nat.lt_of_succ_lt (remaining_of_packetStep h hstep)

/-! ### Running the phases -/

/-- Reads descriptors up to the first parameter block or audio frame, or the
end of the input. -/
def readDescriptors (demuxer : Demuxer) : Except Error Demuxer :=
  match _h : descriptorStep demuxer with
  | .ok true after => readDescriptors after
  | .ok false after => .ok after
  | .error error _ => .error error
  termination_by demuxer.remaining
  decreasing_by exact descriptorStep_eq_ok _h

/-- Starts to read a stream. -/
def ofInput (config : DemuxerConfig) (input : Input) : Except Error Demuxer :=
  readDescriptors { source := { input }, config }

/-- Starts to read a stream that is all there. -/
def ofBytes (config : DemuxerConfig) (bytes : Bytes) : Except Error Demuxer :=
  ofInput config { rest := bytes }

/-- The next packet; nothing at the end of the input. -/
def readPacket (demuxer : Demuxer) : EStateM.Result Error Demuxer (Option Packet) :=
  match _h : packetStep demuxer with
  | .ok .ended after => .ok none after
  | .ok (.packet packet) after => .ok (some packet) after
  | .ok .passed after => readPacket after
  | .error error after => .error error after
  termination_by demuxer.remaining
  decreasing_by exact packetStep_eq_ok _h (by simp)

/-- A packet comes of an OBU, which is taken off what is to come. -/
theorem remaining_of_readPacket {demuxer after : Demuxer} {packet : Packet}
    (h : readPacket demuxer = .ok (some packet) after) :
    after.remaining + 2 ≤ demuxer.remaining := by
  fun_induction readPacket demuxer with
  | case1 => cases h
  | case2 demuxer packet next hstep =>
    cases h
    exact remaining_of_packetStep hstep (by simp)
  | case3 demuxer next hstep ih =>
    exact Nat.le_trans (ih h) (Nat.le_of_lt (packetStep_eq_ok hstep (by simp)))
  | case4 => cases h

theorem readPacket_eq_ok {demuxer after : Demuxer} {packet : Packet}
    (h : readPacket demuxer = .ok (some packet) after) :
    after.remaining < demuxer.remaining :=
  Nat.lt_of_succ_lt (remaining_of_readPacket h)

/-- The next item of an iteration over packets, which ends at the end of the
input or behind the first failure. -/
def next (demuxer : Demuxer) : Option (Except Error Packet) × Demuxer :=
  if demuxer.failed then (none, demuxer)
  else match demuxer.readPacket with
    | .ok none after => (none, after)
    | .ok (some packet) after => (some (.ok packet), after)
    | .error error after => (some (.error error), { after with failed := true })

/-- A bound on how many items an iteration still has: every OBU has at least
two bytes, and after a failure there is nothing. -/
def itemBound (demuxer : Demuxer) : Nat :=
  if demuxer.failed then 0 else demuxer.remaining + 1

/-- Every item lowers the bound on those to come. -/
theorem next_eq_some {demuxer after : Demuxer} {item : Except Error Packet}
    (h : demuxer.next = (some item, after)) : after.itemBound < demuxer.itemBound := by
  simp only [next] at h
  split at h
  · cases h
  · rename_i hfailed
    split at h
    · cases h
    · rename_i packet next hread
      cases h
      have hlt := readPacket_eq_ok hread
      simp only [itemBound, if_neg hfailed]
      split <;> omega
    · cases h
      simp [itemBound, hfailed]

/-- All items of an iteration over packets. -/
def items (demuxer : Demuxer) : List (Except Error Packet) :=
  match _h : demuxer.next with
  | (none, _) => []
  | (some item, after) => item :: items after
  termination_by demuxer.itemBound
  decreasing_by exact next_eq_some _h

end Demuxer

end Iamf
