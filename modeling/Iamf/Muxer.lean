import Iamf.Packet
import Iamf.Registry.Update
import Iamf.Stream.Sink

/-!
# `Iamf.Muxer`: writing streams

A registry describes the stream. `Muxer.writeHeader` writes it as descriptors;
then every temporal unit starts with `Muxer.writeTemporalDelimiter` and goes on
with `Muxer.writePacket`. Each call hands its bytes to the sink in one piece,
so a call that fails writes nothing.
-/

set_option autoImplicit false

namespace Iamf

/-- A stream that is being written. -/
structure Muxer where
  /-- Where the stream goes. -/
  sink : Sink := {}
  /-- What the stream consists of. -/
  registry : Registry
  /-- Whether the descriptors have been written. -/
  headerWritten : Bool := false
  deriving DecidableEq, Repr

namespace Muxer

/-- A program on the sink. -/
def onSink {α : Type} (program : Stateful Sink α) : Stateful Muxer α :=
  Stateful.onPart (·.sink) (fun muxer sink => { muxer with sink }) program

/-- The sequence header of a stream: streams of more than one element need the
next higher profile. -/
def sequenceHeader (registry : Registry) : SequenceHeader :=
  let profile := if 1 < registry.audioElements.length then 1 else 0
  { primaryProfile := profile, additionalProfile := profile }

/-- The bytes of the OBU of a body that is still to be encoded. -/
def encodeObu (kind : Obu.Kind) (body : Except Error Bytes) : Except Error Bytes := do
  Obu.encode kind (← body)

/-- The bytes of all descriptors, sequence header first. -/
def encodeHeader (registry : Registry) : Except Error Bytes := do
  let sequence ← encodeObu .sequenceHeader (pure (sequenceHeader registry).encode)
  let configs ← registry.codecConfigs.mapM fun config =>
    encodeObu .codecConfig config.encode
  let elements ← registry.audioElements.mapM fun element =>
    encodeObu .audioElement element.encode
  let mixes ← registry.mixPresentations.mapM fun mix =>
    encodeObu .mixPresentation mix.encode
  return sequence ++ configs.flatten ++ elements.flatten ++ mixes.flatten

/-- Writes the sequence header and all descriptors. -/
def writeHeader : Stateful Muxer Unit := do
  let muxer ← get
  let header ← liftExcept (encodeHeader muxer.registry)
  onSink (Sink.write header)
  modify fun muxer => { muxer with headerWritten := true }

/-- Writes a temporal delimiter. -/
def writeTemporalDelimiter : Stateful Muxer Unit := do
  let delimiter ← liftExcept (encodeObu .temporalDelimiter (pure []))
  onSink (Sink.write delimiter)

/-- The bytes of the parameter block of some values. -/
def encodeBlock (registry : Registry) (values : Parameter) : Except Error Bytes :=
  match registry.parameter? values.id with
  | none => throw (.invalidModel (.undefinedParameter values.id))
  | some definition => encodeObu .parameterBlock (values.encodeBlock definition registry)

/-- The bytes of the audio frame of a packet. Ids that the kind does not imply
come before the frame. -/
def encodeFrame (substream : Substream) (packet : Packet) : Except Error Bytes := do
  let kind := Obu.Kind.ofSubstream substream.id
  let body :=
    if kind = .audioFrame then Leb128.encode substream.id ++ packet.data else packet.data
  let header ← Obu.Header.encode { kind, trim := packet.trim, bodyLength := body.length }
  return header ++ body

/-- The bytes of a packet: for the first stream the parameter blocks of its
values, then the audio frame. -/
def encodePacket (registry : Registry) (packet : Packet) : Except Error Bytes := do
  match registry.substreams.find? (·.streamIndex = packet.streamIndex) with
  | none => throw (.invalidModel (.unknownStream packet.streamIndex))
  | some substream =>
    let values := if packet.streamIndex = 0 then packet.values.toList else []
    let blocks ← values.mapM (encodeBlock registry)
    let frame ← encodeFrame substream packet
    return blocks.flatten ++ frame

/-- Writes an audio frame. -/
def writePacket (packet : Packet) : Stateful Muxer Unit := do
  let muxer ← get
  ensure (muxer.headerWritten = true) (.invalidModel .packetBeforeHeader)
  let bytes ← liftExcept (encodePacket muxer.registry packet)
  onSink (Sink.write bytes)

/-- Has the sink pass on what it holds back. -/
def flush : Stateful Muxer Unit :=
  onSink Sink.flush

end Muxer

end Iamf
