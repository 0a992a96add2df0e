import Iamf.Obu.Header
import Iamf.SequenceHeader

/-!
# `Iamf.Obu.Probe`: guessing whether bytes are a stream

`probe` walks the OBUs at the start of some input. A sequence header with the
magic must come first; then an audio frame settles the matter, and descriptors
that end exactly at the end of the input are as good as a file extension.
Anything else, and a header or body that is cut off, is no match.
-/

set_option autoImplicit false

namespace Iamf.Obu

/-- The score of a certain match. -/
def scoreCertain : UInt8 := 100

/-- The score of a match as good as a file extension. -/
def scoreExtension : UInt8 := 50

/-- How far a walk over OBUs has come. -/
inductive ProbeState where
  /-- Nothing seen yet. -/
  | start
  /-- Only sequence headers so far. -/
  | inSequence
  /-- Another OBU followed the sequence header. -/
  | confirmed
  deriving DecidableEq, Repr

/-- What one OBU means for the walk: the state after it, or the final score. -/
def probeStep (state : ProbeState) (header : Header) (bytes : Bytes) :
    ProbeState ⊕ UInt8 :=
  match header.kind with
  | .sequenceHeader =>
    if SequenceHeader.magic.isPrefixOf (bytes.drop header.headerLength) then
      .inl (if state = .start then .inSequence else state)
    else .inr 0
  | .codecConfig | .audioElement | .mixPresentation | .parameterBlock | .temporalDelimiter =>
    if state = .start then .inr 0 else .inl .confirmed
  | .audioFrame | .impliedFrame _ =>
    if state = .start then .inr 0 else .inr (scoreExtension + 1)
  | .reserved _ => .inr 0

theorem length_drop_pred_cons {bytes rest : Bytes} {byte : UInt8} {n : Nat}
    (h : bytes.drop n = byte :: rest) : rest.length < bytes.length := by
  have := congrArg List.length h
  simp only [List.length_drop, List.length_cons] at this
  omega

/-- The score of a walk that has come to `bytes`. -/
def probeFrom (state : ProbeState) (bytes : Bytes) : UInt8 :=
  if bytes.isEmpty then
    if state = .confirmed then scoreExtension else 0
  else
    match Header.parse bytes with
    | .error _ => 0
    | .ok header =>
      match probeStep state header bytes with
      | .inr score => score
      | .inl state =>
        -- The last byte of the OBU, if it is there, and what follows it.
        match _h : bytes.drop (header.totalLength - 1) with
        | [] => 0
        | _ :: rest => probeFrom state rest
  termination_by bytes.length
  decreasing_by exact length_drop_pred_cons _h

/-- How well the start of some input matches a stream. -/
def probe (bytes : Bytes) : UInt8 :=
  probeFrom .start bytes

end Iamf.Obu
