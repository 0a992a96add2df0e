import Iamf.Parameter.Kind
import Iamf.Ratio

/-!
# `Iamf.Parameter.Basic`: time varying parameters

A parameter is declared by a definition inside an audio element or a mix
presentation, and parameter blocks later carry its values. Both say how the
duration is split into subblocks, so one type, `Parameter`, holds either. When
the definition is self timed the timeline lives in the definition and blocks
carry values only; otherwise every block brings its own timeline.

A `Parameter` is plain data. Nothing makes the subblocks agree with the
durations or with the kind: a model handed in for writing may be wrong, and
writing it is what finds out.
-/

set_option autoImplicit false

namespace Iamf

/-- The most layers of a scalable audio element. -/
def maxLayers : Nat := 6

/-- Recon gain slots per layer. -/
def reconGainSlots : Nat := 12

/-- The most subblocks of a parameter. A count that follows from durations costs
no bytes, so the size of the OBU does not limit it. -/
def maxSubblocks : Nat := 65536

/-- Recon gains of one layer, by channel slot. -/
abbrev GainRow := Vector UInt8 reconGainSlots

/-- Recon gains of an element, by layer. -/
abbrev GainTable := Vector GainRow maxLayers

/-- No recon gain on any slot. -/
def GainRow.zero : GainRow := Vector.replicate _ 0

/-- No recon gain on any layer. -/
def GainTable.zero : GainTable := Vector.replicate _ GainRow.zero

/-- The course of a mix gain over a subblock, in dB. -/
inductive Animation where
  /-- A constant gain. -/
  | step (start : Ratio)
  /-- A linear ramp. -/
  | linear (start finish : Ratio)
  /-- A quadratic Bezier curve; the position of the control point is in 256ths
  of the subblock. -/
  | bezier (start finish control : Ratio) (controlTime : UInt8)
  deriving DecidableEq, Repr

/-- What a subblock says about its parameter. -/
inductive SubblockValue where
  /-- The course of a gain. -/
  | mixGain (animation : Animation)
  /-- A predefined mode of down-mixing, three bits. -/
  | demixing (mode : UInt8)
  /-- Gains by layer and channel slot. -/
  | reconGain (table : GainTable)
  deriving DecidableEq, Repr

namespace SubblockValue

/-- The kind of parameter that a value belongs to. -/
def kind : SubblockValue → ParameterKind
  | mixGain _ => .mixGain
  | demixing _ => .demixing
  | reconGain _ => .reconGain

/-- The value of a subblock that only has a duration. -/
def empty : ParameterKind → SubblockValue
  | .mixGain => mixGain (.step .zero)
  | .demixing => demixing 0
  | .reconGain => reconGain .zero

theorem kind_empty (kind : ParameterKind) : (empty kind).kind = kind := by
  cases kind <;> rfl

end SubblockValue

/-- One segment of a timeline. -/
structure Subblock where
  /-- The duration in ticks of the parameter rate. -/
  duration : UInt32
  /-- The value over that time. -/
  value : SubblockValue
  deriving DecidableEq, Repr

namespace Subblock

/-- The kind of parameter that a subblock belongs to. -/
def kind (subblock : Subblock) : ParameterKind :=
  subblock.value.kind

/-- A subblock that only has a duration. -/
def empty (kind : ParameterKind) (duration : UInt32) : Subblock :=
  { duration, value := .empty kind }

end Subblock

/-- A parameter definition, or the values of one parameter block. -/
structure Parameter where
  /-- Names the parameter in a stream. -/
  id : UInt32
  /-- What the parameter controls. -/
  kind : ParameterKind
  /-- Ticks per second. -/
  rate : UInt32
  /-- Whether the definition carries the timeline. -/
  selfTimed : Bool
  /-- The whole duration in ticks. -/
  duration : UInt32
  /-- The duration of every subblock, or zero if each has its own. -/
  constantDuration : UInt32
  /-- The subblocks, in order. -/
  subblocks : List Subblock
  /-- The audio element that the parameter belongs to, if it belongs to one. -/
  element : Option UInt32
  deriving DecidableEq, Repr

namespace Parameter

/-- A self timed definition with one subblock that lasts throughout. -/
def single (id : UInt32) (kind : ParameterKind) (rate duration : UInt32) : Parameter where
  id
  kind
  rate
  selfTimed := true
  duration
  constantDuration := duration
  subblocks := [.empty kind duration]
  element := none

/-- The number of subblocks that a constant duration implies. -/
def impliedSubblocks (duration constantDuration : UInt32) : UInt32 :=
  duration / constantDuration

end Parameter

end Iamf
