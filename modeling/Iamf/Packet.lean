import Iamf.Obu.Header
import Iamf.Parameter.Basic

/-!
# `Iamf.Packet`: coded frames with the values in effect
-/

set_option autoImplicit false

namespace Iamf

/-- For each kind of parameter the latest values since the last temporal
delimiter. -/
structure Snapshot where
  /-- Mix gain values. -/
  mixGain : Option Parameter := none
  /-- Down-mixing values. -/
  demixing : Option Parameter := none
  /-- Recon gain values. -/
  reconGain : Option Parameter := none
  deriving DecidableEq, Repr

namespace Snapshot

/-- The snapshot with newer values for their kind. -/
def update (snapshot : Snapshot) (values : Parameter) : Snapshot :=
  match values.kind with
  | .mixGain => { snapshot with mixGain := some values }
  | .demixing => { snapshot with demixing := some values }
  | .reconGain => { snapshot with reconGain := some values }

/-- The values of all kinds, in the order in which they are written. -/
def toList (snapshot : Snapshot) : List Parameter :=
  snapshot.mixGain.toList ++ snapshot.demixing.toList ++ snapshot.reconGain.toList

end Snapshot

/-- One coded frame of a substream. -/
structure Packet where
  /-- The stream that the frame belongs to. -/
  streamIndex : Nat
  /-- The substream id that the frame was carried with. -/
  substream : UInt32
  /-- The coded frame. -/
  data : Bytes
  /-- Trimming, if the frame has any. -/
  trim : Option Obu.Trim := none
  /-- The parameter values in effect. -/
  values : Snapshot := {}
  deriving DecidableEq, Repr

end Iamf
