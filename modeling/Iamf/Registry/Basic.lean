import Iamf.Element.Basic
import Iamf.Mix.Basic
import Iamf.SequenceHeader

/-!
# `Iamf.Registry.Basic`: the descriptors of a stream

The registry holds what the descriptors of a stream have declared: codec
configs, audio elements and mix presentations in the order in which they came,
and the latest definition of every parameter.
-/

set_option autoImplicit false

namespace Iamf

/-- The descriptors of one stream. -/
structure Registry where
  /-- The last sequence header. -/
  sequenceHeader : Option SequenceHeader := none
  /-- Codec configs. -/
  codecConfigs : List CodecConfig := []
  /-- Audio elements. -/
  audioElements : List AudioElement := []
  /-- Mix presentations. -/
  mixPresentations : List MixPresentation := []
  /-- Parameter definitions, the latest of each id. -/
  parameters : List Parameter := []
  deriving DecidableEq, Repr

namespace Registry

/-- A registry without descriptors. -/
def empty : Registry := {}

/-- The codec config of an id. -/
def codecConfig? (registry : Registry) (id : UInt32) : Option CodecConfig :=
  registry.codecConfigs.find? (·.id = id)

/-- The audio element of an id. -/
def audioElement? (registry : Registry) (id : UInt32) : Option AudioElement :=
  registry.audioElements.find? (·.id = id)

/-- The mix presentation of an id. -/
def mixPresentation? (registry : Registry) (id : UInt32) : Option MixPresentation :=
  registry.mixPresentations.find? (·.id = id)

/-- The parameter definition of an id. -/
def parameter? (registry : Registry) (id : UInt32) : Option Parameter :=
  registry.parameters.find? (·.id = id)

/-- All substreams, in stream order. -/
def substreams (registry : Registry) : List Substream :=
  registry.audioElements.flatMap (·.substreams)

/-- The substream of an id. -/
def substream? (registry : Registry) (id : UInt32) : Option Substream :=
  registry.substreams.find? (·.id = id)

/-- The number of substreams, each of which is a stream of packets. -/
def streamCount (registry : Registry) : Nat :=
  registry.substreams.length

/-- The layers that carry recon gain, of the element that a parameter belongs to. -/
def reconGainLayers (registry : Registry) (parameter : Parameter) :
    Except Error (List Nat) :=
  match parameter.element with
  | none => throw (.invalidData (.reconGainWithoutElement parameter.id))
  | some id =>
    match registry.audioElement? id with
    | none => throw (.unknownReference .audioElement id)
    | some element => return element.reconGainLayers

end Registry

end Iamf
