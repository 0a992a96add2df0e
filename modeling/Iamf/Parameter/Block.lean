import Iamf.Parameter.Definition
import Iamf.Registry.Basic

/-!
# `Iamf.Parameter.Block`: reading and writing parameter blocks

A parameter block carries the values of one defined parameter. If the
definition is self timed the block has values only, one per subblock of the
definition; otherwise it starts with a timeline of its own. Recon gain has a
row for each layer that carries it.
-/

set_option autoImplicit false

namespace Iamf.Parameter

/-- The timeline of a block: the definition's, or the block's own. -/
def readBlockTimeline (definition : Parameter) : Read Timeline :=
  if definition.selfTimed then
    let listed := UInt32.ofNat definition.subblocks.length
    return {
      duration := definition.duration
      constantDuration := definition.constantDuration
      count :=
        if listed = 0 ∧ definition.constantDuration ≠ 0 then
          impliedSubblocks definition.duration definition.constantDuration
        else listed }
  else do
    let duration ← Leb128.read
    let constantDuration ← Leb128.read
    let count ←
      if constantDuration = 0 then Leb128.read
      else pure (impliedSubblocks duration constantDuration)
    return { duration, constantDuration, count }

/-- Reads the duration of a subblock of a block. Where neither the block nor a
constant says it, it is that of the definition's subblock at the same place. -/
def readBlockDuration (selfTimed : Bool) (constantDuration : UInt32)
    (defined : Option Subblock) : Read UInt32 :=
  if selfTimed = false ∧ constantDuration = 0 then Leb128.read
  else if constantDuration ≠ 0 then return constantDuration
  else return (defined.map (·.duration)).getD 0

/-- Reads a subblock of a block. `defined` are the definition's subblocks from
the same place on; the result has those from the next place on. -/
def readBlockSubblock (definition : Parameter) (constantDuration : UInt32)
    (carrying : List Nat) (defined : List Subblock) : Read (Subblock × List Subblock) := do
  let duration ← readBlockDuration definition.selfTimed constantDuration defined.head?
  let value ← SubblockValue.read definition.kind carrying
  return ({ duration, value }, defined.tail)

/-- The layers that recon gain rows in blocks of a definition are for; none if
it is of another kind. -/
def carryingLayers (definition : Parameter) (registry : Registry) :
    Except Error (List Nat) :=
  if definition.kind = .reconGain then registry.reconGainLayers definition else return []

/-- Reads the part of a block after the id. -/
def readBlockOf (mode : ReadMode) (registry : Registry) (definition : Parameter) :
    Read Parameter := do
  let timeline ← readBlockTimeline definition
  checkSubblockCount timeline.count
  let carrying ← liftExcept (definition.carryingLayers registry)
  -- A subblock may take no bytes only where no layer carries recon gain.
  if definition.kind ≠ .reconGain ∨ carrying ≠ [] then
    mode.checkCount timeline.count.toNat "parameter block subblocks"
  let (subblocks, _) ← Read.timesWith timeline.count.toNat definition.subblocks
    (readBlockSubblock definition timeline.constantDuration carrying)
  Read.finish .parameterBlock mode.strict
  return { definition with
    duration := timeline.duration
    constantDuration := timeline.constantDuration
    subblocks }

/-- Reads a parameter block body; nothing if the parameter is not defined. -/
def readBlock (mode : ReadMode) (registry : Registry) : Read (Option Parameter) := do
  let id ← Leb128.read
  match registry.parameter? id with
  | none => return none
  | some definition => some <$> readBlockOf mode registry definition

/-- The values of a parameter block body; nothing if the parameter is not defined. -/
def parseBlock (mode : ReadMode) (registry : Registry) (body : Bytes) :
    Except Error (Option Parameter) :=
  (readBlock mode registry).parse "parameter block" body

/-- The bytes of one subblock of a block. -/
def encodeBlockSubblock (values : Parameter) (carrying : List Nat) (subblock : Subblock) :
    Bytes :=
  (if values.selfTimed = false ∧ values.constantDuration = 0 then
      Leb128.encode subblock.duration
    else [])
    ++ subblock.value.encode carrying

/-- The OBU body of the values of a parameter, against its definition. -/
def encodeBlock (values definition : Parameter) (registry : Registry) :
    Except Error Bytes := do
  ensure (values.kind = definition.kind ∧ values.selfTimed = definition.selfTimed)
    (.invalidModel (.blockMismatch values.id))
  if values.selfTimed then
    ensure (values.subblocks.length = definition.subblocks.length)
      (.invalidModel (.blockSubblockCount values.id values.subblocks.length
        definition.subblocks.length))
  else values.checkTimeline
  let carrying ← definition.carryingLayers registry
  return Leb128.encode values.id
    ++ (if values.selfTimed then [] else values.encodeTimeline)
    ++ values.subblocks.flatMap (encodeBlockSubblock values carrying)

end Iamf.Parameter
