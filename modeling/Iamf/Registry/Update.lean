import Iamf.Element.Wire
import Iamf.Mix.Wire
import Iamf.Parameter.Block
import Iamf.Stateful

/-!
# `Iamf.Registry.Update`: registering descriptors

Descriptors come into a registry either as models built by hand (`add…`) or as
OBU bodies (`parseDescriptor`). Both ways refuse an id that is taken, a
reference to nothing and a parameter that is defined again in another shape.

An `Update` is a program on a registry; its result holds the registry after it,
also after a failure.
-/

set_option autoImplicit false

namespace Iamf

namespace Registry

/-- A program that changes a registry, and may fail. -/
abbrev Update (α : Type) := Stateful Registry α

/-- The registry with further parameter definitions. A definition takes the
place of an earlier one of its id, which keeps its link if it has one. -/
def mergeParameters (registry : Registry) (definitions : List Parameter) : Registry :=
  { registry with
    parameters := definitions.foldl
      (fun parameters definition => definition.putInto
        (fun old latest => { latest with element := old.element <|> latest.element })
        parameters)
      registry.parameters }

/-- The trait in which two definitions of one parameter differ. -/
def conflict? (old latest : Parameter) : Option ParameterTrait :=
  if old.kind ≠ latest.kind then some .kind
  else if old.selfTimed ≠ latest.selfTimed then some .timing
  else if old.subblocks.length ≠ latest.subblocks.length then some .subblockCount
  else none

/-- Whether definitions agree with the ones before them: those in the list, and
then those in the registry. `seen` holds the part of the list that was checked,
latest first. -/
def checkParameters (registry : Registry) (seen : List Parameter) :
    List Parameter → Except Error Unit
  | [] => return ()
  | definition :: definitions => do
    let old := seen.find? (·.id = definition.id) <|> registry.parameter? definition.id
    match old.bind (conflict? · definition) with
    | some trait => throw (.inconsistentParameter definition.id trait)
    | none => checkParameters registry (definition :: seen) definitions

/-- Whether the id of a substream of an element is taken, by the registry or by
another substream of the element. -/
def isTaken (registry : Registry) (element : AudioElement) (substream : Substream) : Bool :=
  (registry.substream? substream.id).isSome
    || 1 < (element.substreams.filter (·.id = substream.id)).length

/-- Registers an element with its definitions, unless a substream id is taken. -/
def commitAudioElement (element : AudioElement) (definitions : List Parameter) :
    Update Unit := do
  let registry ← get
  match element.substreams.find? (registry.isTaken element) with
  | some substream => throw (.duplicateId .substream substream.id)
  | none =>
    modify (·.mergeParameters definitions)
    modify fun registry =>
      { registry with audioElements := registry.audioElements ++ [element] }

/-- Registers a mix presentation with its definitions. -/
def commitMixPresentation (mix : MixPresentation) (definitions : List Parameter) :
    Update Unit := do
  modify (·.mergeParameters definitions)
  modify fun registry =>
    { registry with mixPresentations := registry.mixPresentations ++ [mix] }

/-- Sets the sequence header. -/
def setSequenceHeader (header : SequenceHeader) : Update Unit :=
  modify fun registry => { registry with sequenceHeader := some header }

/-- Registers a codec config. -/
def addCodecConfig (config : CodecConfig) : Update Unit := do
  let registry ← get
  ensure (registry.codecConfig? config.id = none) (.duplicateId .codecConfig config.id)
  modify fun registry =>
    { registry with codecConfigs := registry.codecConfigs ++ [config] }

/-- An element as it is registered: its substreams shared out and numbered, its
parameters linked to it. -/
def prepareAudioElement (registry : Registry) (element : AudioElement) :
    Except Error AudioElement := do
  ensure (registry.audioElement? element.id = none) (.duplicateId .audioElement element.id)
  let some config := registry.codecConfig? element.codecConfig
    | throw (.unknownReference .codecConfig element.codecConfig)
  element.validate
  let assigned ← element.assignSubstreams config
  let prepared := (assigned.numberFrom registry.streamCount).linkParameters
  registry.checkParameters [] prepared.parameters
  return prepared

/-- Registers an audio element. Its codec config must be registered. -/
def addAudioElement (element : AudioElement) : Update Unit := do
  let registry ← get
  let prepared ← liftExcept (registry.prepareAudioElement element)
  commitAudioElement prepared prepared.parameters

/-- A mix presentation as it is registered: the gains of its elements linked. -/
def prepareMixPresentation (registry : Registry) (mix : MixPresentation) :
    Except Error MixPresentation := do
  ensure (registry.mixPresentation? mix.id = none) (.duplicateId .mixPresentation mix.id)
  match mix.elements.find? fun member => registry.audioElement? member.element = none with
  | some member => throw (.unknownReference .audioElement member.element)
  | none =>
    let prepared := mix.linkParameters
    registry.checkParameters [] prepared.parameters
    return prepared

/-- Registers a mix presentation. The elements it refers to must be registered. -/
def addMixPresentation (mix : MixPresentation) : Update Unit := do
  let registry ← get
  let prepared ← liftExcept (registry.prepareMixPresentation mix)
  commitMixPresentation prepared prepared.parameters

/-- Reads the body of a descriptor into the registry. Elements of unsupported
codecs, and bodies of other kinds, leave it as it is. -/
def parseDescriptor (mode : ReadMode) (kind : Obu.Kind) (body : Bytes) : Update Unit := do
  let registry ← get
  match kind with
  | .sequenceHeader => do
    let header ← liftExcept (SequenceHeader.parse mode.strict body)
    setSequenceHeader header
  | .codecConfig => do
    let config ← liftExcept (CodecConfig.parse mode.strict body)
    addCodecConfig config
  | .audioElement => do
    match ← liftExcept (AudioElement.parse mode registry body) with
    | some (element, definitions) => commitAudioElement element definitions
    | none => return ()
  | .mixPresentation => do
    let (mix, definitions) ← liftExcept (MixPresentation.parse mode registry body)
    commitMixPresentation mix definitions
  | _ => return ()

end Registry

end Iamf
