import Iamf.Parameter.Definition
import Iamf.Registry.Basic
import Iamf.Text.Terminated

/-!
# `Iamf.Mix.Wire`: reading and writing mix presentations

A mix presentation body starts with the language labels; every place that has
texts then has one text per label. The elements that submixes refer to must
come before the presentation.
-/

set_option autoImplicit false

namespace Iamf

namespace Annotations

/-- Reads one text per label. -/
def read (labels : List String) : Read Annotations :=
  go {} labels
where
  /-- Adds one text per label to those that have been read. -/
  go (annotations : Annotations) : List String → Read Annotations
    | [] => return annotations
    | label :: labels => do
      let text ← Text.Terminated.read
      go (annotations.insert label text) labels

/-- The bytes of one text per label, empty where a label has none. -/
def encode (annotations : Annotations) (labels : List String) : Except Error Bytes := do
  let texts ← labels.mapM fun label =>
    Text.Terminated.encode ((annotations.get? label).getD "")
  return texts.flatten

end Annotations

namespace AnchoredLoudness

/-- The loudness values with one more for the anchor of a code. Only the codes
of dialogue and album are kept. -/
def setCode (anchored : AnchoredLoudness) (code : UInt8) (loudness : Ratio) :
    AnchoredLoudness :=
  if code = 1 then { anchored with dialogue := some loudness }
  else if code = 2 then { anchored with album := some loudness }
  else anchored

/-- Reads a list of loudness values with the codes of their anchors. -/
def read : Read AnchoredLoudness := do
  let count ← Read.byte
  Read.iterate (fun anchored => do
    let code ← Read.byte
    let loudness ← Ratio.read
    return anchored.setCode code loudness) count.toNat {}

/-- The bytes of a list of loudness values. -/
def encode (anchored : AnchoredLoudness) : Bytes :=
  UInt8.ofNat anchored.entries.length
    :: anchored.entries.flatMap fun (code, loudness) => code :: loudness.encode

end AnchoredLoudness

namespace SubmixLayout

/-- Reads what a layout plays on: two bits of kind, then for loudspeakers four
bits of sound system, the rest reserved. -/
def readTarget : Read (LayoutKind × Option SoundSystem) := do
  let byte ← Read.byte
  let code := byte >>> 6
  if code = 2 then return (.loudspeakers, SoundSystem.ofCode? ((byte >>> 2) &&& 0xF))
  else if code = 3 then return (.binaural, none)
  else throw (.outOfRange "layout_type" code.toNat)

/-- Reads a layout. -/
def read : Read SubmixLayout := do
  let (kind, soundSystem) ← readTarget
  -- Bit 0: true peak, bit 1: anchored loudness, any other: an extension.
  let info ← Read.byte
  let integratedLoudness ← Ratio.read
  let digitalPeak ← Ratio.read
  let truePeak ← if info.toNat.testBit 0 then some <$> Ratio.read else pure none
  let anchored ← if info.toNat.testBit 1 then AnchoredLoudness.read else pure {}
  if 4 ≤ info then do
    let size ← Leb128.read
    Read.skipBytes size.toNat
  return { kind, soundSystem, integratedLoudness, digitalPeak, truePeak, anchored }

/-- The byte of what a layout plays on. -/
def encodeTarget (layout : SubmixLayout) : Except Error UInt8 :=
  match layout.kind, layout.soundSystem with
  | .loudspeakers, some system => return (0x80 : UInt8) ||| system.code <<< 2
  | .loudspeakers, none => throw (.invalidModel .noSoundSystem)
  | .binaural, _ => return 0xC0

/-- The bytes of a layout. -/
def encode (layout : SubmixLayout) : Except Error Bytes := do
  let target ← layout.encodeTarget
  let hasAnchored := layout.anchored.entries ≠ []
  let info : UInt8 :=
    (if layout.truePeak.isSome then 1 else 0) ||| (if hasAnchored then 2 else 0)
  return [target, info] ++ layout.integratedLoudness.encode ++ layout.digitalPeak.encode
    ++ (match layout.truePeak with
      | some peak => peak.encode
      | none => [])
    ++ (if hasAnchored then layout.anchored.encode else [])

end SubmixLayout

/-- The bytes of a parameter definition where a mix gain belongs. -/
def Parameter.encodeMixGain (parameter : Parameter) : Except Error Bytes := do
  ensure (parameter.kind = .mixGain)
    (.invalidModel (.notMixGain parameter.kind parameter.id))
  parameter.encodeDefinition

namespace SubmixElement

/-- Reads an element of a submix. -/
def read (mode : ReadMode) (registry : Registry) (labels : List String) (scope : Scope) :
    Read (SubmixElement × Scope) := do
  let id ← Leb128.read
  let some element := registry.audioElement? id
    | throw (.unknownReference .audioElement id)
  let annotations ← Annotations.read labels
  -- Two bits of mode, six reserved.
  let headphones ← Read.byte
  let extensionSize ← Leb128.read
  Read.skipBytes extensionSize.toNat
  let site := { element := some id, frameSize := element.frameSize? }
  let (gain, scope) ← Parameter.readDefinition mode .mixGain site scope
  let defaultGain ← Ratio.read
  return ({
    element := id
    annotations
    headphones := .ofCode (headphones >>> 6)
    gain
    defaultGain }, scope)

/-- The bytes of an element of a submix, without an extension. -/
def encode (labels : List String) (member : SubmixElement) : Except Error Bytes := do
  let annotations ← member.annotations.encode labels
  let gain ← member.gain.encodeMixGain
  return Leb128.encode member.element ++ annotations ++ [member.headphones.code <<< 6]
    ++ Leb128.encode 0 ++ gain ++ member.defaultGain.encode

end SubmixElement

namespace Submix

/-- Reads a submix. -/
def read (mode : ReadMode) (registry : Registry) (labels : List String) (scope : Scope) :
    Read (Submix × Scope) := do
  let elementCount ← Leb128.read
  mode.checkCount elementCount.toNat "submix elements"
  let (elements, scope) ← Read.timesWith elementCount.toNat scope
    (SubmixElement.read mode registry labels)
  let (gain, scope) ← Parameter.readDefinition mode .mixGain {} scope
  let defaultGain ← Ratio.read
  let layoutCount ← Leb128.read
  mode.checkCount layoutCount.toNat "submix layouts"
  let layouts ← Read.times layoutCount.toNat SubmixLayout.read
  return ({ elements, layouts, gain, defaultGain }, scope)

/-- The bytes of a submix. -/
def encode (labels : List String) (submix : Submix) : Except Error Bytes := do
  let elements ← submix.elements.mapM (SubmixElement.encode labels)
  let gain ← submix.gain.encodeMixGain
  let layouts ← submix.layouts.mapM SubmixLayout.encode
  return Leb128.encode (UInt32.ofNat submix.elements.length) ++ elements.flatten
    ++ gain ++ submix.defaultGain.encode
    ++ Leb128.encode (UInt32.ofNat submix.layouts.length) ++ layouts.flatten

end Submix

namespace MixPresentation

/-- Reads a mix presentation body against the descriptors before it. Gives the
presentation and the definitions it brought. -/
def read (mode : ReadMode) (registry : Registry) :
    Read (MixPresentation × List Parameter) := do
  let id ← Leb128.read
  ensure (registry.mixPresentation? id = none) (.duplicateId .mixPresentation id)
  let labelCount ← Leb128.read
  mode.checkCount labelCount.toNat "language labels"
  let labels ← Read.times labelCount.toNat Text.Terminated.read
  let annotations ← Annotations.read labels
  let submixCount ← Leb128.read
  mode.checkCount submixCount.toNat "submixes"
  let (submixes, scope) ← Read.timesWith submixCount.toNat
    ({ known := registry.parameters } : Scope) (Submix.read mode registry labels)
  Read.finish .mixPresentation mode.strict
  return ({ id, labels, annotations, submixes }, scope.pending)

/-- The mix presentation of an OBU body. -/
def parse (mode : ReadMode) (registry : Registry) (body : Bytes) :
    Except Error (MixPresentation × List Parameter) :=
  (read mode registry).parse "mix presentation" body

/-- The OBU body of a mix presentation. -/
def encode (mix : MixPresentation) : Except Error Bytes := do
  let labels ← mix.labels.mapM Text.Terminated.encode
  let annotations ← mix.annotations.encode mix.labels
  let submixes ← mix.submixes.mapM (Submix.encode mix.labels)
  return Leb128.encode mix.id ++ Leb128.encode (UInt32.ofNat mix.labels.length)
    ++ labels.flatten ++ annotations
    ++ Leb128.encode (UInt32.ofNat mix.submixes.length) ++ submixes.flatten

end MixPresentation

end Iamf
