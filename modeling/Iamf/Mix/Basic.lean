import Iamf.Layout.SoundSystem
import Iamf.Mix.Annotations
import Iamf.Parameter.Basic

/-!
# `Iamf.Mix.Basic`: mix presentations

A mix presentation says how audio elements are mixed for playback. It consists
of submixes, each with the layouts that its loudness was measured for.
-/

set_option autoImplicit false

namespace Iamf

/-- How an element is rendered to headphones. -/
inductive HeadphonesMode where
  /-- To stereo loudspeakers. -/
  | stereo
  /-- Binaurally. -/
  | binaural
  /-- A code without a meaning yet. -/
  | reserved (code : UInt8)
  deriving DecidableEq, Repr

namespace HeadphonesMode

/-- The mode with a given code. -/
def ofCode (code : UInt8) : HeadphonesMode :=
  if code = 0 then stereo else if code = 1 then binaural else reserved code

/-- The code of a mode. -/
def code : HeadphonesMode → UInt8
  | stereo => 0
  | binaural => 1
  | reserved code => code

/-- A code survives being read as a mode. -/
theorem code_ofCode (c : UInt8) : (ofCode c).code = c := by
  simp only [ofCode]
  repeat' split
  all_goals simp_all [code]

end HeadphonesMode

/-- An audio element that takes part in a submix. -/
structure SubmixElement where
  /-- The element. -/
  element : UInt32
  /-- Texts about it. -/
  annotations : Annotations
  /-- How it is rendered to headphones. -/
  headphones : HeadphonesMode
  /-- The gain of the element before mixing. -/
  gain : Parameter
  /-- The gain in dB while no parameter block sets it. -/
  defaultGain : Ratio
  deriving DecidableEq, Repr

/-- What a measured layout plays on. -/
inductive LayoutKind where
  /-- Loudspeakers. -/
  | loudspeakers
  /-- Headphones, binaurally. -/
  | binaural
  deriving DecidableEq, Repr

/-- What loudness can be anchored to. -/
inductive Anchor where
  /-- Not known. -/
  | unknown
  /-- Dialogue. -/
  | dialogue
  /-- A whole album. -/
  | album
  deriving DecidableEq, Repr

/-- Loudness by anchor. -/
structure AnchoredLoudness where
  /-- Anchored to something that is not known. -/
  unknown : Option Ratio := none
  /-- Anchored to dialogue. -/
  dialogue : Option Ratio := none
  /-- Anchored to a whole album. -/
  album : Option Ratio := none
  deriving DecidableEq, Repr

namespace AnchoredLoudness

/-- The loudness for an anchor. -/
def get? (anchored : AnchoredLoudness) : Anchor → Option Ratio
  | .unknown => anchored.unknown
  | .dialogue => anchored.dialogue
  | .album => anchored.album

/-- The codes of the anchors that have a loudness, with it, rising. -/
def entries (anchored : AnchoredLoudness) : List (UInt8 × Ratio) :=
  (anchored.unknown.map (0, ·)).toList ++ (anchored.dialogue.map (1, ·)).toList
    ++ (anchored.album.map (2, ·)).toList

end AnchoredLoudness

/-- A layout that a submix was measured for. -/
structure SubmixLayout where
  /-- What it plays on. -/
  kind : LayoutKind
  /-- For loudspeakers the sound system, if it is known. -/
  soundSystem : Option SoundSystem
  /-- Integrated loudness in LKFS. -/
  integratedLoudness : Ratio
  /-- Digital peak in dBFS. -/
  digitalPeak : Ratio
  /-- True peak in dBFS, if it was measured. -/
  truePeak : Option Ratio
  /-- Loudness by anchor. -/
  anchored : AnchoredLoudness
  deriving DecidableEq, Repr

/-- The channels that a layout plays on. -/
def SubmixLayout.channelLayout? (layout : SubmixLayout) : Option ChannelLayout :=
  match layout.kind with
  | .loudspeakers => layout.soundSystem.map (·.channelLayout)
  | .binaural => some .stereo

/-- A part of a mix presentation. -/
structure Submix where
  /-- The elements that are mixed. -/
  elements : List SubmixElement
  /-- The layouts that loudness was measured for. -/
  layouts : List SubmixLayout
  /-- The gain of the mix. -/
  gain : Parameter
  /-- The gain in dB while no parameter block sets it. -/
  defaultGain : Ratio
  deriving DecidableEq, Repr

/-- A mix presentation. -/
structure MixPresentation where
  /-- Names the presentation in a stream. -/
  id : UInt32
  /-- The labels of the texts; each comes once per label. -/
  labels : List String
  /-- Texts about the presentation. -/
  annotations : Annotations
  /-- The submixes. -/
  submixes : List Submix
  deriving DecidableEq, Repr

namespace MixPresentation

/-- The parameters that a presentation defines: for each submix those of its
elements, then its own. -/
def parameters (mix : MixPresentation) : List Parameter :=
  mix.submixes.flatMap fun submix => submix.elements.map (·.gain) ++ [submix.gain]

/-- The elements that a presentation refers to. -/
def elements (mix : MixPresentation) : List SubmixElement :=
  mix.submixes.flatMap (·.elements)

/-- The presentation with each element's gain linked to the element, unless it
has a link. -/
def linkParameters (mix : MixPresentation) : MixPresentation :=
  { mix with
    submixes := mix.submixes.map fun submix =>
      { submix with
        elements := submix.elements.map fun member =>
          { member with
            gain := { member.gain with
              element := member.gain.element <|> some member.element } } } }

end MixPresentation

end Iamf
