import Iamf.Layout.Speaker

/-!
# `Iamf.Layout.Channels`: which channels some audio has

Channels are loudspeakers in the order of their mask bits, a list of explicit
channel ids, or ambisonic components; or only their number is known.

* `ChannelLayout.ambisonicChannels?_ambisonicMap`: the component numbers of an
  ambisonic map are the ones it was made from.
* `ChannelLayout.length_ambisonicChannels?`: there is one for every channel.
-/

set_option autoImplicit false

namespace Iamf

/-- The channels of some audio, in order. -/
inductive ChannelLayout where
  /-- Loudspeakers in mask order. -/
  | native (mask : SpeakerMask)
  /-- Explicit channel ids. -/
  | custom (ids : List UInt16)
  /-- Ambisonic components from number 0 up. -/
  | ambisonic (count : UInt16)
  /-- A number of channels in no known order. -/
  | unspecified (count : UInt16)
  deriving DecidableEq, Repr

/-- The channel id of ambisonic component 0 in a custom layout. -/
def ambisonicBase : UInt16 := 0x400

namespace ChannelLayout

/-- Front center alone. -/
def mono : ChannelLayout := native .mono

/-- Front left and right. -/
def stereo : ChannelLayout := native .stereo

/-- The number of channels. -/
def channelCount : ChannelLayout → Nat
  | native mask => mask.count
  | custom ids => ids.length
  | ambisonic count | unspecified count => count.toNat

/-- The custom layout of ambisonic components given by number. -/
def ambisonicMap (components : List UInt8) : ChannelLayout :=
  custom (components.map fun component => ambisonicBase + component.toUInt16)

/-- The ambisonic component that a channel id names. -/
def ambisonicComponent? (id : UInt16) : Option UInt8 :=
  if ambisonicBase ≤ id ∧ id < ambisonicBase + 256 then some (id - ambisonicBase).toUInt8
  else none

/-- The component numbers of a custom layout, if all its channels are components. -/
def ambisonicChannels? : ChannelLayout → Option (List UInt8)
  | custom ids => ids.mapM ambisonicComponent?
  | _ => none

/-- The loudspeaker layouts of scalable audio elements, by their four bit code.
Code 9 is binaural; there is none from 10 on. -/
def scalable : List ChannelLayout :=
  [mono, stereo, native .surround51, native .surround512, native .surround514,
    native .surround71, native .surround712, native .surround714, native .surround312, stereo]

/-- The code of binaural rendering. -/
def binauralCode : UInt8 := 9

theorem ambisonicComponent?_add (component : UInt8) :
    ambisonicComponent? (ambisonicBase + component.toUInt16) = some component := by
  have hlt := component.toNat_lt
  have hvalue : (ambisonicBase + component.toUInt16).toNat = 1024 + component.toNat := by
    simp [ambisonicBase, UInt16.toNat_add]
    omega
  have hback : ambisonicBase + component.toUInt16 - ambisonicBase = component.toUInt16 := by
    rw [UInt16.add_comm, UInt16.add_sub_cancel]
  rw [ambisonicComponent?, if_pos, hback, UInt8.toUInt8_toUInt16]
  simp only [UInt16.le_iff_toNat_le, UInt16.lt_iff_toNat_lt, hvalue]
  exact ⟨Nat.le_add_right 1024 _, Nat.add_lt_add_left hlt 1024⟩

/-- The component numbers of an ambisonic map are the ones it was made from. -/
theorem ambisonicChannels?_ambisonicMap (components : List UInt8) :
    (ambisonicMap components).ambisonicChannels? = some components := by
  simp only [ambisonicMap, ambisonicChannels?]
  induction components with
  | nil => rfl
  | cons component components ih =>
    simp [ambisonicComponent?_add, ih]

/-- A custom layout of components has one for every channel. -/
theorem length_ambisonicChannels? {layout : ChannelLayout} {components : List UInt8}
    (h : layout.ambisonicChannels? = some components) :
    components.length = layout.channelCount := by
  cases layout with
  | custom ids =>
    rw [ambisonicChannels?] at h
    rw [channelCount]
    induction ids generalizing components with
    | nil =>
      cases h
      rfl
    | cons id ids ih =>
      simp only [List.mapM_cons, Option.bind_eq_bind, Option.bind_eq_some_iff, Option.pure_def,
        Option.some.injEq] at h
      obtain ⟨_, -, others, hothers, rfl⟩ := h
      rw [List.length_cons, List.length_cons, ih hothers]
  | _ => cases h

end ChannelLayout

end Iamf
