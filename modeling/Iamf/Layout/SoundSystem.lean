import Iamf.Layout.Channels

/-!
# `Iamf.Layout.SoundSystem`: the sound systems that a mix can target

Systems A to J are those of BS.2051; the format adds three more.

* `SoundSystem.ofCode?_code`: systems and their codes correspond.
-/

set_option autoImplicit false

namespace Iamf

/-- A sound system. -/
inductive SoundSystem where
  /-- A, 0+2+0. -/
  | systemA
  /-- B, 0+5+0. -/
  | systemB
  /-- C, 2+5+0. -/
  | systemC
  /-- D, 4+5+0. -/
  | systemD
  /-- E, 4+5+1. -/
  | systemE
  /-- F, 3+7+0. -/
  | systemF
  /-- G, 4+9+0. -/
  | systemG
  /-- H, 9+10+3. -/
  | systemH
  /-- I, 0+7+0. -/
  | systemI
  /-- J, 4+7+0. -/
  | systemJ
  /-- 7.1.2. -/
  | surround712
  /-- 3.1.2. -/
  | surround312
  /-- One loudspeaker. -/
  | mono
  deriving DecidableEq, Repr

namespace SoundSystem

/-- All systems, in the order of their codes. -/
def all : List SoundSystem :=
  [systemA, systemB, systemC, systemD, systemE, systemF, systemG, systemH, systemI, systemJ,
    surround712, surround312, mono]

/-- The system with a given four bit code; 13 to 15 are reserved. -/
def ofCode? (code : UInt8) : Option SoundSystem :=
  all[code.toNat]?

/-- The four bit code of a system. -/
def code : SoundSystem → UInt8
  | systemA => 0
  | systemB => 1
  | systemC => 2
  | systemD => 3
  | systemE => 4
  | systemF => 5
  | systemG => 6
  | systemH => 7
  | systemI => 8
  | systemJ => 9
  | surround712 => 10
  | surround312 => 11
  | mono => 12

/-- The loudspeakers of a system. -/
def channelLayout : SoundSystem → ChannelLayout
  | systemA => .stereo
  | systemB => .native .surround51
  | systemC => .native .surround512
  | systemD => .native .surround514
  | systemE => .native (SpeakerMask.surround514.add [.bottomFrontCenter])
  | systemF => .native .surround723
  | systemG => .native .surround914
  | systemH => .native .surround222
  | systemI => .native .surround71
  | systemJ => .native .surround714
  | surround712 => .native .surround712
  | surround312 => .native .surround312
  | mono => .mono

/-- Systems and their codes correspond. -/
theorem ofCode?_code (system : SoundSystem) : ofCode? system.code = some system := by
  cases system <;> rfl

end SoundSystem

end Iamf
