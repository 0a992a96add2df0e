/-!
# `Iamf.Layout.Speaker`: loudspeaker positions and sets of them

A set of loudspeakers is a 64 bit mask with one bit per position. The named
sets here are the ones that the two layout tables of the format use.
-/

set_option autoImplicit false

namespace Iamf

/-- A loudspeaker position. -/
inductive Speaker where
  | frontLeft
  | frontRight
  | frontCenter
  | lowFrequency
  | backLeft
  | backRight
  | frontLeftOfCenter
  | frontRightOfCenter
  | backCenter
  | sideLeft
  | sideRight
  | topCenter
  | topFrontLeft
  | topFrontCenter
  | topFrontRight
  | topBackLeft
  | topBackCenter
  | topBackRight
  | lowFrequency2
  | topSideLeft
  | topSideRight
  | bottomFrontCenter
  | bottomFrontLeft
  | bottomFrontRight
  deriving DecidableEq, Repr

/-- The bit of a position in a mask. -/
def Speaker.bit : Speaker → UInt64
  | frontLeft => 0
  | frontRight => 1
  | frontCenter => 2
  | lowFrequency => 3
  | backLeft => 4
  | backRight => 5
  | frontLeftOfCenter => 6
  | frontRightOfCenter => 7
  | backCenter => 8
  | sideLeft => 9
  | sideRight => 10
  | topCenter => 11
  | topFrontLeft => 12
  | topFrontCenter => 13
  | topFrontRight => 14
  | topBackLeft => 15
  | topBackCenter => 16
  | topBackRight => 17
  | lowFrequency2 => 35
  | topSideLeft => 36
  | topSideRight => 37
  | bottomFrontCenter => 38
  | bottomFrontLeft => 39
  | bottomFrontRight => 40

/-- A set of loudspeaker positions. -/
abbrev SpeakerMask := UInt64

namespace SpeakerMask

/-- A set with more positions in it. -/
def add (mask : SpeakerMask) (speakers : List Speaker) : SpeakerMask :=
  speakers.foldl (fun mask speaker => mask ||| ((1 : UInt64) <<< speaker.bit)) mask

/-- How many positions a set holds. -/
def count (mask : SpeakerMask) : Nat :=
  (List.range 64).countP mask.toNat.testBit

/-- Front center alone. -/
def mono : SpeakerMask := add 0 [.frontCenter]

/-- Front left and right. -/
def stereo : SpeakerMask := add 0 [.frontLeft, .frontRight]

/-- 3.1.2. -/
def surround312 : SpeakerMask :=
  add stereo [.frontCenter, .lowFrequency, .topFrontLeft, .topFrontRight]

/-- 5.1, the surrounds at the back. -/
def surround51 : SpeakerMask :=
  add stereo [.frontCenter, .lowFrequency, .backLeft, .backRight]

/-- 5.1.2. -/
def surround512 : SpeakerMask := add surround51 [.topFrontLeft, .topFrontRight]

/-- 5.1.4. -/
def surround514 : SpeakerMask := add surround512 [.topBackLeft, .topBackRight]

/-- 7.1. -/
def surround71 : SpeakerMask := add surround51 [.sideLeft, .sideRight]

/-- 7.1.2. -/
def surround712 : SpeakerMask := add surround71 [.topFrontLeft, .topFrontRight]

/-- 7.1.4. -/
def surround714 : SpeakerMask := add surround712 [.topBackLeft, .topBackRight]

/-- 7.2.3. -/
def surround723 : SpeakerMask := add surround712 [.topBackCenter, .lowFrequency2]

/-- 9.1.4. -/
def surround914 : SpeakerMask :=
  add surround714 [.frontLeftOfCenter, .frontRightOfCenter]

/-- 22.2. -/
def surround222 : SpeakerMask :=
  add surround914 [.backCenter, .lowFrequency2, .topCenter, .topFrontCenter, .topBackCenter,
    .topSideLeft, .topSideRight, .bottomFrontCenter, .bottomFrontLeft, .bottomFrontRight]

end SpeakerMask

end Iamf
