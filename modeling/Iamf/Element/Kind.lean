/-!
# `Iamf.Element.Kind`: the kinds of audio element
-/

set_option autoImplicit false

namespace Iamf

/-- How an audio element represents its audio. -/
inductive ElementKind where
  /-- By channels, in scalable layers. -/
  | channel
  /-- As a scene, by ambisonics. -/
  | scene
  /-- A code without a meaning yet. -/
  | reserved (code : UInt8)
  deriving DecidableEq, Repr

namespace ElementKind

/-- The kind with a given code. -/
def ofCode (code : UInt8) : ElementKind :=
  if code = 0 then channel else if code = 1 then scene else reserved code

/-- The code of a kind. -/
def code : ElementKind → UInt8
  | channel => 0
  | scene => 1
  | reserved code => code

/-- The name of a kind in messages. -/
def label : ElementKind → String
  | channel => "Channel"
  | scene => "Scene"
  | reserved code => s!"Reserved({code})"

/-- A code survives being read as a kind. -/
theorem code_ofCode (c : UInt8) : (ofCode c).code = c := by
  simp only [ofCode]
  repeat' split
  all_goals simp_all [code]

end ElementKind

end Iamf
