/-!
# `Iamf.Parameter.Kind`: the kinds of parameter
-/

set_option autoImplicit false

namespace Iamf

/-- What a time varying parameter controls. -/
inductive ParameterKind where
  /-- The gain of an audio element or a submix. -/
  | mixGain
  /-- The down-mixing of a scalable audio element. -/
  | demixing
  /-- The reconstruction gain of a scalable audio element. -/
  | reconGain
  deriving DecidableEq, Repr

namespace ParameterKind

/-- The kind with a given code; codes above 2 name no known kind. -/
def ofCode? (code : UInt32) : Option ParameterKind :=
  if code = 0 then some mixGain
  else if code = 1 then some demixing
  else if code = 2 then some reconGain
  else none

/-- The code of a kind. -/
def code : ParameterKind → UInt32
  | mixGain => 0
  | demixing => 1
  | reconGain => 2

/-- The name of a kind in messages. -/
def label : ParameterKind → String
  | mixGain => "MixGain"
  | demixing => "Demixing"
  | reconGain => "ReconGain"

/-- Kinds and their codes correspond. -/
theorem ofCode?_code (kind : ParameterKind) : ofCode? kind.code = some kind := by
  cases kind <;> rfl

end ParameterKind

end Iamf
