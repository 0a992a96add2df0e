/-!
# `Iamf.Ratio`: gains and loudness values

Gains and loudness values are ratios of two integers. On the wire they are
Q7.8 numbers, a signed 16 bit count of 256ths: `ofQ8` reads one, and `toQ8`
writes the nearest one, a tie going away from zero and values beyond the range
going to its end. A ratio with denominator zero counts as zero.
-/

set_option autoImplicit false

namespace Iamf

/-- A ratio of two integers. -/
structure Ratio where
  /-- The numerator. -/
  num : Int32
  /-- The denominator. -/
  den : Int32
  deriving DecidableEq, Repr

namespace Ratio

/-- The ratio that a Q7.8 number stands for. -/
def ofQ8 (value : Int16) : Ratio :=
  ⟨value.toInt32, 256⟩

/-- Zero 256ths. -/
def zero : Ratio := ofQ8 0

/-- `num / den` rounded to the nearest integer, a tie going away from zero;
`den` is positive. -/
def roundAway (num den : Int) : Int :=
  if 0 ≤ num then (num + den / 2).tdiv den else (num - den / 2).tdiv den

/-- The nearest end of the 16 bit range for an integer outside it. -/
def clampInt16 (value : Int) : Int16 :=
  Int16.ofInt (max (-32768) (min 32767 value))

/-- The nearest Q7.8 number. -/
def toQ8 (ratio : Ratio) : Int16 :=
  let num := ratio.num.toInt
  let den := ratio.den.toInt
  if den = 0 then 0
  else if den < 0 then clampInt16 (roundAway (-num * 256) (-den))
  else clampInt16 (roundAway (num * 256) den)

/-- The nearest floating point number. -/
def toFloat (ratio : Ratio) : Float :=
  if ratio.den.toInt = 0 then 0
  else Float.ofInt ratio.num.toInt / Float.ofInt ratio.den.toInt

/-- The two integers with a slash between them. -/
def render (ratio : Ratio) : String :=
  s!"{ratio.num.toInt}/{ratio.den.toInt}"

end Ratio

end Iamf
