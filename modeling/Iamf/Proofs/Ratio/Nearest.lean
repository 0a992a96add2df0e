import Iamf.Proofs.Checked.Arithmetic
import Iamf.Proofs.Parameter.Value
import Mathlib.Algebra.Order.Field.Rat
import Mathlib.Tactic.FieldSimp
import Mathlib.Tactic.Linarith
import Mathlib.Tactic.Ring

/-!
# `Iamf.Proofs.Ratio.Nearest`: a gain is written as the nearest Q7.8 number

`IsNearest` says which integer a rational number is rounded to: no other one is nearer,
and of two that are as near it is the one further from zero. The integers of two numbers
are in the order of the numbers, so this fixes an integer, and what `toQ8` does follows
from the integer that it rounds to and the clamping of it: it depends on nothing but the
value of a ratio, it is monotone, and away from the ends of the range it is odd.

On a machine the numerators are computed with signed words of 64 bits.
`Checked.toQ8` has a check at every step, and none of them is ever missed.

* `IsNearest.mono`, `IsNearest.unique`: the order of integers that were rounded to.
* `exists_isNearest_toQ8`: what is written is the nearest integer, clamped.
* `Checked.toQ8_eq`: nothing overflows on the way.
* `toQ8_exact`: all of this.
-/

set_option autoImplicit false

namespace Iamf

/-! ### The nearest integer -/

/-- The integer that a number is rounded to: none is nearer, and it is the one furthest from
zero among those that are as near. -/
structure IsNearest (x : ℚ) (n : ℤ) : Prop where
  near : ∀ k : ℤ, |x - n| ≤ |x - k|
  away : ∀ k : ℤ, |x - k| = |x - n| → |k| ≤ |n|

namespace IsNearest

variable {x y : ℚ} {m n : ℤ}

theorem neg (h : IsNearest x n) : IsNearest (-x) (-n) := by
  have hflip : ∀ k : ℤ, |-x - k| = |x - (-k : ℤ)| := by
    intro k
    rw [← abs_neg]
    push_cast
    congr 1
    ring
  constructor
  · intro k
    rw [hflip, hflip, neg_neg]
    exact h.near (-k)
  · intro k hk
    rw [hflip, hflip, neg_neg] at hk
    rw [← abs_neg k, abs_neg n]
    exact h.away (-k) hk

/-- Above zero, a number is rounded up from the middle of two integers on. -/
theorem of_nonneg (hx : 0 ≤ x) (hlow : (n : ℚ) - 1 / 2 ≤ x) (hhigh : x < n + 1 / 2) :
    IsNearest x n := by
  have hhalf : |x - n| ≤ 1 / 2 := abs_le.2 ⟨by linarith, by linarith⟩
  have hn : 0 ≤ n := by
    have hpos : (-1 : ℚ) < n := by linarith
    have hint : -1 < n := by exact_mod_cast hpos
    omega
  constructor
  · intro k
    rcases lt_trichotomy k n with hlt | rfl | hgt
    · have hk : (k : ℚ) + 1 ≤ n := by exact_mod_cast hlt
      exact hhalf.trans (le_trans (by linarith) (le_abs_self (x - k)))
    · exact le_rfl
    · have hk : (n : ℚ) + 1 ≤ k := by exact_mod_cast hgt
      exact hhalf.trans (le_trans (by linarith) (neg_le_abs (x - k)))
  · intro k hk
    -- Above the middle nothing is as near; below it, the distances add up to twice `x`.
    have hle : k ≤ n := by
      by_contra hgt
      have hfar : (n : ℚ) + 1 ≤ k := by exact_mod_cast not_le.1 hgt
      have habove := neg_le_abs (x - k)
      linarith
    have hge : -n ≤ k := by
      have hbelow := le_abs_self (x - k)
      have hnonneg : (0 : ℚ) ≤ n := by exact_mod_cast hn
      have hrat : -(n : ℚ) ≤ k := by
        rcases abs_cases (x - (n : ℚ)) with ⟨habs, -⟩ | ⟨habs, -⟩ <;> linarith
      exact_mod_cast hrat
    rw [abs_of_nonneg hn]
    exact abs_le.2 ⟨hge, hle⟩

/-- Integers are rounded to in the order of the numbers. -/
theorem mono (hm : IsNearest x m) (hn : IsNearest y n) (h : x ≤ y) : m ≤ n := by
  by_contra hlt
  have horder : (n : ℚ) + 1 ≤ m := by exact_mod_cast not_le.1 hlt
  -- Neither number is on the other's side of the middle, so both are the middle.
  have hx : (m : ℚ) + n ≤ 2 * x := by
    by_contra hbelow
    have hnear : |x - n| < m - x := abs_lt.2 ⟨by linarith, by linarith⟩
    linarith [hm.near n, neg_le_abs (x - m)]
  have hy : 2 * y ≤ (m : ℚ) + n := by
    by_contra habove
    have hnear : |y - m| < y - n := abs_lt.2 ⟨by linarith, by linarith⟩
    linarith [hn.near m, le_abs_self (y - n)]
  obtain rfl : x = y := by linarith
  have hmiddle : 2 * x = m + n := by linarith
  -- Then either integer is as far from zero as the other, and the middle is zero.
  have hdistance : |x - m| = |x - n| := by
    rw [← abs_neg (x - (n : ℚ))]
    congr 1
    linarith
  have habs : |m| = |n| := le_antisymm (hn.away m hdistance) (hm.away n hdistance.symm)
  have hopposite : m = -n := by
    rcases abs_eq_abs.1 habs with heq | heq
    · omega
    · exact heq
  have hzero : x = 0 := by
    rw [hopposite] at hmiddle
    push_cast at hmiddle
    linarith
  have hnone := hm.near 0
  rw [hzero] at hnone
  norm_num at hnone
  omega

/-- There is one integer that a number is rounded to. -/
theorem unique (hm : IsNearest x m) (hn : IsNearest x n) : m = n :=
  le_antisymm (hm.mono hn le_rfl) (hn.mono hm le_rfl)

end IsNearest

namespace Ratio

/-! ### Rounding a quotient -/

/-- Half the denominator, added before a quotient is cut off, rounds it. -/
theorem isNearest_roundAway_of_nonneg {num den : ℤ} (hnum : 0 ≤ num) (hden : 0 < den) :
    IsNearest (num / den) (roundAway num den) := by
  have hquotient : roundAway num den = (num + den / 2) / den := by
    rw [roundAway, if_pos hnum, Int.tdiv_eq_ediv_of_nonneg (by omega)]
  have hmod := Int.emod_add_mul_ediv (num + den / 2) den
  have hnonneg := Int.emod_nonneg (num + den / 2) hden.ne'
  have hlt := Int.emod_lt_of_pos (num + den / 2) hden
  rw [← hquotient] at hmod
  have hpos : (0 : ℚ) < den := by exact_mod_cast hden
  refine .of_nonneg (div_nonneg (by exact_mod_cast hnum) hpos.le) ?_ ?_
  · rw [le_div_iff₀ hpos]
    have hlow : 2 * (den * roundAway num den) - den ≤ 2 * num := by omega
    have hrat : 2 * ((den : ℚ) * roundAway num den) - den ≤ 2 * num := by exact_mod_cast hlow
    linarith
  · rw [div_lt_iff₀ hpos]
    have hhigh : 2 * num < 2 * (den * roundAway num den) + den := by omega
    have hrat : 2 * (num : ℚ) < 2 * ((den : ℚ) * roundAway num den) + den := by
      exact_mod_cast hhigh
    linarith

theorem roundAway_neg (num : ℤ) {den : ℤ} (hden : 0 < den) :
    roundAway (-num) den = -roundAway num den := by
  simp only [roundAway]
  rcases lt_trichotomy num 0 with hlt | rfl | hgt
  · rw [if_pos (by omega), if_neg (by omega), ← Int.neg_tdiv]
    congr 1
    omega
  · rw [neg_zero, if_pos le_rfl, zero_add, Int.tdiv_eq_zero_of_lt (by omega) (by omega), neg_zero]
  · rw [if_neg (by omega), if_pos (by omega), ← Int.neg_tdiv]
    congr 1
    omega

theorem isNearest_roundAway (num : ℤ) {den : ℤ} (hden : 0 < den) :
    IsNearest (num / den) (roundAway num den) := by
  rcases le_total 0 num with hnum | hnum
  · exact isNearest_roundAway_of_nonneg hnum hden
  · have hneg := (isNearest_roundAway_of_nonneg (neg_nonneg.2 hnum) hden).neg
    rw [roundAway_neg num hden, neg_neg] at hneg
    push_cast at hneg
    rwa [neg_div, neg_neg] at hneg

/-! ### Q7.8 numbers -/

/-- The number that a ratio stands for; with denominator zero it counts as zero. -/
def value (ratio : Ratio) : ℚ :=
  ratio.num.toInt / ratio.den.toInt

theorem toInt_clampInt16 (n : ℤ) : (clampInt16 n).toInt = max (-32768) (min 32767 n) :=
  Int16.toInt_ofInt_of_le (by omega) (by omega)

/-- What is written is the nearest number of 256ths, or the end of the range that it is
beyond. -/
theorem exists_isNearest_toQ8 (ratio : Ratio) :
    ∃ n, IsNearest (256 * ratio.value) n
      ∧ ratio.toQ8.toInt = max (-32768) (min 32767 n) := by
  rcases lt_trichotomy ratio.den.toInt 0 with hden | hden | hden
  · refine ⟨roundAway (-ratio.num.toInt * 256) (-ratio.den.toInt), ?_, ?_⟩
    · have hround := isNearest_roundAway (-ratio.num.toInt * 256) (neg_pos.2 hden)
      push_cast at hround
      rw [neg_mul, neg_div_neg_eq, mul_comm, mul_div_assoc] at hround
      exact hround
    · rw [toQ8, if_neg (by omega), if_pos hden, toInt_clampInt16]
  · refine ⟨0, ?_, ?_⟩
    · rw [value, hden, Int.cast_zero, div_zero, mul_zero]
      exact .of_nonneg le_rfl (by norm_num) (by norm_num)
    · rw [toQ8, if_pos hden]
      rfl
  · refine ⟨roundAway (ratio.num.toInt * 256) ratio.den.toInt, ?_, ?_⟩
    · have hround := isNearest_roundAway (ratio.num.toInt * 256) hden
      push_cast at hround
      rw [mul_comm, mul_div_assoc] at hround
      exact hround
    · rw [toQ8, if_neg (by omega), if_neg (by omega), toInt_clampInt16]

/-- The nearest number of 256ths lies in the range. -/
def InRange (ratio : Ratio) : Prop :=
  ∃ n, IsNearest (256 * ratio.value) n ∧ -32768 ≤ n ∧ n ≤ 32767

theorem toQ8_mono {small large : Ratio} (h : small.value ≤ large.value) :
    small.toQ8 ≤ large.toQ8 := by
  obtain ⟨m, hm, hsmall⟩ := exists_isNearest_toQ8 small
  obtain ⟨n, hn, hlarge⟩ := exists_isNearest_toQ8 large
  have hle := hm.mono hn (by linarith)
  rw [Int16.le_iff_toInt_le, hsmall, hlarge]
  omega

theorem toQ8_congr {first second : Ratio} (h : first.value = second.value) :
    first.toQ8 = second.toQ8 :=
  Int16.le_antisymm (toQ8_mono h.le) (toQ8_mono h.ge)

/-- A gain and its opposite are written as opposites when both fit. -/
theorem toQ8_of_neg {first second : Ratio} (h : second.value = -first.value)
    (hfirst : first.InRange) (hsecond : second.InRange) : second.toQ8 = -first.toQ8 := by
  obtain ⟨m, hm, hmlow, hmhigh⟩ := hfirst
  obtain ⟨n, hn, hnlow, hnhigh⟩ := hsecond
  obtain ⟨m', hm', hfirst⟩ := exists_isNearest_toQ8 first
  obtain ⟨n', hn', hsecond⟩ := exists_isNearest_toQ8 second
  obtain rfl := hm.unique hm'
  obtain rfl := hn.unique hn'
  rw [h, mul_neg] at hn
  obtain rfl := hn.unique hm.neg
  rw [← Int16.toInt_inj, Int16.toInt_neg, hfirst, hsecond, Int.bmod_eq_of_le (by omega) (by omega)]
  omega

end Ratio

/-! ### Signed words -/

namespace Checked

/-- A signed word of the given width. -/
def signed (width : Nat) (value : Int) : Except Stop Int :=
  guarded (-2 ^ (width - 1) ≤ value ∧ value < 2 ^ (width - 1)) .overflow value

/-- A quotient of signed words of 64 bits, cut off towards zero. -/
def quotient (num den : Int) : Except Stop Int :=
  if den = 0 then throw (.faulted .zeroDivision) else signed 64 (num.tdiv den)

/-- A quotient of signed words, rounded; ties go away from zero. -/
def roundAway (num den : Int) : Except Stop Int := do
  let half ← quotient den 2
  let sum ← signed 64 (if 0 ≤ num then num + half else num - half)
  quotient sum den

/-- 256 times a ratio, as two integers the second of which is not negative. -/
def scaled (ratio : Ratio) : Except Stop (Int × Int) :=
  if ratio.den.toInt < 0 then do
    let num ← signed 64 (-ratio.num.toInt)
    let num ← signed 64 (num * 256)
    let den ← signed 64 (-ratio.den.toInt)
    return (num, den)
  else do
    let num ← signed 64 (ratio.num.toInt * 256)
    return (num, ratio.den.toInt)

/-- The nearest Q7.8 number. -/
def toQ8 (ratio : Ratio) : Except Stop Int16 :=
  if ratio.den.toInt = 0 then return 0
  else do
    let fraction ← scaled ratio
    let nearest ← roundAway fraction.1 fraction.2
    let clamped ← signed 16 (max (-32768) (min 32767 nearest))
    return Int16.ofInt clamped

theorem signed_of {width : Nat} {value : Int} (hlow : -2 ^ (width - 1) ≤ value)
    (hhigh : value < 2 ^ (width - 1)) : signed width value = .ok value :=
  guarded_of ⟨hlow, hhigh⟩

theorem quotient_of {num den : Int} (hden : den ≠ 0) (hlow : -2 ^ 63 < num)
    (hhigh : num < 2 ^ 63) : quotient num den = .ok (num.tdiv den) := by
  have hle := Int.natAbs_tdiv_le_natAbs num den
  rw [quotient, if_neg hden, signed_of (by omega) (by omega)]

theorem roundAway_of {num den : Int} (hden : 0 < den) (hdenHigh : den < 2 ^ 62)
    (hlow : -2 ^ 62 < num) (hhigh : num < 2 ^ 62) :
    roundAway num den = .ok (Ratio.roundAway num den) := by
  have hhalf : quotient den 2 = .ok (den / 2) := by
    rw [quotient_of (by omega) (by omega) (by omega), Int.tdiv_eq_ediv_of_nonneg hden.le]
  simp only [roundAway, Ratio.roundAway, outcome_bind_of_ok hhalf]
  split
  all_goals
    rw [outcome_bind_of_ok (signed_of (by omega) (by omega)),
      quotient_of (by omega) (by omega) (by omega)]

theorem scaled_of_neg {ratio : Ratio} (h : ratio.den.toInt < 0) :
    scaled ratio = .ok (-ratio.num.toInt * 256, -ratio.den.toInt) := by
  have hlow := ratio.num.le_toInt
  have hhigh := ratio.num.toInt_lt
  have hden := ratio.den.le_toInt
  rw [scaled, if_pos h, outcome_bind_of_ok (signed_of (by omega) (by omega)),
    outcome_bind_of_ok (signed_of (by omega) (by omega)),
    outcome_bind_of_ok (signed_of (by omega) (by omega))]
  rfl

theorem scaled_of_nonneg {ratio : Ratio} (h : 0 ≤ ratio.den.toInt) :
    scaled ratio = .ok (ratio.num.toInt * 256, ratio.den.toInt) := by
  have hlow := ratio.num.le_toInt
  have hhigh := ratio.num.toInt_lt
  rw [scaled, if_neg (not_lt.2 h), outcome_bind_of_ok (signed_of (by omega) (by omega))]
  rfl

/-- Nothing overflows on the way to a Q7.8 number, whatever the two integers are. -/
theorem toQ8_eq (ratio : Ratio) : toQ8 ratio = .ok ratio.toQ8 := by
  have hnumLow := ratio.num.le_toInt
  have hnumHigh := ratio.num.toInt_lt
  have hdenLow := ratio.den.le_toInt
  have hdenHigh := ratio.den.toInt_lt
  -- From the two integers on; the clamped one fits into 16 bits.
  have hrest : ∀ {num den : Int}, 0 < den → den ≤ 2 ^ 31 → -2 ^ 39 ≤ num → num ≤ 2 ^ 39 →
      scaled ratio = .ok (num, den) → ratio.den.toInt ≠ 0 →
      toQ8 ratio = .ok (Ratio.clampInt16 (Ratio.roundAway num den)) := by
    intro num den hpos hden hlow hhigh hscaled hzero
    rw [toQ8, if_neg hzero, outcome_bind_of_ok hscaled,
      outcome_bind_of_ok (roundAway_of hpos (by omega) (by omega) (by omega)),
      outcome_bind_of_ok (signed_of (by omega) (by omega))]
    rfl
  rw [Ratio.toQ8]
  rcases lt_trichotomy ratio.den.toInt 0 with hden | hden | hden
  · rw [if_neg hden.ne, if_pos hden]
    exact hrest (by omega) (by omega) (by omega) (by omega) (scaled_of_neg hden) hden.ne
  · rw [toQ8, if_pos hden, if_pos hden]
    rfl
  · rw [if_neg hden.ne', if_neg (not_lt.2 hden.le)]
    exact hrest hden (by omega) (by omega) (by omega) (scaled_of_nonneg hden.le) hden.ne'

end Checked

namespace Ratio

/-- What is written of a gain is the integer that 256 times its value is rounded to, ties
away from zero, clamped to 16 bits, and no word overflows on the way. So it depends on the
value alone, and is monotone in it; opposite values are written as opposite numbers when
both are in range; and a Q7.8 number is written as itself, so that writing a gain that was
read back changes nothing. -/
theorem toQ8_exact (ratio other : Ratio) :
    (∃ n, IsNearest (256 * ratio.value) n
        ∧ ratio.toQ8.toInt = max (-32768) (min 32767 n))
      ∧ Checked.toQ8 ratio = .ok ratio.toQ8
      ∧ (ratio.value = other.value → ratio.toQ8 = other.toQ8)
      ∧ (ratio.value ≤ other.value → ratio.toQ8 ≤ other.toQ8)
      ∧ (other.value = -ratio.value → ratio.InRange → other.InRange →
        other.toQ8 = -ratio.toQ8)
      ∧ (∀ number : Int16, (ofQ8 number).toQ8 = number)
      ∧ ∃ again, Read.Consumes read ratio.encode again ∧ again.encode = ratio.encode :=
  ⟨ratio.exists_isNearest_toQ8, Checked.toQ8_eq ratio, toQ8_congr, toQ8_mono, toQ8_of_neg,
    toQ8_ofQ8, ratio.nearest, ratio.consumes_nearest, ratio.encode_nearest⟩

/-- The lowest integer over itself is one, and is written like one; half a 256th is a tie,
which goes to either side of zero; and what is below it stays below. -/
theorem toQ8_exact_lowest :
    Checked.toQ8 ⟨-2147483648, -2147483648⟩ = .ok 256
      ∧ toQ8 ⟨-2147483648, -2147483648⟩ = toQ8 ⟨1, 1⟩
      ∧ toQ8 ⟨1, -512⟩ ≤ toQ8 ⟨1, 512⟩
      ∧ toQ8 ⟨1, -512⟩ = -toQ8 ⟨1, 512⟩ ∧ toQ8 ⟨1, 512⟩ = 1 := by
  have hone : value ⟨-2147483648, -2147483648⟩ = value ⟨1, 1⟩ := by
    have hlowest : (-2147483648 : Int32).toInt = -2147483648 := by decide
    have hunit : (1 : Int32).toInt = 1 := by decide
    rw [value, value, hlowest, hunit]
    norm_num
  have htie : value ⟨1, 512⟩ = 1 / 512 := by
    have hunit : (1 : Int32).toInt = 1 := by decide
    have hden : (512 : Int32).toInt = 512 := by decide
    rw [value, hunit, hden]
    norm_num
  have hopposite : value ⟨1, -512⟩ = -value ⟨1, 512⟩ := by
    have hunit : (1 : Int32).toInt = 1 := by decide
    have hden : (-512 : Int32).toInt = -512 := by decide
    rw [htie, value, hunit, hden]
    norm_num
  have hnearest : IsNearest (256 * value ⟨1, 512⟩) 1 := by
    rw [htie]
    exact .of_nonneg (by norm_num) (by norm_num) (by norm_num)
  have hbelow : IsNearest (256 * value ⟨1, -512⟩) (-1) := by
    rw [hopposite, mul_neg]
    exact hnearest.neg
  have hordered : value ⟨1, -512⟩ ≤ value ⟨1, 512⟩ := by
    rw [hopposite, htie]
    norm_num
  obtain ⟨-, hchecked, hcongr, -⟩ := toQ8_exact ⟨-2147483648, -2147483648⟩ ⟨1, 1⟩
  obtain ⟨-, -, -, hmono, -⟩ := toQ8_exact ⟨1, -512⟩ ⟨1, 512⟩
  obtain ⟨-, -, -, -, hneg, -⟩ := toQ8_exact ⟨1, 512⟩ ⟨1, -512⟩
  exact ⟨hchecked.trans (by decide), hcongr hone, hmono hordered,
    hneg hopposite ⟨1, hnearest, by decide, by decide⟩ ⟨-1, hbelow, by decide, by decide⟩,
    by decide⟩

end Ratio

end Iamf
