import Iamf.Proofs.Wire.Numbers
import Mathlib.Algebra.BigOperators.Ring.Finset
import Mathlib.Data.Nat.Size

/-!
# `Iamf.Proofs.Wire.Groups`: which bytes a number is read from

`Spells` builds a number up from its last byte. Seen from the first one, a number is a sum
of groups, each at its power of 128, and the high bits tell where it ends. `IsGrouped`
says that of the first bytes of a byte string, and a reader takes a number off the front
just where it holds. So a number takes as many bytes as its groups need, or more of them
with zeros in the upper ones, but never fewer.

* `isGrouped_of_spells`, `IsGrouped.spells`: both views of a number are the same.
* `decode_eq_ok_iff`: what a reader takes.
* `size_le_of_lt`: a number needs as many groups as a writer gives it.
-/

set_option autoImplicit false

namespace Iamf.Leb128

/-- The first `count` bytes are a number: all but the last of them have the high bit, and
the number is the sum of their groups. -/
structure IsGrouped (bytes : Bytes) (count number : Nat) : Prop where
  pos : 1 ≤ count
  within : count ≤ bytes.length
  more : ∀ place, place + 1 < count → 128 ≤ (bytes.getD place 0).toNat
  last : (bytes.getD (count - 1) 0).toNat < 128
  sum_eq : number
    = ∑ place ∈ Finset.range count, (bytes.getD place 0).toNat % 128 * 128 ^ place

/-- The groups behind the first one stand one place higher than they would alone. -/
theorem sum_groups_cons (byte : UInt8) (bytes : Bytes) (count : Nat) :
    ∑ place ∈ Finset.range (count + 1), ((byte :: bytes).getD place 0).toNat % 128 * 128 ^ place
      = byte.toNat % 128
        + 128 * ∑ place ∈ Finset.range count, (bytes.getD place 0).toNat % 128 * 128 ^ place := by
  rw [Finset.sum_range_succ', Finset.mul_sum, Nat.add_comm]
  congr 1
  · rw [List.getD_cons_zero, Nat.pow_zero, Nat.mul_one]
  · refine Finset.sum_congr rfl fun place _ => ?_
    rw [List.getD_cons_succ, Nat.pow_succ, ← Nat.mul_assoc, Nat.mul_comm]

/-- A number that is spelled is the sum of its groups. -/
theorem isGrouped_of_spells {bytes : Bytes} {number : Nat} (h : Spells bytes number)
    (rest : Bytes) : IsGrouped (bytes ++ rest) bytes.length number := by
  induction h with
  | last byte hlast =>
    exact {
      pos := Nat.le_refl 1
      within := Nat.succ_le_succ (Nat.zero_le _)
      more := fun place hplace => absurd hplace (by simp)
      last := hlast
      sum_eq := by
        rw [List.length_singleton, List.singleton_append, sum_groups_cons, Finset.sum_range_zero,
          Nat.mul_zero, Nat.add_zero, Nat.mod_eq_of_lt hlast] }
  | @more byte bytes number hmore hbytes ih =>
    have hpos := ih.pos
    exact {
      pos := Nat.succ_le_succ (Nat.zero_le _)
      within := Nat.succ_le_succ ih.within
      more := fun place hplace => by
        cases place with
        | zero => exact hmore
        | succ place => exact ih.more place (Nat.lt_of_succ_lt_succ hplace)
      last := by
        have hlast := ih.last
        rwa [List.length_cons, Nat.add_sub_cancel, ← Nat.sub_add_cancel hpos, List.cons_append,
          List.getD_cons_succ]
      sum_eq := by rw [List.length_cons, List.cons_append, sum_groups_cons, ← ih.sum_eq] }

/-- A sum of groups is spelled by the bytes that have them. -/
theorem IsGrouped.spells {count : Nat} :
    ∀ {bytes : Bytes} {number : Nat}, IsGrouped bytes count number →
      Spells (bytes.take count) number := by
  induction count with
  | zero => exact fun h => absurd h.pos (by decide)
  | succ count ih =>
    intro bytes number h
    cases bytes with
    | nil => exact absurd h.within (Nat.not_succ_le_zero _)
    | cons byte bytes =>
      have hsum := h.sum_eq
      rw [sum_groups_cons] at hsum
      rw [List.take_succ_cons, hsum]
      -- The last byte has no high bit, and one with others behind it has.
      cases count with
      | zero =>
        have hlast : byte.toNat < 128 := h.last
        rw [Finset.sum_range_zero, Nat.mul_zero, Nat.add_zero, Nat.mod_eq_of_lt hlast]
        exact .last byte hlast
      | succ count =>
        refine .more byte (h.more 0 (Nat.succ_lt_succ (Nat.zero_lt_succ count))) (ih ?_)
        exact {
          pos := Nat.succ_le_succ (Nat.zero_le _)
          within := Nat.le_of_succ_le_succ h.within
          more := fun place hplace => h.more (place + 1) (Nat.succ_lt_succ hplace)
          last := h.last
          sum_eq := rfl }

/-- A reader takes a number where the groups of at most eight bytes are one. -/
theorem decode_eq_ok_iff {bytes : Bytes} {value : UInt32} {count : Nat} :
    decode bytes = .ok (value, count) ↔ IsGrouped bytes count value.toNat ∧ count ≤ 8 := by
  rw [decode, Read.parse_eq_ok]
  constructor
  · rintro ⟨after, h⟩
    obtain ⟨front, rest, rfl, -, hnumber, rfl⟩ := readSized_eq_ok h
    exact ⟨isGrouped_of_spells hnumber.spells rest, hnumber.short⟩
  · rintro ⟨hgrouped, hshort⟩
    have hlength : (bytes.take count).length = count := List.length_take_of_le hgrouped.within
    have hnumber : IsNumber (bytes.take count) value := ⟨hgrouped.spells, hlength.symm ▸ hshort⟩
    have hread := consumes_of_isNumber hnumber "leb128" (bytes.drop count) trivial
    rw [List.take_append_drop, hlength] at hread
    exact ⟨_, hread⟩

/-! ### How many groups a number needs -/

/-- A sum of groups is below the place behind them. -/
theorem IsGrouped.lt {bytes : Bytes} {count number : Nat} (h : IsGrouped bytes count number) :
    number < 128 ^ count := by
  rw [h.sum_eq]
  generalize count = places
  induction places with
  | zero => exact Nat.zero_lt_one
  | succ places ih =>
    have hgroup := Nat.mod_lt (bytes.getD places 0).toNat (by decide : 0 < 128)
    have hle := Nat.mul_le_mul_right (128 ^ places) (Nat.le_of_lt_succ hgroup)
    rw [Finset.sum_range_succ, Nat.pow_succ]
    omega

/-- A number that fits into some groups is written in no more. -/
theorem size_le_of_lt {value : UInt32} {count : Nat} (hpos : 1 ≤ count)
    (h : value.toNat < 128 ^ count) : size value ≤ count := by
  by_cases hfive : 5 ≤ count
  · exact Nat.le_trans (size_le value).2 hfive
  · have hcount : count = 1 ∨ count = 2 ∨ count = 3 ∨ count = 4 := by omega
    rw [size]
    rcases hcount with rfl | rfl | rfl | rfl <;> repeat' split
    all_goals omega

/-- What is written for a number is no longer than any of its spellings. -/
theorem IsNumber.size_le {bytes : Bytes} {number : UInt32} (h : IsNumber bytes number) :
    size number ≤ bytes.length := by
  have hgrouped := isGrouped_of_spells h.spells []
  exact size_le_of_lt hgrouped.pos hgrouped.lt

/-- The bits of a number, in groups of seven, one of them at least. -/
theorem size_eq (value : UInt32) : size value = max 1 ((value.toNat.size + 6) / 7) := by
  refine Nat.le_antisymm ?_ ?_
  · refine size_le_of_lt (Nat.le_max_left _ _) ?_
    have hbits := Nat.lt_size_self value.toNat
    refine Nat.lt_of_lt_of_le hbits ?_
    rw [show 128 = 2 ^ 7 from rfl, ← Nat.pow_mul]
    exact Nat.pow_le_pow_right (by decide) (by omega)
  · have hplaces := lt_pow_size value
    have hpos := (size_le value).1
    rw [Nat.sub_add_cancel hpos, show 128 = 2 ^ 7 from rfl, ← Nat.pow_mul] at hplaces
    have hbits := Nat.size_le.2 hplaces
    omega

/-- A number is read from at most eight bytes, just where the high bits say that it ends
there and its groups sum up to it. What is written for it is one of these spellings, as
long as its bits in groups of seven, whatever is behind it; and no shorter one is read. -/
theorem decode_iff_groups (value : UInt32) :
    (∀ (bytes : Bytes) (count : Nat),
      decode bytes = .ok (value, count) ↔ IsGrouped bytes count value.toNat ∧ count ≤ 8)
    ∧ (∀ rest : Bytes, decode (encode value ++ rest) = .ok (value, size value))
    ∧ (encode value).length = size value
    ∧ size value = max 1 ((value.toNat.size + 6) / 7)
    ∧ ∀ (bytes : Bytes) (count : Nat), decode bytes = .ok (value, count) → size value ≤ count := by
  refine ⟨fun bytes count => decode_eq_ok_iff, fun rest => ?_, length_encode value,
    size_eq value, fun bytes count h => ?_⟩
  · exact (consumes_encode_sized value).parse "leb128" rest
  · obtain ⟨hgrouped, -⟩ := decode_eq_ok_iff.1 h
    exact size_le_of_lt hgrouped.pos hgrouped.lt

end Iamf.Leb128
