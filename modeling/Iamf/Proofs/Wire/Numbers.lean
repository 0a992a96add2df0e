import Iamf.Leb128
import Iamf.Proofs.Wire.Consumes

/-!
# `Iamf.Proofs.Wire.Numbers`: variable length numbers

`Spells` says which bytes are a number, and which number, without a program that
reads them. A reader takes just these, as long as there are at most eight and the
number fits into 32 bits; so zeros may fill up the upper groups. A writer spells a
number in as few bytes as it can, and what it writes is taken like any other spelling.

* `consumes_of_isNumber`, `readSized_eq_ok`: a number is read where it is spelled, and
  nowhere else.
* `consumes_encode`: a number comes back from its bytes.
-/

set_option autoImplicit false

namespace Iamf.Leb128

open Read (Consumes)

/-! ### Spellings -/

/-- The bytes are a number: each has seven bits of it, the lowest ones first, and the
high bit unless it is the last. -/
inductive Spells : Bytes → Nat → Prop where
  /-- The last byte. -/
  | last (byte : UInt8) (h : byte.toNat < 128) : Spells [byte] byte.toNat
  /-- A byte with others behind it. -/
  | more (byte : UInt8) {bytes : Bytes} {number : Nat} (h : 128 ≤ byte.toNat)
      (hbytes : Spells bytes number) : Spells (byte :: bytes) (byte.toNat % 128 + 128 * number)

/-- The bytes are a number that a reader takes. -/
structure IsNumber (bytes : Bytes) (number : UInt32) : Prop where
  spells : Spells bytes number.toNat
  short : bytes.length ≤ maxSize

/-! ### The room for a group -/

/-- A group stands at a power of 128. -/
theorem shiftLeft_group (group index : Nat) : group <<< (7 * index) = group * 128 ^ index := by
  rw [Nat.shiftLeft_eq, Nat.pow_mul]

/-- A group that leaves its number within 32 bits passes the test of its place. -/
theorem fits_of_lt {group index : Nat} (h : group * 128 ^ index < 2 ^ 32) :
    index ≤ 3 ∨ (index = 4 ∧ group < 16) ∨ group = 0 := by
  by_cases hlow : index ≤ 3
  · exact .inl hlow
  by_cases hfour : index = 4
  · subst hfour
    omega
  -- From the sixth place on, a group that is not zero is beyond 32 bits.
  by_cases hzero : group = 0
  · exact .inr (.inr hzero)
  · have hplace : 128 ^ 5 ≤ 128 ^ index := Nat.pow_le_pow_right (by decide) (by omega)
    have hgroup : 1 * 128 ^ index ≤ group * 128 ^ index :=
      Nat.mul_le_mul_right _ (Nat.pos_of_ne_zero hzero)
    omega

/-- A group that passes the test of its place leaves its number within 32 bits. -/
theorem lt_of_fits {group index value : Nat} (hgroup : group < 128)
    (hfits : index ≤ 3 ∨ (index = 4 ∧ group < 16) ∨ group = 0) (hplace : value < 128 ^ index)
    (hword : value < 2 ^ 32) :
    value + group * 128 ^ index < 128 ^ (index + 1) ∧ value + group * 128 ^ index < 2 ^ 32 := by
  have hsum : value + group * 128 ^ index < 128 ^ (index + 1) := by
    have hle : group * 128 ^ index ≤ 127 * 128 ^ index := Nat.mul_le_mul_right _ (by omega)
    rw [Nat.pow_succ]
    omega
  refine ⟨hsum, ?_⟩
  rcases hfits with hlow | ⟨rfl, hfour⟩ | rfl
  · have hle : 128 ^ (index + 1) ≤ 128 ^ 4 := Nat.pow_le_pow_right (by decide) (by omega)
    omega
  · omega
  · omega

/-- The number so far, a group and what is still to come are put together. -/
theorem add_more (value group number index : Nat) :
    value + group * 128 ^ index + number * 128 ^ (index + 1)
      = value + (group + 128 * number) * 128 ^ index := by
  rw [Nat.pow_succ, Nat.add_mul, Nat.add_assoc, Nat.mul_comm (128 ^ index) 128, ← Nat.mul_assoc,
    Nat.mul_comm number 128]

/-! ### Reading numbers -/

/-- The rest of a number is read at the place that the reader has come to. -/
theorem consumes_readFrom {bytes : Bytes} {number : Nat} (h : Spells bytes number) :
    ∀ (left index value : Nat), bytes.length ≤ left → value + number * 128 ^ index < 2 ^ 32 →
      Consumes (readFrom left index value) bytes
        (UInt32.ofNat (value + number * 128 ^ index), index + bytes.length) := by
  induction h with
  | last byte hlast =>
    intro left index value hleft hword subject rest _
    obtain ⟨left, rfl⟩ := Nat.exists_eq_add_of_le' hleft
    have hgroup : byte.toNat % 128 = byte.toNat := Nat.mod_eq_of_lt hlast
    have hfits := fits_of_lt (Nat.lt_of_le_of_lt (Nat.le_add_left _ value) hword)
    simp only [List.length_singleton, readFrom, shiftLeft_group, Read.bind_eq_ok,
      Read.ensure_eq_ok]
    refine ⟨_, _, Consumes.byte _ subject rest trivial, (), _, ⟨by rwa [hgroup], rfl⟩, ?_⟩
    rw [if_pos hlast, hgroup, Read.pure_eq_ok]
  | @more byte bytes number hmore hbytes ih =>
    intro left index value hleft hword subject rest _
    obtain ⟨left, rfl⟩ := Nat.exists_eq_add_of_le'
      (Nat.le_trans (Nat.succ_le_succ (Nat.zero_le _)) hleft)
    rw [← add_more] at hword
    have hothers := ih left (index + 1) (value + byte.toNat % 128 * 128 ^ index)
      (Nat.le_of_succ_le_succ hleft) hword
    rw [add_more, Nat.add_assoc, Nat.add_comm 1] at hothers
    simp only [List.length_cons, readFrom, shiftLeft_group, Read.bind_eq_ok, Read.ensure_eq_ok]
    refine ⟨_, _, Consumes.byte _ subject _ trivial, (), _, ⟨fits_of_lt (by omega), rfl⟩, ?_⟩
    rw [if_neg (by omega)]
    exact hothers subject rest trivial

/-- Where a number was read, its rest is spelled. -/
theorem exists_spells_of_readFrom {left index value : Nat} {subject : String} {bytes : Bytes}
    {after : Reader} {number : UInt32} {size : Nat} (hplace : value < 128 ^ index)
    (hword : value < 2 ^ 32)
    (h : readFrom left index value ⟨subject, [], bytes⟩ = .ok ((number, size), after)) :
    ∃ front rest spelled, bytes = front ++ rest ∧ after = ⟨subject, [], rest⟩
      ∧ Spells front spelled ∧ front.length ≤ left ∧ size = index + front.length
      ∧ number.toNat = value + spelled * 128 ^ index := by
  induction left generalizing index value bytes with
  | zero => exact absurd h (by simp [readFrom, Read.throw_eq_ok])
  | succ left ih =>
    simp only [readFrom, shiftLeft_group, Read.bind_eq_ok, Read.ensure_eq_ok, Prod.mk.injEq] at h
    obtain ⟨byte, _, hbyte, _, _, ⟨hfits, -, rfl⟩, h⟩ := h
    obtain ⟨rest, rfl, rfl⟩ := Read.byte_eq_ok hbyte
    obtain ⟨hnext, hfit⟩ := lt_of_fits (Nat.mod_lt _ (by decide)) hfits hplace hword
    by_cases hlast : byte.toNat < 128
    · rw [if_pos hlast, Read.pure_eq_ok, Prod.mk.injEq, Prod.mk.injEq] at h
      obtain ⟨⟨rfl, rfl⟩, rfl⟩ := h
      refine ⟨[byte], rest, byte.toNat, rfl, rfl, .last byte hlast, Nat.succ_pos _, rfl, ?_⟩
      rw [Nat.mod_eq_of_lt hlast] at hfit ⊢
      exact Read.toNat_ofNat_count hfit
    · rw [if_neg hlast] at h
      obtain ⟨others, rest, spelled, rfl, rfl, hothers, hlength, rfl, hnumber⟩ := ih hnext hfit h
      refine ⟨byte :: others, rest, _, rfl, rfl, .more byte (Nat.le_of_not_lt hlast) hothers,
        Nat.succ_le_succ hlength, ?_, hnumber.trans (add_more _ _ _ _)⟩
      rw [List.length_cons]
      omega

/-- A number is read where it is spelled. -/
theorem consumes_of_isNumber {bytes : Bytes} {number : UInt32} (h : IsNumber bytes number) :
    Consumes readSized bytes (number, bytes.length) := by
  have hread := consumes_readFrom h.spells _ 0 0 h.short (by
    rw [Nat.pow_zero, Nat.mul_one, Nat.zero_add]
    exact number.toNat_lt)
  rwa [Nat.pow_zero, Nat.mul_one, Nat.zero_add, Nat.zero_add, UInt32.ofNat_toNat] at hread

/-- A number that was read is spelled in front of what is left. -/
theorem readSized_eq_ok {subject : String} {bytes : Bytes} {number : UInt32} {size : Nat}
    {after : Reader} (h : readSized ⟨subject, [], bytes⟩ = .ok ((number, size), after)) :
    ∃ front rest, bytes = front ++ rest ∧ after = ⟨subject, [], rest⟩ ∧ IsNumber front number
      ∧ size = front.length := by
  obtain ⟨front, rest, spelled, rfl, rfl, hspells, hshort, rfl, hnumber⟩ :=
    exists_spells_of_readFrom (by decide) (by decide) h
  rw [Nat.pow_zero, Nat.mul_one, Nat.zero_add] at hnumber
  exact ⟨front, rest, rfl, rfl, ⟨hnumber ▸ hspells, hshort⟩, Nat.zero_add _⟩

/-- A number is read from the bytes that it is spelled by. -/
theorem read_eq_ok {subject : String} {bytes : Bytes} {number : UInt32} {after : Reader}
    (h : read ⟨subject, [], bytes⟩ = .ok (number, after)) :
    ∃ front rest, bytes = front ++ rest ∧ after = ⟨subject, [], rest⟩ ∧ IsNumber front number := by
  obtain ⟨⟨_, size⟩, _, hread, hnumber⟩ := Read.map_eq_ok.1 h
  obtain ⟨rfl, rfl⟩ := Prod.mk.inj hnumber
  obtain ⟨front, rest, hbytes, hafter, hfront, -⟩ := readSized_eq_ok hread
  exact ⟨front, rest, hbytes, hafter, hfront⟩

/-! ### Numbers that were written -/

/-- The groups of a number spell it, when there is room for it in them. -/
theorem spells_groups {more : Nat} :
    ∀ {number : Nat}, number < 128 ^ (more + 1) → Spells (groups more number) number := by
  induction more with
  | zero =>
    intro number h
    have hlow : number % 128 = number := Nat.mod_eq_of_lt h
    have hbyte : (UInt8.ofNat number).toNat = number := by
      rw [Read.toNat_ofNat_byte]
      omega
    have hspells := Spells.last (UInt8.ofNat number) (by omega)
    rw [hbyte] at hspells
    rwa [groups, hlow]
  | succ more ih =>
    intro number h
    rw [Nat.pow_succ] at h
    have hbyte : (UInt8.ofNat (number % 128 + 128)).toNat = number % 128 + 128 := by
      rw [Read.toNat_ofNat_byte]
      omega
    have hothers : number / 128 < 128 ^ (more + 1) := by omega
    have hspells := Spells.more (UInt8.ofNat (number % 128 + 128)) (by omega) (ih hothers)
    rwa [hbyte, Nat.add_mod_right, Nat.mod_mod, Nat.mod_add_div] at hspells

/-- A number takes one to five bytes. -/
theorem size_le (value : UInt32) : 1 ≤ size value ∧ size value ≤ 5 := by
  simp only [size]
  repeat' split
  all_goals omega

/-- The groups that `size` counts have room for the number. -/
theorem lt_pow_size (value : UInt32) : value.toNat < 128 ^ (size value - 1 + 1) := by
  have hlt := value.toNat_lt
  simp only [size]
  repeat' split
  all_goals omega

/-- What is written for a number is a spelling of it. -/
theorem isNumber_encode (value : UInt32) : IsNumber (encode value) value where
  spells := spells_groups (lt_pow_size value)
  short := by
    rw [length_encode]
    exact Nat.le_trans (size_le value).2 (by decide)

/-- A number, and how many bytes it takes, come back from its bytes. -/
theorem consumes_encode_sized (value : UInt32) :
    Consumes readSized (encode value) (value, size value) := by
  rw [← length_encode]
  exact consumes_of_isNumber (isNumber_encode value)

/-- A number comes back from its bytes. -/
theorem consumes_encode (value : UInt32) : Consumes read (encode value) value :=
  (consumes_encode_sized value).map Prod.fst

end Iamf.Leb128
