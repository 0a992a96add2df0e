import Iamf.Proofs.Bits.Spelling
import Mathlib.Data.List.GetD

/-!
# `Iamf.Proofs.Bits.Places`: the bits of a byte string by their places

`Bytes.bitAt` is the bit at a place, counted from the highest bit of the first byte, and
zero where there are no bytes left. A byte string is known by its length and these bits.
`Bytes.Patched` says that only a field of it was set: which bits the field has got, as far
as it lies inside, and that all other bits are the ones they were.

* `Bytes.bitAt_eq`: places in a byte string are places in the list of its bits.
* `Bytes.Patched.eq_of`: a field can be set in one way only.
* `Bytes.Patched.again`: of two values that are set, the last one stays.
* `Bits.toNat_take_drop_iff`: a number that is all ones.
-/

set_option autoImplicit false

namespace Iamf

/-! ### Lists of bits -/

namespace Bits

/-- The bits of a number are those at its places, the highest one first. -/
theorem getElem?_ofNat (width value place : Nat) :
    (ofNat width value)[place]?
      = if place < width then some (value.testBit (width - 1 - place)) else none := by
  induction width generalizing place with
  | zero => rfl
  | succ width ih =>
    cases place with
    | zero => rfl
    | succ place =>
      rw [ofNat, List.getElem?_cons_succ, ih, show width + 1 - 1 - (place + 1) = width - 1 - place
        by omega]
      simp only [Nat.add_lt_add_iff_right]

/-- Bits that fill whole bytes are the bits of these bytes. -/
theorem ofBytes_toBytes {count : Nat} :
    ∀ {bits : List Bool}, bits.length = 8 * count → ofBytes (toBytes bits) = bits := by
  induction count with
  | zero =>
    intro bits h
    rw [List.length_eq_zero_iff.1 h]
    rfl
  | succ count ih =>
    intro bits h
    have hfirst : (bits.take 8).length = 8 := by
      rw [List.length_take]
      omega
    have hvalue := toNat_lt (bits.take 8)
    rw [hfirst] at hvalue
    have hbyte : ofNat 8 (UInt8.ofNat (toNat (bits.take 8))).toNat = bits.take 8 := by
      rw [UInt8.toNat_ofNat', Nat.mod_eq_of_lt hvalue, ofNat_toNat_of_length hfirst]
    have hrest : (bits.drop 8).length = 8 * count := by
      rw [List.length_drop]
      omega
    rw [← List.take_append_drop 8 bits, ← hbyte, toBytes_ofNat_append, ofBytes_cons, ih hrest]

/-- Bits spell the highest number of their count just if all of them are ones. -/
theorem toNat_eq_iff_all (bits : List Bool) :
    toNat bits + 1 = 2 ^ bits.length ↔ ∀ bit ∈ bits, bit = true := by
  induction bits with
  | nil => simp
  | cons bit bits ih =>
    have hlt := toNat_lt bits
    rw [toNat_cons, List.length_cons, Nat.pow_succ, List.forall_mem_cons, ← ih]
    cases bit <;> simp <;> omega

end Bits

/-! ### Byte strings -/

namespace Bytes

/-- The bit at a place: the highest one of the first byte is at place 0. Where no bytes
are left all bits are zero. -/
def bitAt (bytes : Bytes) (place : Nat) : Bool :=
  (bytes.getD (place / 8) 0).toNat.testBit (7 - place % 8)

theorem bitAt_append (front back : Bytes) (place : Nat) :
    bitAt (front ++ back) place
      = if place < 8 * front.length then bitAt front place
        else bitAt back (place - 8 * front.length) := by
  rw [bitAt, bitAt, bitAt]
  split
  · rw [List.getD_append _ _ _ _ (by omega)]
  · rw [List.getD_append_right _ _ _ _ (by omega),
      show (place - 8 * front.length) / 8 = place / 8 - front.length by omega,
      show (place - 8 * front.length) % 8 = place % 8 by omega]

theorem bitAt_nil (place : Nat) : bitAt [] place = false := by
  rw [bitAt, List.getD_nil]
  exact Nat.zero_testBit _

/-- There are no bits behind the last byte. -/
theorem bitAt_of_le {bytes : Bytes} {place : Nat} (h : 8 * bytes.length ≤ place) :
    bytes.bitAt place = false := by
  rw [← List.append_nil bytes, bitAt_append, if_neg (Nat.not_lt.2 h), bitAt_nil]

/-- Places in a byte string are places in the list of its bits. -/
theorem bitAt_eq (bytes : Bytes) (place : Nat) :
    bytes.bitAt place = (Bits.ofBytes bytes).getD place false := by
  induction bytes generalizing place with
  | nil => exact bitAt_nil place
  | cons byte bytes ih =>
    have hlength := Bits.length_ofNat 8 byte.toNat
    have hsplit := bitAt_append [byte] bytes place
    rw [List.singleton_append, List.length_singleton, Nat.mul_one] at hsplit
    rw [hsplit, Bits.ofBytes_cons]
    by_cases hfirst : place < 8
    · rw [if_pos hfirst, List.getD_append _ _ _ _ (by rwa [hlength]), List.getD_eq_getElem?_getD,
        Bits.getElem?_ofNat, if_pos hfirst, bitAt, Nat.div_eq_of_lt hfirst, Nat.mod_eq_of_lt hfirst]
      rfl
    · rw [if_neg hfirst, List.getD_append_right _ _ _ _ (by omega), hlength, ← ih]

/-- Bits that are the same one by one are the same in a row. -/
theorem take_eq_of_bitAt {first second : Bytes} {count : Nat}
    (hlength : first.length = second.length)
    (h : ∀ place < count, first.bitAt place = second.bitAt place) :
    (Bits.ofBytes first).take count = (Bits.ofBytes second).take count := by
  refine List.ext_getElem ?_ fun place hfirst hsecond => ?_
  · rw [List.length_take, List.length_take, Bits.length_ofBytes, Bits.length_ofBytes, hlength]
  · obtain ⟨hplace, hinside⟩ := Nat.lt_min.1 (List.length_take ▸ hfirst)
    obtain ⟨-, hend⟩ := Nat.lt_min.1 (List.length_take ▸ hsecond)
    have hbit := h place hplace
    rw [bitAt_eq, bitAt_eq, List.getD_eq_getElem _ _ hinside,
      List.getD_eq_getElem _ _ hend] at hbit
    rw [List.getElem_take, List.getElem_take]
    exact hbit

theorem bitAt_take {bytes : Bytes} {count place : Nat} (h : place < 8 * count) :
    bitAt (bytes.take count) place = bytes.bitAt place := by
  rw [bitAt, bitAt, List.getD_eq_getElem?_getD, List.getD_eq_getElem?_getD,
    List.getElem?_take_of_lt (by omega)]

theorem bitAt_drop (bytes : Bytes) (count place : Nat) :
    bitAt (bytes.drop count) place = bytes.bitAt (8 * count + place) := by
  rw [bitAt, bitAt, List.getD_eq_getElem?_getD, List.getD_eq_getElem?_getD, List.getElem?_drop,
    show (8 * count + place) / 8 = count + place / 8 by omega, Nat.mul_add_mod]

theorem bitAt_zeros (count place : Nat) : bitAt (List.replicate count 0) place = false := by
  rw [bitAt, List.getD_eq_getElem?_getD, List.getElem?_getD_replicate_default_eq]
  exact Nat.zero_testBit _

/-- Byte strings of one length are the same if their bits are. -/
theorem eq_of_bitAt {first second : Bytes} (hlength : first.length = second.length)
    (h : ∀ place, first.bitAt place = second.bitAt place) : first = second := by
  have hbits := take_eq_of_bitAt hlength fun place (_ : place < 8 * first.length) => h place
  rw [List.take_of_length_le (Nat.le_of_eq (Bits.length_ofBytes first)),
    List.take_of_length_le (by rw [Bits.length_ofBytes, hlength])] at hbits
  rw [← Bits.toBytes_ofBytes first, hbits, Bits.toBytes_ofBytes]

/-! ### Fields that are set -/

/-- The `width` bits from `offset` on are set to the low bits of `value`, as far as they
lie inside, and nothing else is changed. -/
structure Patched (offset width value : Nat) (data patched : Bytes) : Prop where
  length_eq : patched.length = data.length
  /-- The field, its highest bit first. -/
  field : ∀ place < width, offset + place < 8 * data.length →
    patched.bitAt (offset + place) = value.testBit (width - 1 - place)
  /-- What is in front of the field, and what is behind it. -/
  frame : ∀ place, place < offset ∨ offset + width ≤ place →
    patched.bitAt place = data.bitAt place

variable {offset width value other : Nat} {data patched later : Bytes}

/-- A field can be set in one way only. -/
theorem Patched.eq_of (h : Patched offset width value data patched)
    (hlater : Patched offset width value data later) : later = patched := by
  refine eq_of_bitAt (hlater.length_eq.trans h.length_eq.symm) fun place => ?_
  by_cases hframe : place < offset ∨ offset + width ≤ place
  · rw [h.frame place hframe, hlater.frame place hframe]
  · obtain ⟨inside, rfl⟩ : ∃ inside, place = offset + inside := ⟨place - offset, by omega⟩
    by_cases hend : offset + inside < 8 * data.length
    · rw [h.field inside (by omega) hend, hlater.field inside (by omega) hend]
    · rw [bitAt_of_le (by rw [hlater.length_eq]; omega), bitAt_of_le (by rw [h.length_eq]; omega)]

/-- When a field is set twice, the first value leaves no trace. -/
theorem Patched.again (h : Patched offset width value data patched)
    (hlater : Patched offset width other patched later) : Patched offset width other data later where
  length_eq := hlater.length_eq.trans h.length_eq
  field := fun place hplace hend => hlater.field place hplace (h.length_eq.symm ▸ hend)
  frame := fun place hplace => (hlater.frame place hplace).trans (h.frame place hplace)

/-- To set a whole byte is to set its eight bits. -/
theorem patched_set (data : Bytes) (count : Nat) (byte : UInt8) :
    Patched (8 * count) 8 byte.toNat data (data.set count byte) where
  length_eq := List.length_set
  field := fun place hplace hend => by
    rw [bitAt, show (8 * count + place) / 8 = count by omega,
      show (8 * count + place) % 8 = place by omega, List.getD_eq_getElem?_getD,
      List.getElem?_set_self (by omega)]
    rfl
  frame := fun place hplace => by
    rw [bitAt, bitAt, List.getD_eq_getElem?_getD, List.getD_eq_getElem?_getD,
      List.getElem?_set_ne (by omega)]

/-! ### Fields that are all ones -/

/-- Whether `count` bits from `offset` on are all ones. -/
def AllOnes (bytes : Bytes) (offset count : Nat) : Prop :=
  ∀ place < count, bytes.bitAt (offset + place) = true

instance (bytes : Bytes) (offset count : Nat) : Decidable (bytes.AllOnes offset count) :=
  inferInstanceAs (Decidable (∀ place < count, bytes.bitAt (offset + place) = true))

/-- Byte strings that have the same bits there have the same ones. -/
theorem allOnes_congr {first second : Bytes} {offset count : Nat}
    (h : ∀ place < count, first.bitAt (offset + place) = second.bitAt (offset + place)) :
    first.AllOnes offset count ↔ second.AllOnes offset count := by
  constructor
  · exact fun hones place hplace => (h place hplace).symm.trans (hones place hplace)
  · exact fun hones place hplace => (h place hplace).trans (hones place hplace)

end Bytes

/-- The number that bits within a byte string spell is the highest one of their count
just if they are all ones. -/
theorem Bits.toNat_take_drop_iff {bytes : Bytes} {offset count : Nat}
    (h : offset + count ≤ 8 * bytes.length) :
    toNat (((ofBytes bytes).drop offset).take count) + 1 = 2 ^ count
      ↔ bytes.AllOnes offset count := by
  have hlength : (((ofBytes bytes).drop offset).take count).length = count := by
    rw [List.length_take, List.length_drop, length_ofBytes]
    omega
  have hbit : ∀ place (hplace : place < count),
      (((ofBytes bytes).drop offset).take count)[place]? = some (bytes.bitAt (offset + place)) := by
    intro place hplace
    have hinside : offset + place < (ofBytes bytes).length := by
      rw [length_ofBytes]
      omega
    rw [List.getElem?_take_of_lt hplace, List.getElem?_drop, Bytes.bitAt_eq,
      List.getD_eq_getElem _ _ hinside, List.getElem?_eq_getElem hinside]
  have hall := toNat_eq_iff_all (((ofBytes bytes).drop offset).take count)
  rw [hlength] at hall
  rw [hall]
  constructor
  · intro hones place hplace
    exact hones _ (List.mem_of_getElem? (hbit place hplace))
  · intro hones bit hmem
    obtain ⟨place, hplace⟩ := List.getElem?_of_mem hmem
    have hlt : place < count := by
      rw [← hlength]
      exact (List.getElem?_eq_some_iff.1 hplace).1
    rw [hbit place hlt, Option.some.injEq] at hplace
    exact hplace ▸ hones place hlt

end Iamf
