import Iamf.Obu.Header
import Iamf.Proofs.Bits.Spelling
import Iamf.Proofs.Checked.Arithmetic

/-!
# `Iamf.Proofs.Checked.Cursor`: a position in a byte string

A machine reads a byte string by a position in it, counted in bits. Bits are looked
up in their bytes one by one, whole bytes are cut out between two positions, and
every step is computed with 64 bit words. `Parse α` is a reading program of this
kind.

The programs go through from an `Addressable` cursor, one that is not beyond the end of
a byte string whose bits a word can count, and lead to another one. A `Sound` cursor is
one in a byte string of the size of an OBU at most.

* `bits_of_le`, `bits_of_lt`: reading some bits gives the number that they spell, or
  finds the byte string too short.
* `bytes_of_le`, `bytes_of_lt`, `rest_of`: so does reading bytes from a byte
  boundary on.
-/

set_option autoImplicit false

namespace Iamf.Checked

/-- A place in a byte string. -/
structure Cursor where
  /-- The structure being read, for the report of an early end. -/
  subject : String
  /-- The whole byte string. -/
  data : Bytes
  /-- The position, in bits. -/
  position : Nat
  deriving DecidableEq, Repr

/-- A program that reads, and may stop. -/
abbrev Parse := StateT Cursor (Except Stop)

/-! ### Bits -/

/-- Stops because the byte string ends too early. -/
def truncated {α : Type} : Parse α := do
  let cursor ← get
  fail (.truncated cursor.subject)

/-- How many bits are left. -/
def bitsLeft : Parse Nat := do
  let cursor ← get
  let total ← mul 64 cursor.data.length 8
  -- A difference that stays at zero.
  return total - cursor.position

/-- The number that `count` more bits spell from a position on, behind those that
have spelled `value`. -/
def spell (data : Bytes) : (count position value : Nat) → Except Stop Nat
  | 0, _, value => return value
  | count + 1, position, value => do
    let byte ← index data (position / 8)
    let place ← sub 7 (position % 8)
    let shifted ← shiftRight 8 byte.toNat place
    let value ← shiftLeft 64 value 1
    let next ← add 64 position 1
    spell data count next (value ||| shifted &&& 1)

/-- The number that the next `count` bits spell, which stay unread. -/
def peekBits (count : Nat) : Parse Nat := do
  assert (count ≤ 64)
  let left ← bitsLeft
  if left < count then truncated
  else do
    let cursor ← get
    spell cursor.data count cursor.position 0

/-- Moves on by some bits. -/
def advance (count : Nat) : Parse Unit := do
  let cursor ← get
  let position ← add 64 cursor.position count
  set { cursor with position }

/-- The number that the next `count` bits spell. -/
def bits (count : Nat) : Parse Nat := do
  let value ← peekBits count
  advance count
  return value

/-- Passes over `count` bits. -/
def skipBits (count : Nat) : Parse Unit := do
  let left ← bitsLeft
  if left < count then truncated else advance count

/-- The next bit. -/
def flag : Parse Bool := do
  let value ← bits 1
  return value = 1

/-! ### Whole bytes -/

/-- The offset of the next whole byte. -/
def bytePosition : Parse Nat := do
  let cursor ← get
  let rounded ← add 64 cursor.position 7
  return min (rounded / 8) cursor.data.length

/-- How many whole bytes are left. -/
def bytesLeft : Parse Nat := do
  let start ← bytePosition
  let cursor ← get
  sub cursor.data.length start

/-- Moves on to the next byte boundary. -/
def align : Parse Unit := do
  let cursor ← get
  let rounded ← add 64 cursor.position 7
  let position ← mul 64 (rounded / 8) 8
  set { cursor with position }

/-- The next `count` whole bytes. -/
def bytes (count : Nat) : Parse Bytes := do
  align
  let start ← bytePosition
  let cursor ← get
  let left ← sub cursor.data.length start
  if left < count then truncated
  else do
    let length ← mul 64 count 8
    advance length
    let stop ← add 64 start count
    slice cursor.data start stop

/-- Passes over `count` whole bytes. -/
def skipBytes (count : Nat) : Parse Unit := do
  let _ ← bytes count

/-- All bytes up to the end. -/
def rest : Parse Bytes := do
  align
  let start ← bytePosition
  let cursor ← get
  let position ← mul 64 cursor.data.length 8
  set { cursor with position }
  slice cursor.data start cursor.data.length

/-! ### Running programs -/

section

variable {α β : Type} {cursor middle : Cursor}

/-- The result of a program on a whole byte string. -/
def parse (program : Parse α) (subject : String) (data : Bytes) : Except Stop α :=
  (program ⟨subject, data, 0⟩).map (·.1)

theorem run_bind_of_ok {first : Parse α} {next : α → Parse β} {value : α}
    (h : first cursor = .ok (value, middle)) : (first >>= next) cursor = next value middle := by
  simp only [Bind.bind, StateT.bind, h, Except.bind]

theorem run_bind_of_error {first : Parse α} {next : α → Parse β} {stop : Stop}
    (h : first cursor = .error stop) : (first >>= next) cursor = .error stop := by
  simp only [Bind.bind, StateT.bind, h, Except.bind]

theorem run_get_bind (next : Cursor → Parse α) (cursor : Cursor) :
    (get >>= next) cursor = next cursor cursor := rfl

theorem run_set_bind (next : PUnit → Parse α) (cursor middle : Cursor) :
    (set middle >>= next) cursor = next ⟨⟩ middle := rfl

/-- An outcome that was settled without reading, as a program. -/
theorem run_lift {outcome : Except Stop α} {value : α} (h : outcome = .ok value) :
    (liftM outcome : Parse α) cursor = .ok (value, cursor) := by
  subst h
  rfl

theorem run_truncated :
    (truncated : Parse α) cursor = .error (.failed (.truncated cursor.subject)) := rfl

end

namespace Cursor

/-- The cursor some bits further on. -/
def ahead (cursor : Cursor) (count : Nat) : Cursor :=
  { cursor with position := cursor.position + count }

@[simp] theorem ahead_subject (cursor : Cursor) (count : Nat) :
    (cursor.ahead count).subject = cursor.subject := rfl

@[simp] theorem ahead_data (cursor : Cursor) (count : Nat) :
    (cursor.ahead count).data = cursor.data := rfl

@[simp] theorem ahead_position (cursor : Cursor) (count : Nat) :
    (cursor.ahead count).position = cursor.position + count := rfl

theorem ahead_ahead (cursor : Cursor) (count more : Nat) :
    (cursor.ahead count).ahead more = cursor.ahead (count + more) := by
  rw [ahead, ahead, ahead, Nat.add_assoc]

/-- The bits that are left. -/
def unread (cursor : Cursor) : List Bool :=
  (Bits.ofBytes cursor.data).drop cursor.position

/-- The cursor at the next byte boundary. -/
def aligned (cursor : Cursor) : Cursor :=
  { cursor with position := (cursor.position + 7) / 8 * 8 }

/-- A cursor within a byte string whose bits can be counted in a word, with those of a
byte that would be begun behind them. -/
structure Addressable (cursor : Cursor) : Prop where
  counted : 8 * cursor.data.length + 7 < 2 ^ 64
  inside : cursor.position ≤ 8 * cursor.data.length

/-- A cursor within a byte string that an OBU has room for. -/
structure Sound (cursor : Cursor) : Prop where
  bounded : cursor.data.length ≤ Obu.maxSize
  inside : cursor.position ≤ 8 * cursor.data.length

theorem length_unread (cursor : Cursor) :
    cursor.unread.length = 8 * cursor.data.length - cursor.position := by
  rw [unread, List.length_drop, Bits.length_ofBytes]

/-- At a byte boundary there is nothing to move on to. -/
theorem aligned_of {cursor : Cursor} {offset : Nat} (h : cursor.position = 8 * offset) :
    cursor.aligned = cursor := by
  rw [aligned, show (cursor.position + 7) / 8 * 8 = cursor.position by omega]

theorem unread_ahead (cursor : Cursor) (count : Nat) :
    (cursor.ahead count).unread = cursor.unread.drop count := by
  rw [unread, unread, List.drop_drop]
  rfl

/-- The next bit is in the byte that the position says. -/
theorem unread_of_getElem? {cursor : Cursor} {byte : UInt8}
    (h : cursor.data[cursor.position / 8]? = some byte) :
    cursor.unread
      = byte.toNat.testBit (7 - cursor.position % 8) :: (cursor.ahead 1).unread := by
  obtain ⟨hlt, hbyte⟩ := List.getElem?_eq_some_iff.1 h
  have hrest : cursor.data.drop (cursor.position / 8)
      = byte :: cursor.data.drop (cursor.position / 8 + 1) := by
    rw [List.drop_eq_getElem_cons hlt, hbyte]
  have hhere := Bits.drop_ofBytes_within hrest
    (show cursor.position % 8 + (7 - cursor.position % 8 + 1) = 8 by omega)
  have hthere := Bits.drop_ofBytes_within hrest
    (show cursor.position % 8 + 1 + (7 - cursor.position % 8) = 8 by omega)
  rw [← Nat.add_assoc] at hthere
  rw [Nat.div_add_mod] at hhere hthere
  rw [unread, unread, ahead, hhere, hthere, Bits.ofNat, List.cons_append]

namespace Sound

variable {cursor : Cursor} (h : cursor.Sound)
include h

theorem ahead {count : Nat} (hcount : cursor.position + count ≤ 8 * cursor.data.length) :
    (cursor.ahead count).Sound :=
  ⟨h.bounded, hcount⟩

theorem addressable : cursor.Addressable where
  counted := by
    have hbounded := h.bounded
    simp only [Obu.maxSize] at hbounded
    omega
  inside := h.inside

end Sound

theorem Addressable.ahead {cursor : Cursor} {count : Nat} (h : cursor.Addressable)
    (hcount : cursor.position + count ≤ 8 * cursor.data.length) :
    (cursor.ahead count).Addressable :=
  ⟨h.counted, hcount⟩

theorem Addressable.aligned {cursor : Cursor} (h : cursor.Addressable) :
    cursor.aligned.Addressable where
  counted := h.counted
  inside := by
    have hinside := h.inside
    show (cursor.position + 7) / 8 * 8 ≤ 8 * cursor.data.length
    omega

end Cursor

/-! ### Reading bits -/

section

variable {cursor : Cursor} {count : Nat} (h : cursor.Addressable)
include h

theorem run_bitsLeft : bitsLeft cursor = .ok (cursor.unread.length, cursor) := by
  have hcounted := h.counted
  rw [bitsLeft, run_get_bind, mul_of (by omega), pure_bind, cursor.length_unread,
    Nat.mul_comm]
  rfl

theorem run_advance (hcount : cursor.position + count ≤ 8 * cursor.data.length) :
    advance count cursor = .ok ((), cursor.ahead count) := by
  have hcounted := h.counted
  rw [advance, run_get_bind, add_of (by omega), pure_bind]
  rfl

theorem run_align : align cursor = .ok ((), cursor.aligned) := by
  have hcounted := h.counted
  have hinside := h.inside
  rw [align, run_get_bind, add_of (by omega), pure_bind, mul_of (by omega), pure_bind]
  rfl

omit h in
/-- A bit behind a number doubles it. -/
theorem shiftLeft_or_bit (value : Nat) (byte : UInt8) (place : Nat) :
    value <<< 1 ||| byte.toNat >>> place &&& 1
      = 2 * value + (byte.toNat.testBit place).toNat := by
  have hlt : byte.toNat >>> place % 2 < 2 ^ 1 := Nat.mod_lt _ (by decide)
  rw [Nat.and_one_is_mod, ← Nat.shiftLeft_add_eq_or_of_lt hlt, Nat.toNat_testBit,
    Nat.shiftRight_eq_div_pow, Nat.shiftLeft_eq, Nat.mul_comm]

/-- Looking at bits one by one spells the number, as long as there is room for it. -/
theorem spell_of {value : Nat} (hcount : count ≤ cursor.unread.length)
    (hvalue : (value + 1) * 2 ^ count ≤ 2 ^ 64) :
    spell cursor.data count cursor.position value
      = .ok (value * 2 ^ count + Bits.toNat (cursor.unread.take count)) := by
  induction count generalizing cursor value with
  | zero => simp [spell, pure, Except.pure]
  | succ count ih =>
    have hcounted := h.counted
    have hinside := h.inside
    have hlength := cursor.length_unread
    obtain ⟨byte, hbyte⟩ : ∃ byte, cursor.data[cursor.position / 8]? = some byte :=
      ⟨_, List.getElem?_eq_getElem (by omega)⟩
    -- The bound on the value leaves room for one doubling for each bit to come.
    have hroom : (2 * value + 2) * 2 ^ count ≤ 2 ^ 64 := by
      rwa [Nat.pow_succ, ← Nat.mul_assoc, Nat.mul_right_comm, Nat.add_mul, Nat.mul_comm value]
        at hvalue
    have hfits : value <<< 1 < 2 ^ 64 := by
      have hpos := Nat.le_mul_of_pos_right (2 * value + 2) (Nat.two_pow_pos count)
      rw [Nat.shiftLeft_eq]
      omega
    have hlast : (byte.toNat.testBit (7 - cursor.position % 8)).toNat ≤ 1 := Bool.toNat_le _
    have hnext : (2 * value + (byte.toNat.testBit (7 - cursor.position % 8)).toNat + 1) * 2 ^ count
        ≤ 2 ^ 64 :=
      Nat.le_trans (Nat.mul_le_mul_right _ (by omega)) hroom
    have hrest : count ≤ (cursor.ahead 1).unread.length := by
      rw [Cursor.length_unread, Cursor.ahead_data, Cursor.ahead_position]
      omega
    have hspell := ih (h.ahead (by omega)) hrest hnext
    rw [Cursor.ahead_data, Cursor.ahead_position] at hspell
    rw [spell, index_of hbyte, pure_bind, sub_of (by omega), pure_bind, shiftRight_of (by omega),
      pure_bind, shiftLeft_of (by decide) hfits, pure_bind, add_of (by omega), pure_bind,
      shiftLeft_or_bit, hspell, Cursor.unread_of_getElem? hbyte, List.take_succ_cons,
      Bits.toNat_cons, List.length_take, Nat.min_eq_left hrest, Nat.add_mul, Nat.pow_succ,
      Nat.mul_comm 2 value, Nat.mul_assoc, Nat.mul_comm 2, Nat.add_assoc]

theorem bits_of_le (hcount : count ≤ cursor.unread.length) (hwidth : count ≤ 64) :
    bits count cursor
      = .ok (Bits.toNat (cursor.unread.take count), cursor.ahead count) := by
  have hlength := cursor.length_unread
  have hinside := h.inside
  have hroom : (0 + 1) * 2 ^ count ≤ 2 ^ 64 := by
    rw [Nat.zero_add, Nat.one_mul]
    exact Nat.pow_le_pow_right (by decide) hwidth
  have hspell := spell_of h hcount hroom
  rw [Nat.zero_mul, Nat.zero_add] at hspell
  have hpeek : peekBits count cursor = .ok (Bits.toNat (cursor.unread.take count), cursor) := by
    rw [peekBits, assert_of hwidth, pure_bind, run_bind_of_ok (run_bitsLeft h),
      if_neg (by omega), run_get_bind, run_lift hspell]
  rw [bits, run_bind_of_ok hpeek, run_bind_of_ok (run_advance h (by omega))]
  rfl

theorem bits_of_lt (hcount : cursor.unread.length < count) (hwidth : count ≤ 64) :
    bits count cursor = .error (.failed (.truncated cursor.subject)) := by
  have hpeek : peekBits count cursor = .error (.failed (.truncated cursor.subject)) := by
    rw [peekBits, assert_of hwidth, pure_bind, run_bind_of_ok (run_bitsLeft h),
      if_pos hcount, run_truncated]
  rw [bits, run_bind_of_error hpeek]

theorem skipBits_of_le (hcount : count ≤ cursor.unread.length) :
    skipBits count cursor = .ok ((), cursor.ahead count) := by
  have hlength := cursor.length_unread
  have hinside := h.inside
  rw [skipBits, run_bind_of_ok (run_bitsLeft h), if_neg (by omega), run_advance h (by omega)]

theorem skipBits_of_lt (hcount : cursor.unread.length < count) :
    skipBits count cursor = .error (.failed (.truncated cursor.subject)) := by
  rw [skipBits, run_bind_of_ok (run_bitsLeft h), if_pos hcount, run_truncated]

end

/-! ### Reading bytes from a byte boundary on -/

section

variable {cursor : Cursor} {offset count : Nat} (h : cursor.Addressable)
  (hoffset : cursor.position = 8 * offset)
include h hoffset

theorem run_bytePosition : bytePosition cursor = .ok (offset, cursor) := by
  have hcounted := h.counted
  have hinside := h.inside
  rw [bytePosition, run_get_bind, add_of (by omega), pure_bind,
    show min ((cursor.position + 7) / 8) cursor.data.length = offset by omega]
  rfl

theorem run_bytesLeft : bytesLeft cursor = .ok (cursor.data.length - offset, cursor) := by
  have hinside := h.inside
  rw [bytesLeft, run_bind_of_ok (run_bytePosition h hoffset), run_get_bind, sub_of (by omega)]
  rfl

theorem bytes_of_le (hcount : count ≤ cursor.data.length - offset) :
    bytes count cursor
      = .ok ((cursor.data.drop offset).take count, cursor.ahead (8 * count)) := by
  have hcounted := h.counted
  have hinside := h.inside
  rw [bytes, run_bind_of_ok (run_align h), Cursor.aligned_of hoffset,
    run_bind_of_ok (run_bytePosition h hoffset), run_get_bind, sub_of (by omega), pure_bind,
    if_neg (by omega), mul_of (by omega), pure_bind, Nat.mul_comm count,
    run_bind_of_ok (run_advance h (by omega)), add_of (by omega), pure_bind,
    slice_of (by omega) (by omega), List.drop_take, Nat.add_sub_cancel_left]
  rfl

theorem bytes_of_lt (hcount : cursor.data.length - offset < count) :
    bytes count cursor = .error (.failed (.truncated cursor.subject)) := by
  have hinside := h.inside
  rw [bytes, run_bind_of_ok (run_align h), Cursor.aligned_of hoffset,
    run_bind_of_ok (run_bytePosition h hoffset), run_get_bind, sub_of (by omega), pure_bind,
    if_pos hcount, run_truncated]

theorem rest_of :
    rest cursor = .ok (cursor.data.drop offset,
      cursor.ahead (8 * (cursor.data.length - offset))) := by
  have hcounted := h.counted
  have hinside := h.inside
  rw [rest, run_bind_of_ok (run_align h), Cursor.aligned_of hoffset,
    run_bind_of_ok (run_bytePosition h hoffset), run_get_bind, mul_of (by omega), pure_bind,
    run_set_bind, slice_of (by omega) (Nat.le_refl _), List.take_length, Cursor.ahead,
    show cursor.data.length * 8 = cursor.position + 8 * (cursor.data.length - offset) by omega]
  rfl

end

end Iamf.Checked
