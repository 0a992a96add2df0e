import Iamf.Element.Basic
import Iamf.Proofs.Bits.Reading
import Iamf.Proofs.Checked.Cursor
import Iamf.Proofs.Codec.ChannelCount

/-!
# `Iamf.Proofs.Checked.Rewriting`: setting a channel count bit by bit

A machine sets the channel count of a decoder configuration by copying its first
bytes bit by bit, with the channel count in place of what was there. Missing bytes
count as zeros, so the copy never runs out of bits, and what comes of it is as long as
what was read.

* `Writer.put_of`: bits are put behind those that a writer holds.
* `run_copy`, `run_copyRest`: copying keeps what was written and what is left to read
  together.
* `decoderConfigFor_eq`: the configuration for a channel count.
* `assignSubstreams_eq`: the configurations of all substreams of an element.
-/

set_option autoImplicit false

namespace Iamf.Checked

/-! ### Writing bits -/

/-- Bits on their way into bytes. -/
structure Writer where
  /-- The bytes that are complete. -/
  whole : Bytes := []
  /-- The bits of the byte that was begun, as a number. -/
  begun : Nat := 0
  /-- How many these are. -/
  used : Nat := 0
  deriving DecidableEq, Repr

namespace Writer

/-- Puts one bit. -/
def putBit (writer : Writer) (bit : Nat) : Except Stop Writer := do
  let shifted ← shiftLeft 8 writer.begun 1
  let used ← add 64 writer.used 1
  if used = 8 then
    return { whole := writer.whole ++ [UInt8.ofNat (shifted ||| bit)] }
  else return { writer with begun := shifted ||| bit, used }

/-- Puts the low `count` bits of a number, the highest one first. -/
def putEach : (count value : Nat) → Writer → Except Stop Writer
  | 0, _, writer => return writer
  | count + 1, value, writer => do
    let shifted ← shiftRight 64 value count
    let next ← writer.putBit (shifted &&& 1)
    putEach count value next

/-- Puts the low `count` bits of a number. -/
def put (count value : Nat) (writer : Writer) : Except Stop Writer := do
  assert (count ≤ 64)
  putEach count value writer

/-- How many bits were put. -/
def bitLength (writer : Writer) : Except Stop Nat := do
  let whole ← mul 64 writer.whole.length 8
  add 64 whole writer.used

/-- The bytes, the last one filled up with zeros. -/
def finish (writer : Writer) : Except Stop Bytes :=
  if 0 < writer.used then do
    let left ← sub 8 writer.used
    let filled ← writer.put left 0
    return filled.whole
  else return writer.whole

/-- The bits that a writer holds. -/
def bits (writer : Writer) : List Bool :=
  Bits.ofBytes writer.whole ++ Bits.ofNat writer.used writer.begun

/-- A writer whose last byte is not complete. -/
structure Sound (writer : Writer) : Prop where
  used_lt : writer.used < 8
  begun_lt : writer.begun < 2 ^ writer.used

theorem length_bits (writer : Writer) :
    writer.bits.length = 8 * writer.whole.length + writer.used := by
  rw [bits, List.length_append, Bits.length_ofBytes, Bits.length_ofNat]

variable {writer : Writer}

theorem sound_of_whole (whole : Bytes) : ({ whole } : Writer).Sound :=
  ⟨Nat.zero_lt_succ 7, Nat.zero_lt_one⟩

theorem putBit_of (h : writer.Sound) (bit : Bool) :
    ∃ next, writer.putBit bit.toNat = .ok next ∧ next.Sound ∧ next.bits = writer.bits ++ [bit] := by
  obtain ⟨hused, hbegun⟩ := h
  have hbit : bit.toNat < 2 ^ 1 := Bool.toNat_lt bit
  have hor : writer.begun <<< 1 ||| bit.toNat = 2 * writer.begun + bit.toNat := by
    rw [← Nat.shiftLeft_add_eq_or_of_lt hbit, Nat.shiftLeft_eq, Nat.mul_comm]
  have hfits : 2 * writer.begun + bit.toNat < 2 ^ (writer.used + 1) := by
    rw [Nat.pow_succ]
    omega
  have hbyte : 2 * writer.begun + bit.toNat < 2 ^ 8 :=
    Nat.lt_of_lt_of_le hfits (Nat.pow_le_pow_right (by decide) (by omega))
  have hshift : writer.begun <<< 1 < 2 ^ 8 := by
    rw [Nat.shiftLeft_eq]
    omega
  -- The bits of a number that was doubled are those it had, and the new one.
  have hbits : Bits.ofNat (writer.used + 1) (2 * writer.begun + bit.toNat)
      = Bits.ofNat writer.used writer.begun ++ [bit] := by
    have hfront := Bits.take_ofNat writer.used 1 (2 * writer.begun + bit.toNat)
    have hlast := Bits.drop_ofNat writer.used 1 (2 * writer.begun + bit.toNat)
    rw [Nat.shiftRight_eq_div_pow,
      show (2 * writer.begun + bit.toNat) / 2 ^ 1 = writer.begun by omega] at hfront
    rw [← List.take_append_drop writer.used (Bits.ofNat (writer.used + 1) _), hfront, hlast]
    cases bit <;> simp [Bits.ofNat, Nat.testBit_zero]
  rw [putBit, shiftLeft_of (by decide) hshift, pure_bind, add_of (by omega), pure_bind, hor]
  split
  · rename_i hfull
    rw [hfull] at hbits
    refine ⟨_, rfl, sound_of_whole _, ?_⟩
    rw [bits, bits, Bits.ofBytes_append, Bits.ofBytes_cons, Bits.ofBytes_nil, List.append_nil,
      UInt8.toNat_ofNat', Nat.mod_eq_of_lt hbyte, hbits, Bits.ofNat, List.append_nil,
      List.append_assoc]
  · refine ⟨_, rfl, ⟨by show writer.used + 1 < 8; omega, hfits⟩, ?_⟩
    rw [bits, bits, hbits, List.append_assoc]

theorem putEach_of (h : writer.Sound) {count : Nat} (hcount : count ≤ 64) (value : Nat) :
    ∃ next, putEach count value writer = .ok next ∧ next.Sound
      ∧ next.bits = writer.bits ++ Bits.ofNat count value := by
  induction count generalizing writer with
  | zero => exact ⟨writer, rfl, h, (List.append_nil _).symm⟩
  | succ count ih =>
    obtain ⟨middle, hmiddle, hsound, hbits⟩ := putBit_of h (value.testBit count)
    obtain ⟨next, hnext, hlast, hall⟩ := ih hsound (by omega)
    refine ⟨next, ?_, hlast, ?_⟩
    · rw [putEach, shiftRight_of (by omega), pure_bind, Nat.and_one_is_mod,
        Nat.shiftRight_eq_div_pow, ← Nat.toNat_testBit, hmiddle]
      exact hnext
    · rw [hall, hbits, Bits.ofNat, List.append_assoc, List.singleton_append]

theorem put_of (h : writer.Sound) {count : Nat} (hcount : count ≤ 64) (value : Nat) :
    ∃ next, writer.put count value = .ok next ∧ next.Sound
      ∧ next.bits = writer.bits ++ Bits.ofNat count value := by
  rw [put, assert_of hcount, pure_bind]
  exact putEach_of h hcount value

theorem bitLength_of (h : writer.bits.length < 2 ^ 64) :
    writer.bitLength = .ok writer.bits.length := by
  rw [length_bits] at h ⊢
  rw [bitLength, mul_of (by omega), pure_bind, add_of (by omega), Nat.mul_comm]
  rfl

/-- Bits that fill whole bytes are those bytes. -/
theorem finish_of (h : writer.Sound) (hwhole : writer.bits.length % 8 = 0) :
    writer.finish = .ok (Bits.toBytes writer.bits)
      ∧ 8 * (Bits.toBytes writer.bits).length = writer.bits.length := by
  have hused := h.used_lt
  have hlength := writer.length_bits
  have hzero : writer.used = 0 := by omega
  have hbits : Bits.toBytes writer.bits = writer.whole := by
    rw [bits, hzero, Bits.ofNat, List.append_nil, Bits.toBytes_ofBytes]
  rw [finish, if_neg (by omega), hbits]
  exact ⟨rfl, by omega⟩

end Writer

/-! ### Copying -/

/-- Copies the next bits, and gives the number that they spell. -/
def copy (count : Nat) (writer : Writer) : Parse (Nat × Writer) := do
  let value ← bits count
  let next ← writer.put count value
  return (value, next)

/-- Copies bits that are there under a condition only. -/
def copyIf (condition : Prop) [Decidable condition] (count : Nat) (writer : Writer) :
    Parse Writer :=
  if condition then Prod.snd <$> copy count writer else return writer

/-- Copies what is left up to `total` bits, up to 32 of them at a time. -/
def copyRest (total : Nat) : (rounds : Nat) → Writer → Parse Writer
  | 0, _ => throw (.faulted .endless)
  | rounds + 1, writer => do
    let length ← writer.bitLength
    if length < total then do
      let left ← sub total length
      let (_, next) ← copy (min left 32) writer
      copyRest total rounds next
    else return writer

/-- Writes items over those at the start of a list. -/
def overwrite (items news : Bytes) : Except Stop Bytes :=
  guarded (news.length ≤ items.length) .index (news ++ items.drop news.length)

/-- Rewrites the first `window` bytes of a byte string, with zeros for missing ones.
The bits that `rewrite` does not write are copied. -/
def rewriteBits (data : Bytes) (window : Nat) (rewrite : Writer → Parse Writer) :
    Except Stop Bytes := do
  let length := min data.length window
  let front ← slice data 0 length
  let padded ← overwrite (List.replicate window 0) front
  let total ← mul 64 window 8
  let written ← parse (rewrite {} >>= copyRest total (total + 1)) "decoder config" padded
  let out ← written.finish
  let front ← slice out 0 length
  overwrite data front

/-- Copies up to a field, and writes a number in its place. -/
def rewriteField (width value : Nat) (writer : Writer) : Parse Writer := do
  skipBits width
  writer.put width value

/-- Sets the channel configuration of an audio specific config. -/
def rewriteAac (channels : UInt8) (writer : Writer) : Parse Writer := do
  let (objectType, writer) ← copy 5 writer
  let writer ← copyIf (objectType = CodecConfig.escapedObjectType) 6 writer
  let (frequency, writer) ← copy 4 writer
  let writer ← copyIf (frequency = CodecConfig.escapedFrequency) 24 writer
  rewriteField 4 channels.toNat writer

/-- Sets the channels of a FLAC stream info. -/
def rewriteFlac (channels : UInt8) (writer : Writer) : Parse Writer := do
  let (_, writer) ← copy 32 writer
  let (_, writer) ← copy 48 writer
  let (_, writer) ← copy 20 writer
  -- A difference that stays at zero.
  rewriteField 3 (channels.toNat - 1) writer

/-- The decoder configuration with its channel count set. -/
def decoderConfigFor (config : CodecConfig) (channels : UInt8) : Except Stop Bytes :=
  match config.codec with
  | .opus => return config.decoderConfig.set 9 channels
  | .aac => rewriteBits config.decoderConfig CodecConfig.aacWindow (rewriteAac channels)
  | .flac => rewriteBits config.decoderConfig CodecConfig.flacWindow (rewriteFlac channels)
  | .pcm _ | .unknown _ => return config.decoderConfig

/-- A writer and a cursor that together hold certain bits. -/
structure Together (target : List Bool) (cursor : Cursor) (writer : Writer) : Prop where
  cursor_sound : cursor.Sound
  writer_sound : writer.Sound
  bits_eq : writer.bits ++ cursor.unread = target

section

variable {target : List Bool} {cursor : Cursor} {writer : Writer} {count : Nat}

/-- Copying gives the number that the bits spell, and keeps the two together. -/
theorem run_copy (h : Together target cursor writer) (hcount : count ≤ cursor.unread.length)
    (hwidth : count ≤ 64) :
    ∃ next, copy count writer cursor
        = .ok ((Bits.toNat (cursor.unread.take count), next), cursor.ahead count)
      ∧ Together target (cursor.ahead count) next := by
  obtain ⟨next, hnext, hsound, hbits⟩ := Writer.put_of h.writer_sound hwidth
    (Bits.toNat (cursor.unread.take count))
  have hlength : (cursor.unread.take count).length = count := by
    rw [List.length_take]
    omega
  have hcopied := Bits.ofNat_toNat_of_length hlength
  refine ⟨next, ?_, ?_, hsound, ?_⟩
  · rw [copy, run_bind_of_ok (bits_of_le h.cursor_sound.addressable hcount hwidth),
      run_bind_of_ok (run_lift hnext)]
    rfl
  · have hunread := cursor.length_unread
    have hinside := h.cursor_sound.inside
    exact h.cursor_sound.ahead (by omega)
  · rw [hbits, hcopied, Cursor.unread_ahead, List.append_assoc, List.take_append_drop, h.bits_eq]

theorem run_copyIf (condition : Prop) [Decidable condition] (h : Together target cursor writer)
    (hcount : count ≤ cursor.unread.length) (hwidth : count ≤ 64) :
    ∃ next, copyIf condition count writer cursor
        = .ok (next, cursor.ahead (if condition then count else 0))
      ∧ Together target (cursor.ahead (if condition then count else 0)) next := by
  rw [copyIf]
  split
  · obtain ⟨next, hnext, htogether⟩ := run_copy h hcount hwidth
    refine ⟨next, ?_, htogether⟩
    rw [map_eq_pure_bind, run_bind_of_ok hnext]
    rfl
  · exact ⟨writer, rfl, h⟩

/-- In the end everything is copied. -/
theorem run_copyRest {total rounds : Nat} (h : Together target cursor writer)
    (htotal : target.length = total) (hfits : total < 2 ^ 64)
    (hrounds : total < writer.bits.length + rounds) :
    ∃ next after, copyRest total rounds writer cursor = .ok (next, after)
      ∧ next.Sound ∧ next.bits = target := by
  induction rounds generalizing cursor writer with
  | zero =>
    have hlength := congrArg List.length h.bits_eq
    rw [List.length_append] at hlength
    omega
  | succ rounds ih =>
    have hlength := congrArg List.length h.bits_eq
    rw [List.length_append] at hlength
    have hput : writer.bitLength = .ok writer.bits.length := Writer.bitLength_of (by omega)
    rw [copyRest, run_bind_of_ok (run_lift hput)]
    split
    · rename_i hlt
      -- At least one bit is copied, so a round is not lost.
      obtain ⟨middle, hcopy, htogether⟩ := run_copy h
        (by omega : min (total - writer.bits.length) 32 ≤ cursor.unread.length) (by omega)
      have hmore := congrArg List.length htogether.bits_eq
      rw [List.length_append, Cursor.unread_ahead, List.length_drop] at hmore
      obtain ⟨next, after, hnext, hsound, hbits⟩ := ih htogether (by omega)
      refine ⟨next, after, ?_, hsound, hbits⟩
      rw [sub_of (by omega), pure_bind, run_bind_of_ok hcopy]
      exact hnext
    · have hnone : cursor.unread = [] := List.length_eq_zero_iff.1 (by omega)
      have hbits := h.bits_eq
      rw [hnone, List.append_nil] at hbits
      exact ⟨writer, cursor, rfl, h.writer_sound, hbits⟩

end

/-! ### Setting a field -/

/-- The bits with a number in place of the field at `offset`. -/
def replaced (bits : List Bool) (offset width value : Nat) : List Bool :=
  bits.take offset ++ Bits.ofNat width value ++ bits.drop (offset + width)

/-- The first bytes of a byte string, with zeros for missing ones. -/
def padded (window : Nat) (data : Bytes) : Bytes :=
  data.take window ++ List.replicate (window - data.length) 0

/-- What comes of a byte string when the field at `offset` in its first bytes is set. -/
def fieldSet (data : Bytes) (window offset width value : Nat) : Bytes :=
  (Bits.toBytes (replaced (Bits.ofBytes (padded window data)) offset width value)).take
    (min window data.length) ++ data.drop window

section

variable {window offset width value : Nat}

theorem length_replaced {bits : List Bool} (h : offset + width ≤ bits.length) :
    (replaced bits offset width value).length = bits.length := by
  rw [replaced, List.length_append, List.length_append, List.length_take, List.length_drop,
    Bits.length_ofNat]
  omega

/-- Up to the field bits were copied; behind it they are still to be. -/
theorem run_rewriteField {data : Bytes} {cursor : Cursor} {writer : Writer}
    (h : Together (Bits.ofBytes data) cursor writer) (hdata : cursor.data = data)
    (hoffset : cursor.position = offset) (hend : offset + width ≤ 8 * data.length)
    (hwidth : width ≤ 64) (value : Nat) :
    ∃ next, rewriteField width value writer cursor = .ok (next, cursor.ahead width)
      ∧ Together (replaced (Bits.ofBytes data) offset width value) (cursor.ahead width) next := by
  have hlength := cursor.length_unread
  rw [hdata] at hlength
  have hunread : cursor.unread = (Bits.ofBytes data).drop offset := by
    rw [Cursor.unread, hdata, hoffset]
  have hwritten : writer.bits = (Bits.ofBytes data).take offset := by
    have hbits := h.bits_eq
    rw [hunread] at hbits
    exact List.append_cancel_right (hbits.trans (List.take_append_drop _ _).symm)
  obtain ⟨next, hnext, hsound, hbits⟩ := Writer.put_of h.writer_sound hwidth value
  refine ⟨next, ?_, h.cursor_sound.ahead (by rw [hdata]; omega), hsound, ?_⟩
  · rw [rewriteField, run_bind_of_ok (skipBits_of_le h.cursor_sound.addressable (by omega)),
      run_lift hnext]
  · rw [hbits, hwritten, Cursor.unread_ahead, hunread, List.drop_drop, replaced]

/-- A rewriting program that copies up to a field and sets it. -/
def Sets (rewrite : Writer → Parse Writer) (padded : Bytes) (offset width value : Nat) : Prop :=
  ∃ next after, rewrite {} ⟨"decoder config", padded, 0⟩ = .ok (next, after)
    ∧ Together (replaced (Bits.ofBytes padded) offset width value) after next

theorem length_padded (window : Nat) (data : Bytes) : (padded window data).length = window := by
  rw [padded, List.length_append, List.length_take, List.length_replicate]
  omega

/-- Zeros are written over with what there is. -/
theorem overwrite_zeros (window : Nat) (data : Bytes) :
    overwrite (List.replicate window 0) (data.take window) = .ok (padded window data) := by
  rw [overwrite, guarded_of (by rw [List.length_take, List.length_replicate]; omega), padded,
    List.drop_replicate, List.length_take,
    show window - min window data.length = window - data.length by omega]
  rfl

/-- The field is set, and everything else stays. -/
theorem rewriteBits_of {rewrite : Writer → Parse Writer} {data : Bytes} (hwindow : window < 2 ^ 32)
    (hsets : Sets rewrite (padded window data) offset width value)
    (hend : offset + width ≤ 8 * window) :
    rewriteBits data window rewrite = .ok (fieldSet data window offset width value) := by
  obtain ⟨written, middle, hrewrite, htogether⟩ := hsets
  have hlength := length_padded window data
  have htarget : (replaced (Bits.ofBytes (padded window data)) offset width value).length
      = window * 8 := by
    rw [length_replaced (by rwa [Bits.length_ofBytes, hlength]), Bits.length_ofBytes, hlength,
      Nat.mul_comm]
  obtain ⟨next, after, hcopied, hsound, hbits⟩ := run_copyRest htogether htarget (by omega)
    (by omega : window * 8 < written.bits.length + (window * 8 + 1))
  obtain ⟨hfinish, hout⟩ := Writer.finish_of hsound (by rw [hbits, htarget]; omega)
  rw [hbits] at hfinish hout
  have hparse : parse (rewrite {} >>= copyRest (window * 8) (window * 8 + 1)) "decoder config"
      (padded window data) = .ok next := by
    rw [parse, run_bind_of_ok hrewrite, hcopied]
    rfl
  have hfront : data.take (min data.length window) = data.take window := by
    rw [List.take_eq_take_iff]
    omega
  have hback : data.drop (min data.length window) = data.drop window := by
    rw [List.drop_eq_drop_iff]
    omega
  have hsize : ((Bits.toBytes (replaced (Bits.ofBytes (padded window data)) offset width
      value)).take (min data.length window)).length = min data.length window := by
    rw [List.length_take]
    omega
  rw [rewriteBits, slice_of (Nat.zero_le _) (Nat.min_le_left _ _), pure_bind, List.drop_zero,
    hfront, outcome_bind_of_ok (overwrite_zeros window data), mul_of (by omega), pure_bind,
    outcome_bind_of_ok hparse, outcome_bind_of_ok hfinish,
    slice_of (Nat.zero_le _) (by omega), pure_bind, List.drop_zero, overwrite,
    guarded_of (by omega), hsize, hback, fieldSet, Nat.min_comm]
  rfl

/-- Bits around a field are read as the numbers that they spell. -/
theorem replaceBits_of {data : Bytes} {total : Nat} (htotal : 8 * data.length = total)
    (hend : offset + width ≤ total) (value : Nat) :
    (Read.replaceBits offset width value total).parse "decoder config" data
      = .ok [.bits offset (Bits.toNat ((Bits.ofBytes data).take offset)), .bits width value,
          .bits (total - (offset + width))
            (Bits.toNat ((Bits.ofBytes data).drop (offset + width)))] := by
  subst htotal
  have hlength := Bits.length_ofBytes data
  obtain ⟨first, hfirst, -, hleft⟩ := (Read.spells_bits offset).ok
    (Reader.ofBytes "decoder config" data) (by
      show offset ≤ (Bits.ofBytes data).length
      omega)
  obtain ⟨second, hsecond, -, hrest⟩ := (Read.spells_skipBits width).ok first (by
    rw [hleft, List.length_drop]
    show width ≤ (Bits.ofBytes data).length - offset
    omega)
  rw [hleft, List.drop_drop] at hrest
  have hsize : second.unread.length = 8 * data.length - (offset + width) := by
    rw [hrest, List.length_drop]
    exact congrArg (· - _) hlength
  obtain ⟨third, hthird, -, -⟩ :=
    (Read.spells_bits (8 * data.length - (offset + width))).ok second (Nat.le_of_eq hsize.symm)
  rw [List.take_of_length_le (Nat.le_of_eq hsize), hrest] at hthird
  rw [Read.parse_eq_ok]
  exact ⟨third, Read.bind_eq_ok.2 ⟨_, _, hfirst, Read.bind_eq_ok.2 ⟨_, _, hsecond,
    Read.bind_eq_ok.2 ⟨_, _, hthird, rfl⟩⟩⟩⟩

theorem setBits_of {locate : Read Nat} {data : Bytes}
    (hlocate : locate.parse "decoder config" (padded window data) = .ok offset)
    (hend : offset + width ≤ 8 * window) :
    CodecConfig.setBits window locate width value data
      = .ok (fieldSet data window offset width value) := by
  have hlength := length_padded window data
  have hbits := Bits.length_ofBytes (padded window data)
  rw [hlength] at hbits
  have hfields := replaceBits_of (congrArg (8 * ·) hlength) hend value
  have hpack : Field.pack [.bits offset (Bits.toNat ((Bits.ofBytes (padded window data)).take
      offset)), .bits width value, .bits (8 * window - (offset + width))
        (Bits.toNat ((Bits.ofBytes (padded window data)).drop (offset + width)))]
      = Bits.toBytes (replaced (Bits.ofBytes (padded window data)) offset width value) := by
    have hwhole : (replaced (Bits.ofBytes (padded window data)) offset width value).length
        = 8 * window := by
      rw [length_replaced (by rwa [hbits]), hbits]
    simp only [Field.pack, List.foldl_cons, List.foldl_nil, Field.append, List.nil_append]
    rw [Bits.ofNat_toNat_of_length (by rw [List.length_take]; omega),
      Bits.ofNat_toNat_of_length (by rw [List.length_drop]; omega), ← replaced,
      Bits.pad_of_whole (by omega)]
  rw [CodecConfig.setBits, ← padded, outcome_bind_of_ok hlocate, outcome_bind_of_ok hfields,
    hpack]
  rfl

end

/-! ### Decoder configurations -/

/-- Nothing is written yet, and everything is left to read. -/
theorem together_start {data : Bytes} (hdata : data.length ≤ Obu.maxSize) :
    Together (Bits.ofBytes data) ⟨"decoder config", data, 0⟩ {} :=
  ⟨⟨hdata, Nat.zero_le _⟩, Writer.sound_of_whole [], rfl⟩

section

variable {target : List Bool} {cursor : Cursor} {writer : Writer} {reader : Reader} {count : Nat}

/-- Bits are copied as a reader finds them. -/
theorem copy_bits (h : Together target cursor writer) (hreader : reader.unread = cursor.unread)
    (hcount : count ≤ cursor.unread.length) (hwidth : count ≤ 64) :
    ∃ value next after, copy count writer cursor = .ok ((value, next), cursor.ahead count)
      ∧ Read.bits count reader = .ok (value, after)
      ∧ Together target (cursor.ahead count) next
      ∧ after.unread = (cursor.ahead count).unread := by
  obtain ⟨next, hnext, htogether⟩ := run_copy h hcount hwidth
  obtain ⟨after, hafter, -, hunread⟩ := (Read.spells_bits count).ok reader (by rwa [hreader])
  rw [hreader] at hafter hunread
  exact ⟨_, next, after, hnext, hafter, htogether, by rw [hunread, Cursor.unread_ahead]⟩

/-- So are bits that are there under a condition only, and that a reader passes over. -/
theorem copy_bits_if (condition : Prop) [Decidable condition] (h : Together target cursor writer)
    (hreader : reader.unread = cursor.unread) (hcount : count ≤ cursor.unread.length)
    (hwidth : count ≤ 64) :
    ∃ next after, copyIf condition count writer cursor
        = .ok (next, cursor.ahead (if condition then count else 0))
      ∧ Read.skipBits (if condition then count else 0) reader = .ok ((), after)
      ∧ Together target (cursor.ahead (if condition then count else 0)) next
      ∧ after.unread = (cursor.ahead (if condition then count else 0)).unread := by
  obtain ⟨next, hnext, htogether⟩ := run_copyIf condition h hcount hwidth
  obtain ⟨after, hafter, -, hunread⟩ :=
    (Read.spells_skipBits (if condition then count else 0)).ok reader (by
      rw [hreader]
      split <;> omega)
  rw [hreader, ← Cursor.unread_ahead] at hunread
  exact ⟨next, after, hnext, hafter, htogether, hunread⟩

end

/-- The channel configuration of AAC is set where it is found. -/
theorem exists_sets_aac (channels : UInt8) {data : Bytes}
    (hdata : data.length = CodecConfig.aacWindow) :
    ∃ offset, CodecConfig.aacChannelOffset.parse "decoder config" data = .ok offset
      ∧ Sets (rewriteAac channels) data offset 4 channels.toNat := by
  have hwindow : data.length = 6 := hdata
  have hstart := together_start (by rw [hwindow]; decide : data.length ≤ Obu.maxSize)
  unfold Sets
  have hposition : Cursor.position ⟨"decoder config", data, 0⟩ = 0 := rfl
  have hsame : Cursor.data ⟨"decoder config", data, 0⟩ = data := rfl
  have hreader : (Reader.ofBytes "decoder config" data).unread
      = Cursor.unread ⟨"decoder config", data, 0⟩ := rfl
  -- The cursor is one of which only this is known.
  generalize (⟨"decoder config", data, 0⟩ : Cursor) = start at *
  have hlength : start.unread.length = 48 := by
    rw [Cursor.length_unread, hsame, hwindow, hposition]
  have hleft : ∀ count, (start.ahead count).unread.length = 48 - count := by
    intro count
    rw [Cursor.unread_ahead, List.length_drop, hlength]
  -- The object type and what its escape holds, then the frequency and what its escape holds.
  obtain ⟨objectType, first, one, hfirst, hobject, hcopied, hreader⟩ :=
    copy_bits hstart hreader (by omega : 5 ≤ start.unread.length) (by decide)
  obtain ⟨second, two, hsecond, hskip, hcopied, hreader⟩ :=
    copy_bits_if (objectType = CodecConfig.escapedObjectType) hcopied hreader
      (by rw [hleft]; decide : 6 ≤ _) (by decide)
  have hsix : (if objectType = CodecConfig.escapedObjectType then 6 else 0) ≤ 6 := by
    split <;> decide
  rw [Cursor.ahead_ahead] at hcopied hreader hsecond
  obtain ⟨frequency, third, three, hthird, hfrequency, hcopied, hreader⟩ :=
    copy_bits hcopied hreader (by rw [hleft]; omega : 4 ≤ _) (by decide)
  rw [Cursor.ahead_ahead] at hcopied hreader hthird
  obtain ⟨fourth, -, hfourth, -, hcopied, -⟩ :=
    copy_bits_if (frequency = CodecConfig.escapedFrequency) hcopied hreader
      (by rw [hleft]; omega : 24 ≤ _) (by decide)
  have hrate : (if frequency = CodecConfig.escapedFrequency then 24 else 0) ≤ 24 := by
    split <;> decide
  obtain ⟨next, hnext, hset⟩ := run_rewriteField hcopied hsame rfl (by
    rw [Cursor.ahead_position, Cursor.ahead_position, hposition, hwindow]
    omega : _ + 4 ≤ _) (by decide) channels.toNat
  rw [Cursor.ahead_position, Cursor.ahead_position, hposition, Nat.zero_add] at hset
  refine ⟨_, ?_, next, _, (run_bind_of_ok hfirst).trans ((run_bind_of_ok hsecond).trans
    ((run_bind_of_ok hthird).trans ((run_bind_of_ok hfourth).trans hnext))), hset⟩
  exact Read.parse_eq_ok.2 ⟨three, Read.bind_eq_ok.2 ⟨_, _, hobject, Read.bind_eq_ok.2
    ⟨_, _, hskip, Read.bind_eq_ok.2 ⟨_, _, hfrequency, rfl⟩⟩⟩⟩

/-- The channels of a FLAC stream info are set at their place. -/
theorem sets_flac (channels : UInt8) {data : Bytes}
    (hdata : data.length = CodecConfig.flacWindow) :
    Sets (rewriteFlac channels) data CodecConfig.flacChannelOffset 3 (channels.toNat - 1) := by
  have hwindow : data.length = 13 := hdata
  have hstart := together_start (by rw [hwindow]; decide : data.length ≤ Obu.maxSize)
  unfold Sets
  have hposition : Cursor.position ⟨"decoder config", data, 0⟩ = 0 := rfl
  have hsame : Cursor.data ⟨"decoder config", data, 0⟩ = data := rfl
  generalize (⟨"decoder config", data, 0⟩ : Cursor) = start at *
  have hlength : start.unread.length = 104 := by
    rw [Cursor.length_unread, hsame, hwindow, hposition]
  obtain ⟨first, hfirst, hcopied⟩ :=
    run_copy hstart (by omega : 32 ≤ start.unread.length) (by decide)
  obtain ⟨second, hsecond, hcopied⟩ :=
    run_copy hcopied (by simp only [Cursor.unread_ahead, List.length_drop]; omega : 48 ≤ _)
      (by decide)
  obtain ⟨third, hthird, hcopied⟩ :=
    run_copy hcopied (by simp only [Cursor.unread_ahead, List.length_drop]; omega : 20 ≤ _)
      (by decide)
  obtain ⟨next, hnext, hset⟩ := run_rewriteField hcopied hsame
    (by simp only [Cursor.ahead_position, hposition]; rfl : _ = CodecConfig.flacChannelOffset)
    (by rw [hwindow]; decide : _ + 3 ≤ _) (by decide) (channels.toNat - 1)
  exact ⟨next, _, (run_bind_of_ok hfirst).trans ((run_bind_of_ok hsecond).trans
    ((run_bind_of_ok hthird).trans hnext)), hset⟩

theorem decoderConfigFor_eq (config : CodecConfig) (channels : UInt8) :
    decoderConfigFor config channels = raise (config.decoderConfigFor channels) := by
  rw [decoderConfigFor, CodecConfig.decoderConfigFor]
  cases config.codec with
  | opus => rfl
  | aac =>
    have hlength := length_padded CodecConfig.aacWindow config.decoderConfig
    obtain ⟨offset, hlocate, hsets⟩ := exists_sets_aac channels hlength
    obtain ⟨_, hoffset, hend⟩ := CodecConfig.exists_aacChannelOffset _ hlength
    obtain rfl := Except.ok.inj (hlocate.symm.trans hoffset)
    simp only [rewriteBits_of (by decide) hsets hend, setBits_of hlocate hend]
    rfl
  | flac =>
    have hlength := length_padded CodecConfig.flacWindow config.decoderConfig
    have hend : CodecConfig.flacChannelOffset + 3 ≤ 8 * CodecConfig.flacWindow := by decide
    have hlocate : (pure CodecConfig.flacChannelOffset : Read Nat).parse "decoder config"
        (padded CodecConfig.flacWindow config.decoderConfig) = .ok CodecConfig.flacChannelOffset :=
      rfl
    simp only [rewriteBits_of (by decide) (sets_flac channels hlength) hend,
      setBits_of hlocate hend]
    rfl
  | pcm format => rfl
  | unknown fourCC => rfl

/-! ### Substreams -/

/-- Gives each substream the part that `stereo` has for it. -/
def assignEach (element : UInt32) (config : CodecConfig) :
    (stereo : List Bool) → List Substream → Except Stop (List Substream)
  | [], substreams => return substreams
  | _ :: _, [] => fail (.invalidModel (.tooFewSubstreams element))
  | first :: stereo, substream :: substreams => do
    let decoderConfig ← decoderConfigFor config (if first then 2 else 1)
    let assigned := { substream with
      channelLayout := if first then .stereo else .mono
      decoderConfig }
    let others ← assignEach element config stereo substreams
    return assigned :: others

/-- The element with its substreams shared out to its layers. -/
def assignSubstreams (element : AudioElement) (config : CodecConfig) :
    Except Stop AudioElement := do
  let stereo := element.layers.flatMap Layer.stereoFlags
  let substreams ← assignEach element.id config stereo element.substreams
  return { element with substreams }

theorem assignEach_eq (element : UInt32) (config : CodecConfig) (stereo : List Bool)
    (substreams : List Substream) :
    assignEach element config stereo substreams
      = raise (AudioElement.assignEach element config stereo substreams) := by
  induction stereo generalizing substreams with
  | nil => rfl
  | cons first stereo ih =>
    cases substreams with
    | nil => rfl
    | cons substream substreams =>
      rw [assignEach, AudioElement.assignEach, Substream.assign, decoderConfigFor_eq]
      simp only [ih, raise_bind, bind_assoc]
      rfl

theorem assignSubstreams_eq (element : AudioElement) (config : CodecConfig) :
    assignSubstreams element config = raise (element.assignSubstreams config) := by
  rw [assignSubstreams, AudioElement.assignSubstreams, raise_bind, assignEach_eq]
  rfl

end Iamf.Checked
