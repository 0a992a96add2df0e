import Iamf.Bits.Field
import Iamf.Proofs.Bits.Places
import Iamf.Proofs.Wire.Numbers
import Iamf.Proofs.Wire.Spending

/-!
# `Iamf.Proofs.Bits.Items`: what is packed comes back

An `Item` is one thing that a record is made of, with the way it is written and the
reading program that goes with it. Bits follow one another without gaps, and a byte string
moves on to the next byte boundary on both sides. A number does so only where it is
written, so it has to start at a boundary to be found again (`Item.ReadableAt`).

Most items are some bits of a number and are read as the word that they spell
(`Item.IsWord`). What was written in front of an item and what is still to be read are
together always the same bits: that is the invariant which goes from item to item.

* `Item.read_step`: one item is read back wherever it was written.
* `Item.mapM_read`: so are items in a row, and the bits behind them are left.
* `Item.exists_mapM_read_pack`: packed items come back, and only padding is left.
-/

set_option autoImplicit false

namespace Iamf

open Read (Spells)

/-! ### Items -/

/-- One thing that a record is made of. -/
inductive Item where
  /-- The low `width` bits of a word. -/
  | bits (width : Nat) (value : UInt64)
  /-- A bit of its own. -/
  | flag (value : Bool)
  /-- A byte, at any bit. -/
  | byte (value : UInt8)
  /-- A 16 bit word. -/
  | uint16 (value : UInt16)
  /-- A two's complement 16 bit word. -/
  | int16 (value : Int16)
  /-- The low 24 bits of a word. -/
  | uint24 (value : UInt32)
  /-- A 32 bit word. -/
  | uint32 (value : UInt32)
  /-- A variable length number. -/
  | leb128 (value : UInt32)
  /-- A byte string. -/
  | bytes (value : Bytes)
  deriving DecidableEq, Repr

namespace Item

/-- How an item is written. -/
def field : Item → Field
  | bits width value => .bits width value.toNat
  | flag value => .bits 1 value.toNat
  | byte value => .byte value
  | uint16 value => .uint16 value
  | int16 value => .int16 value
  | uint24 value => .uint24 value
  | uint32 value => .uint32 value
  | leb128 value => .leb128 value
  | bytes value => .bytes value

/-- The bytes of items in a row. -/
def pack (items : List Item) : Bytes :=
  Field.pack (items.map field)

/-- Reads an item of the same kind. -/
def read : Item → Read Item
  | bits width _ => (fun number => bits width (UInt64.ofNat number)) <$> Read.bits width
  | flag _ => flag <$> Read.bit
  | byte _ => byte <$> Read.byte
  | uint16 _ => uint16 <$> Read.uint16
  | int16 _ => int16 <$> Read.int16
  | uint24 _ => uint24 <$> Read.uint24
  | uint32 _ => uint32 <$> Read.uint32
  | leb128 _ => leb128 <$> Leb128.read
  | bytes value => bytes <$> Read.bytes value.length

/-- What an item is as far as its bits go. -/
def low : Item → Item
  | bits width value => bits width (UInt64.ofNat (value.toNat % 2 ^ width))
  | uint24 value => uint24 (UInt32.ofNat (value.toNat % 2 ^ 24))
  | item => item

/-- No more bits than a word has. -/
def Narrow : Item → Prop
  | bits width _ => width ≤ 64
  | _ => True

instance : (item : Item) → Decidable item.Narrow
  | bits width _ => inferInstanceAs (Decidable (width ≤ 64))
  | flag _ | byte _ | uint16 _ | int16 _ | uint24 _ | uint32 _ | leb128 _ | bytes _ =>
    inferInstanceAs (Decidable True)

/-- Only a word that is given its width can be wider than there are bits. -/
theorem Narrow.width_le {item : Item} (h : item.Narrow) {width value : Nat}
    (hfield : item.field = .bits width value) : width ≤ 64 := by
  cases item with
  | bits width value =>
    cases hfield
    exact h
  | leb128 value => cases hfield
  | bytes value => cases hfield
  | _ =>
    cases hfield
    decide

/-- The item is read where it is written when so many bits stand in front of it. -/
def ReadableAt (position : Nat) : Item → Prop
  | leb128 _ => position % 8 = 0
  | _ => True

instance (position : Nat) : (item : Item) → Decidable (item.ReadableAt position)
  | leb128 _ => inferInstanceAs (Decidable (position % 8 = 0))
  | bits _ _ | flag _ | byte _ | uint16 _ | int16 _ | uint24 _ | uint32 _ | bytes _ =>
    inferInstanceAs (Decidable True)

/-- Items that can be written one after the other, behind some bits, and read back. -/
def Packable : (written : List Bool) → List Item → Prop
  | _, [] => True
  | written, item :: items =>
    item.Narrow ∧ item.ReadableAt written.length ∧ Packable (Field.append written item.field) items

instance instDecidablePackable :
    (written : List Bool) → (items : List Item) → Decidable (Packable written items)
  | _, [] => inferInstanceAs (Decidable True)
  | written, item :: items =>
    have := instDecidablePackable (Field.append written item.field) items
    inferInstanceAs (Decidable (_ ∧ _ ∧ _))

theorem Packable.narrow {written : List Bool} {items : List Item} (h : Packable written items) :
    ∀ item ∈ items, item.Narrow := by
  induction items generalizing written with
  | nil => exact fun _ hmem => absurd hmem List.not_mem_nil
  | cons item items ih => exact List.forall_mem_cons.2 ⟨h.1, ih h.2.2⟩

end Item

/-! ### Bits in front of bits -/

/-- What was written stays in front of what is written next. -/
theorem Field.exists_append (written : List Bool) (field : Field) :
    ∃ more, Field.append written field = written ++ more := by
  cases field with
  | bits width value => exact ⟨_, rfl⟩
  | leb128 value => exact ⟨_, List.append_assoc _ _ _⟩
  | bytes value => exact ⟨_, List.append_assoc _ _ _⟩

theorem Field.exists_foldl_append (fields : List Field) (written : List Bool) :
    ∃ more, fields.foldl Field.append written = written ++ more := by
  induction fields generalizing written with
  | nil => exact ⟨[], (List.append_nil written).symm⟩
  | cons field fields ih =>
    obtain ⟨first, hfirst⟩ := Field.exists_append written field
    obtain ⟨others, hothers⟩ := ih (Field.append written field)
    exact ⟨first ++ others, by rw [List.foldl_cons, hothers, hfirst, List.append_assoc]⟩

/-- A byte string that starts with the bits of another one starts with that one. -/
theorem Bits.exists_of_ofBytes_eq {bytes front : Bytes} {more : List Bool}
    (h : ofBytes bytes = ofBytes front ++ more) :
    ∃ rest, bytes = front ++ rest ∧ ofBytes rest = more := by
  have hlength := length_ofBytes front
  have hmore : ofBytes (bytes.drop front.length) = more := by
    rw [← drop_ofBytes, h, List.drop_left' hlength]
  have hfront : bytes.take front.length = front := by
    have hbits := ofBytes_append (bytes.take front.length) (bytes.drop front.length)
    rw [List.take_append_drop, h, hmore] at hbits
    rw [← toBytes_ofBytes (bytes.take front.length), ← List.append_cancel_right hbits,
      toBytes_ofBytes]
  refine ⟨bytes.drop front.length, ?_, hmore⟩
  exact (List.take_append_drop front.length bytes).symm.trans
    (congrArg (· ++ bytes.drop front.length) hfront)

/-! ### Words -/

namespace Item

/-- An item that is some bits of a number, and is read as the word that they spell. -/
structure IsWord (item : Item) (width number : Nat) (value : Nat → Item) : Prop where
  field_eq : item.field = .bits width number
  spells : Spells width item.read value
  within : ∀ ⦃reader after : Reader⦄ ⦃result : Item⦄, reader.Within →
    item.read reader = .ok (result, after) → after.Within
  low_eq : value (number % 2 ^ width) = item.low

theorem within_of_map {α : Type} {f : α → Item} {program : Read α} {reader after : Reader}
    {result : Item}
    (hprogram : ∀ value, program reader = .ok (value, after) → after.Within)
    (h : (f <$> program) reader = .ok (result, after)) : after.Within := by
  obtain ⟨value, _, hvalue, ⟨⟩⟩ := Read.map_eq_ok.1 h
  exact hprogram value hvalue

theorem isWord_bits (width : Nat) (value : UInt64) :
    IsWord (bits width value) width value.toNat
      fun number => bits width (UInt64.ofNat number) where
  field_eq := rfl
  spells := (Read.spells_bits width).map _
  within := fun _ _ _ hreader => within_of_map fun _ => Read.within_of_bits hreader
  low_eq := rfl

theorem isWord_flag (value : Bool) :
    IsWord (flag value) 1 value.toNat fun number => flag (decide (number = 1)) where
  field_eq := rfl
  spells := Read.spells_bit.map _
  within := fun _ _ _ hreader => within_of_map fun _ hread => Read.within_of_bit hreader hread
  low_eq := by cases value <;> rfl

theorem isWord_byte (value : UInt8) :
    IsWord (byte value) 8 value.toNat fun number => byte (UInt8.ofNat number) where
  field_eq := rfl
  spells := Read.spells_byte.map _
  within := fun _ _ _ hreader => within_of_map fun _ => Read.spends_byte.within hreader
  low_eq := by
    rw [Nat.mod_eq_of_lt value.toNat_lt, UInt8.ofNat_toNat]
    rfl

theorem isWord_uint16 (value : UInt16) :
    IsWord (uint16 value) 16 value.toNat fun number => uint16 (UInt16.ofNat number) where
  field_eq := rfl
  spells := Read.spells_uint16.map _
  within := fun _ _ _ hreader => within_of_map fun _ => Read.spends_uint16.within hreader
  low_eq := by
    rw [Nat.mod_eq_of_lt value.toNat_lt, UInt16.ofNat_toNat]
    rfl

theorem isWord_int16 (value : Int16) :
    IsWord (int16 value) 16 value.toUInt16.toNat
      fun number => int16 (UInt16.ofNat number).toInt16 where
  field_eq := rfl
  spells := (Read.spells_uint16.map UInt16.toInt16).map _
  within := fun _ _ _ hreader => within_of_map fun _ => Read.spends_int16.within hreader
  low_eq := by
    rw [Nat.mod_eq_of_lt value.toUInt16.toNat_lt, UInt16.ofNat_toNat, Int16.toInt16_toUInt16]
    rfl

theorem isWord_uint24 (value : UInt32) :
    IsWord (uint24 value) 24 value.toNat fun number => uint24 (UInt32.ofNat number) where
  field_eq := rfl
  spells := Read.spells_uint24.map _
  within := fun _ _ _ hreader => within_of_map fun _ => Read.spends_uint24.within hreader
  low_eq := rfl

theorem isWord_uint32 (value : UInt32) :
    IsWord (uint32 value) 32 value.toNat fun number => uint32 (UInt32.ofNat number) where
  field_eq := rfl
  spells := Read.spells_uint32.map _
  within := fun _ _ _ hreader => within_of_map fun _ => Read.spends_uint32.within hreader
  low_eq := by
    rw [Nat.mod_eq_of_lt value.toNat_lt, UInt32.ofNat_toNat]
    rfl

/-- What is not a word is a number or a byte string. -/
theorem isWord_or (item : Item) :
    (∃ width number value, item.IsWord width number value)
      ∨ (∃ value, item = leb128 value) ∨ ∃ value, item = bytes value := by
  cases item with
  | bits width value => exact .inl ⟨_, _, _, isWord_bits width value⟩
  | flag value => exact .inl ⟨_, _, _, isWord_flag value⟩
  | byte value => exact .inl ⟨_, _, _, isWord_byte value⟩
  | uint16 value => exact .inl ⟨_, _, _, isWord_uint16 value⟩
  | int16 value => exact .inl ⟨_, _, _, isWord_int16 value⟩
  | uint24 value => exact .inl ⟨_, _, _, isWord_uint24 value⟩
  | uint32 value => exact .inl ⟨_, _, _, isWord_uint32 value⟩
  | leb128 value => exact .inr (.inl ⟨value, rfl⟩)
  | bytes value => exact .inr (.inr ⟨value, rfl⟩)

/-! ### Reading back -/

section

variable {item : Item} {written body more : List Bool} {reader : Reader}

/-- A word is read back where its bits are next. -/
theorem IsWord.read_step {width number : Nat} {value : Nat → Item}
    (h : item.IsWord width number value) (hwithin : reader.Within)
    (hunread : reader.unread = Bits.ofNat width number ++ more) :
    ∃ after, item.read reader = .ok (item.low, after) ∧ after.Within ∧ after.unread = more := by
  have hwidth : (Bits.ofNat width number).length = width := Bits.length_ofNat width number
  have hcount : width ≤ reader.unread.length := by
    rw [hunread, List.length_append, hwidth]
    exact Nat.le_add_right _ _
  obtain ⟨after, hafter, -, hleft⟩ := h.spells.ok reader hcount
  rw [hunread, List.take_left' hwidth, Bits.toNat_ofNat, h.low_eq] at hafter
  refine ⟨after, hafter, h.within hwithin hafter, ?_⟩
  rw [hleft, hunread, List.drop_left' hwidth]

/-- Where whole bytes were and will be written, what is left of the byte that was begun is
the padding in front of the next one. -/
theorem rest_of_pad (hwithin : reader.Within) (hwhole : (written ++ reader.unread).length % 8 = 0)
    (h : written ++ reader.unread = Bits.pad written ++ body) :
    Bits.ofBytes reader.rest = body := by
  have hrest := Bits.length_ofBytes reader.rest
  rw [Reader.Within] at hwithin
  rw [List.length_append, Reader.unread, List.length_append] at hwhole
  rw [Bits.pad, List.append_assoc, Reader.unread] at h
  refine (List.append_inj (List.append_cancel_left h) ?_).2
  rw [List.length_replicate]
  omega

/-- At a byte boundary no byte is begun. -/
theorem pending_of_boundary (hwithin : reader.Within)
    (hwhole : (written ++ reader.unread).length % 8 = 0) (h : written.length % 8 = 0) :
    reader.pending = [] := by
  have hrest := Bits.length_ofBytes reader.rest
  rw [Reader.Within] at hwithin
  rw [List.length_append, Reader.unread, List.length_append] at hwhole
  exact List.length_eq_zero_iff.1 (by omega)

/-- Behind padding, whole bytes that were written are taken off the front. -/
theorem exists_rest (hwithin : reader.Within) (hwhole : (written ++ reader.unread).length % 8 = 0)
    {value : Bytes}
    (h : written ++ reader.unread = Bits.pad written ++ Bits.ofBytes value ++ more) :
    ∃ rest, reader = ⟨reader.subject, reader.pending, value ++ rest⟩
      ∧ Bits.ofBytes rest = more := by
  rw [List.append_assoc] at h
  obtain ⟨rest, hbytes, hmore⟩ := Bits.exists_of_ofBytes_eq (rest_of_pad hwithin hwhole h)
  exact ⟨rest, by rw [← hbytes], hmore⟩

/-- An item is read back from behind what was written in front of it, and what comes
behind it is left. -/
theorem read_step (hreadable : item.ReadableAt written.length) (hwithin : reader.Within)
    (hwhole : (written ++ reader.unread).length % 8 = 0)
    (h : written ++ reader.unread = Field.append written item.field ++ more) :
    ∃ after, item.read reader = .ok (item.low, after) ∧ after.Within ∧ after.unread = more := by
  rcases item.isWord_or with ⟨width, number, value, hword⟩ | ⟨value, rfl⟩ | ⟨value, rfl⟩
  · rw [hword.field_eq, Field.append, List.append_assoc] at h
    exact hword.read_step hwithin (List.append_cancel_left h)
  · obtain ⟨rest, hreader, hmore⟩ := exists_rest hwithin hwhole h
    rw [hreader, pending_of_boundary hwithin hwhole hreadable]
    have hread := Leb128.consumes_encode value reader.subject rest trivial
    exact ⟨_, Read.map_eq_ok.2 ⟨_, _, hread, rfl⟩, Reader.within_ofBytes _ _, hmore⟩
  · obtain ⟨rest, hreader, hmore⟩ := exists_rest hwithin hwhole h
    rw [hreader]
    -- Reading whole bytes drops the padding.
    have hread : Read.bytes value.length ⟨reader.subject, reader.pending, value ++ rest⟩
        = .ok (value, ⟨reader.subject, [], rest⟩) := Read.bytes_append reader.subject rest rfl
    exact ⟨_, Read.map_eq_ok.2 ⟨_, _, hread, rfl⟩, Reader.within_ofBytes _ _, hmore⟩

/-- Items in a row are read back, and what comes behind them is left. -/
theorem mapM_read {items : List Item} (hpackable : Packable written items)
    (hwithin : reader.Within) (hwhole : (written ++ reader.unread).length % 8 = 0)
    (h : written ++ reader.unread = (items.map field).foldl Field.append written ++ more) :
    ∃ after, items.mapM read reader = .ok (items.map low, after)
      ∧ after.Within ∧ after.unread = more := by
  induction items generalizing written reader with
  | nil =>
    refine ⟨reader, ?_, hwithin, List.append_cancel_left h⟩
    rw [List.mapM_nil]
    rfl
  | cons item items ih =>
    obtain ⟨-, hreadable, hothers⟩ := hpackable
    rw [List.map_cons, List.foldl_cons] at h
    obtain ⟨between, hbetween⟩ :=
      Field.exists_foldl_append (items.map field) (Field.append written item.field)
    have hnext := h
    rw [hbetween, List.append_assoc] at hnext
    obtain ⟨middle, hmiddle, hwithin, hunread⟩ := read_step hreadable hwithin hwhole hnext
    -- The bits of both sides are the same before and after the step.
    have hsame : Field.append written item.field ++ middle.unread = written ++ reader.unread := by
      rw [hunread, hnext]
    obtain ⟨after, hafter, hlast⟩ :=
      ih hothers hwithin (by rw [hsame]; exact hwhole) (hsame.trans h)
    refine ⟨after, ?_, hlast⟩
    rw [List.mapM_cons, Read.bind_eq_ok]
    exact ⟨_, _, hmiddle, Read.bind_eq_ok.2 ⟨_, _, hafter, rfl⟩⟩

end

/-- Packed items come back as far as their bits go. Only padding is left, less than a
byte of it. -/
theorem exists_mapM_read_pack {items : List Item} (h : Packable [] items) (subject : String) :
    ∃ last, items.mapM read (Reader.ofBytes subject (pack items)) = .ok (items.map low, last)
      ∧ last.unread.length < 8 ∧ (∀ bit ∈ last.unread, bit = false) ∧ last.bytesLeft = 0 := by
  have hwhole := Bits.length_pad_mod ((items.map field).foldl Field.append [])
  -- The bytes have just the bits that were written, filled up.
  have hunread : (Reader.ofBytes subject (pack items)).unread
      = Bits.pad ((items.map field).foldl Field.append []) :=
    Bits.ofBytes_toBytes (Nat.mul_div_cancel' (Nat.dvd_of_mod_eq_zero hwhole)).symm
  obtain ⟨last, hlast, hwithin, hleft⟩ := mapM_read h (Reader.within_ofBytes subject _)
    (by rw [List.nil_append, hunread]; exact hwhole) (by rw [List.nil_append, hunread]; rfl)
  have hshort : last.unread.length < 8 := by
    rw [hleft, List.length_replicate]
    exact Nat.mod_lt _ (by decide)
  refine ⟨last, hlast, hshort, ?_, ?_⟩
  · rw [hleft]
    exact fun bit hbit => List.eq_of_mem_replicate hbit
  · rw [Reader.unread, List.length_append, Bits.length_ofBytes] at hshort
    rw [Reader.bytesLeft]
    omega

end Item

end Iamf
