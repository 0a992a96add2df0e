import Iamf.Proofs.Bits.Items
import Iamf.Proofs.Checked.Bounds
import Iamf.Proofs.Checked.Rewriting

/-!
# `Iamf.Proofs.Checked.Items`: packing and reading with a machine

A machine packs items bit by bit into a byte that is begun, and reads them back by a
position. Both come to what `Item.pack` and `Item.read` do, and the position is never
beyond the end, whatever is read or passed over, and however often this fails.

A cursor determines the reader with the same bits left (`Cursor.reader`). `Tracks` is
that relation, and every access leads from a cursor and its reader to another such pair.

* `Writer.putItems_of`: what is put item by item is what is packed.
* `Access.keepsTrack_run`: an access gives what the reader gives, without a fault.
* `Access.keepsIn_run`: it does not lead beyond the end, nor does it stop there.
* `packed_items_come_back`: items that are put come back, and no access goes astray.
-/

set_option autoImplicit false

namespace Iamf.Checked

/-! ### Packing -/

namespace Writer

/-- Fills the byte that was begun up with zeros. -/
def align (writer : Writer) : Except Stop Writer :=
  if 0 < writer.used then do
    let left ← sub 8 writer.used
    writer.put left 0
  else return writer

/-- Puts whole bytes, from the next byte boundary on. -/
def putBytes (bytes : Bytes) (writer : Writer) : Except Stop Writer := do
  let aligned ← writer.align
  return { aligned with whole := aligned.whole ++ bytes }

/-- Puts a field. -/
def putField : Field → Writer → Except Stop Writer
  | .bits width value, writer => writer.put width value
  | .leb128 value, writer => writer.putBytes (Leb128.encode value)
  | .bytes value, writer => writer.putBytes value

/-- Puts items one after the other. -/
def putItems (items : List Item) (writer : Writer) : Except Stop Writer :=
  items.foldlM (fun writer item => writer.putField item.field) writer

variable {writer : Writer}

theorem align_of (h : writer.Sound) :
    ∃ next, writer.align = .ok next ∧ next.Sound ∧ next.used = 0
      ∧ next.bits = Bits.pad writer.bits := by
  have hused := h.used_lt
  have hlength := writer.length_bits
  rw [align]
  split
  · rename_i hbegun
    -- As many zeros as the byte has room for are what padding is.
    obtain ⟨next, hnext, hsound, hbits⟩ :=
      put_of h (by omega : 8 - writer.used ≤ 64) 0
    have hnextLength := next.length_bits
    have hnextUsed := hsound.used_lt
    rw [hbits, List.length_append, Bits.length_ofNat] at hnextLength
    refine ⟨next, ?_, hsound, by omega, ?_⟩
    · rw [sub_of (by omega), pure_bind, hnext]
    · rw [hbits, Bits.ofNat_zero, Bits.pad,
        show (8 - writer.bits.length % 8) % 8 = 8 - writer.used by omega]
  · exact ⟨writer, rfl, h, by omega, (Bits.pad_of_whole (by omega)).symm⟩

theorem putBytes_of (h : writer.Sound) (bytes : Bytes) :
    ∃ next, writer.putBytes bytes = .ok next ∧ next.Sound
      ∧ next.bits = Bits.pad writer.bits ++ Bits.ofBytes bytes := by
  obtain ⟨next, hnext, hsound, hused, hbits⟩ := align_of h
  refine ⟨{ next with whole := next.whole ++ bytes }, ?_, ⟨hsound.used_lt, hsound.begun_lt⟩, ?_⟩
  · rw [putBytes, outcome_bind_of_ok hnext]
    rfl
  · rw [← hbits, bits, bits, hused, Bits.ofNat, List.append_nil, List.append_nil,
      Bits.ofBytes_append]

theorem putField_of (h : writer.Sound) {field : Field}
    (hnarrow : ∀ width value, field = .bits width value → width ≤ 64) :
    ∃ next, writer.putField field = .ok next ∧ next.Sound
      ∧ next.bits = Field.append writer.bits field := by
  cases field with
  | bits width value => exact put_of h (hnarrow width value rfl) value
  | leb128 value => exact putBytes_of h (Leb128.encode value)
  | bytes value => exact putBytes_of h value

/-- Items are put behind the bits that the writer holds. -/
theorem putItems_of {items : List Item} (h : writer.Sound)
    (hnarrow : ∀ item ∈ items, item.Narrow) :
    ∃ next, putItems items writer = .ok next ∧ next.Sound
      ∧ next.bits = (items.map Item.field).foldl Field.append writer.bits := by
  induction items generalizing writer with
  | nil => exact ⟨writer, rfl, h, rfl⟩
  | cons item items ih =>
    -- The writer may be in the middle of a byte, so the claim is for every writer.
    obtain ⟨hfirst, hothers⟩ := List.forall_mem_cons.1 hnarrow
    obtain ⟨middle, hmiddle, hsound, hbits⟩ := putField_of h fun _ _ => hfirst.width_le
    obtain ⟨next, hnext, hlast, hall⟩ := ih hsound hothers
    refine ⟨next, ?_, hlast, by rw [hall, hbits, List.map_cons, List.foldl_cons]⟩
    rw [putItems, List.foldlM_cons, outcome_bind_of_ok hmiddle]
    exact hnext

/-- In the end the last byte is filled up. -/
theorem finish_eq_pad (h : writer.Sound) :
    writer.finish = .ok (Bits.toBytes (Bits.pad writer.bits)) := by
  obtain ⟨next, hnext, -, hused, hbits⟩ := align_of h
  -- Behind padding there is no byte begun, so the whole bytes are all that there is.
  have hfinish : writer.finish = (·.whole) <$> writer.align := by
    rw [finish, align]
    split
    · rw [map_bind]
      rfl
    · rfl
  rw [hfinish, hnext, ← hbits, bits, hused, Bits.ofNat, List.append_nil, Bits.toBytes_ofBytes]
  rfl

end Writer

/-! ### A cursor and its reader -/

/-- The reader with the bits left that the cursor has. -/
def Cursor.reader (cursor : Cursor) : Reader where
  subject := cursor.subject
  pending := cursor.unread.take (cursor.unread.length % 8)
  rest := cursor.data.drop ((cursor.position + 7) / 8)

section

variable {α β : Type} {cursor : Cursor} {reader : Reader} {count : Nat}

theorem Cursor.within_reader (cursor : Cursor) : cursor.reader.Within := by
  have hlt := Nat.mod_lt cursor.unread.length (by decide : 0 < 8)
  rw [Reader.Within, reader, List.length_take]
  omega

theorem Cursor.unread_reader (h : cursor.Addressable) : cursor.reader.unread = cursor.unread := by
  have hinside := h.inside
  have hlength := cursor.length_unread
  -- The bits of the byte that was begun reach to the next byte boundary.
  rw [Reader.unread, reader, ← Bits.drop_ofBytes,
    show 8 * ((cursor.position + 7) / 8) = cursor.position + cursor.unread.length % 8 by omega,
    ← List.drop_drop, ← unread, List.take_append_drop]

/-- The reader is the one of the cursor, which is in a byte string of any size that a word
can count. -/
structure Tracks (cursor : Cursor) (reader : Reader) : Prop where
  addressable : cursor.Addressable
  reader_eq : reader = cursor.reader

/-- From a cursor and its reader on, the checked program does what the reader does. -/
abbrev KeepsTrack (fast : Parse α) (slow : Read α) : Prop :=
  RefinesFrom Tracks (fun _ => Tracks) fast slow

theorem Tracks.faces (h : Tracks cursor reader) : Faces cursor reader where
  addressable := h.addressable
  subject := h.reader_eq ▸ rfl
  unread := h.reader_eq ▸ Cursor.unread_reader h.addressable

theorem Tracks.within (h : Tracks cursor reader) : reader.Within :=
  h.reader_eq ▸ cursor.within_reader

theorem Faces.tracks (h : Faces cursor reader) (hwithin : reader.Within) :
    Tracks cursor reader where
  addressable := h.addressable
  reader_eq := Reader.eq_of_unread hwithin cursor.within_reader h.subject
    (h.unread.trans (Cursor.unread_reader h.addressable).symm)

/-- At a byte boundary the reader has nothing begun. -/
theorem tracks_of_boundary {offset : Nat} (h : cursor.Addressable)
    (hoffset : cursor.position = 8 * offset) :
    Tracks cursor ⟨cursor.subject, [], cursor.data.drop offset⟩ := by
  have hinside := h.inside
  have hlength := cursor.length_unread
  refine ⟨h, ?_⟩
  rw [Cursor.reader, show cursor.unread.length % 8 = 0 by omega, List.take_zero,
    show (cursor.position + 7) / 8 = offset by omega]

/-- The bytes that are left are counted as the reader counts them. -/
theorem run_bytesLeft_reader (h : cursor.Addressable) :
    bytesLeft cursor = .ok (cursor.reader.bytesLeft, cursor) := by
  have hcounted := h.counted
  have hinside := h.inside
  have hstart : bytePosition cursor = .ok ((cursor.position + 7) / 8, cursor) := by
    rw [bytePosition, run_get_bind, add_of (by omega), pure_bind, Nat.min_eq_left (by omega)]
    rfl
  rw [bytesLeft, run_bind_of_ok hstart, run_get_bind, sub_of (by omega), Reader.bytesLeft,
    Cursor.reader, List.length_drop]
  rfl

/-- A word, wherever in a byte it starts. -/
theorem keepsTrack_word {slow : Read α} {value : Nat → α} (hslow : Read.Spells count slow value)
    (hwithin : ∀ ⦃reader after : Reader⦄ ⦃result : α⦄, reader.Within →
      slow reader = .ok (result, after) → after.Within)
    (hwidth : count ≤ 64) : KeepsTrack (value <$> bits count) slow := by
  intro cursor reader h
  rcases run_word hslow hwidth h.faces with
    ⟨word, next, -, hfast, hread, hfaces⟩ | ⟨error, hfast, hread⟩
  · rw [hfast, hread]
    exact .ok (hfaces.tracks (hwithin h.within hread))
  · rw [hfast, hread]
    exact .error error

theorem keepsTrack_uint8 : KeepsTrack uint8 Read.byte :=
  keepsTrack_word Read.spells_byte Read.spends_byte.within (by decide)

theorem keepsTrack_uint16 : KeepsTrack uint16 Read.uint16 :=
  keepsTrack_word Read.spells_uint16 Read.spends_uint16.within (by decide)

/-- Moving on to a byte boundary drops what was begun. -/
theorem tracks_aligned (h : cursor.Addressable) :
    Tracks cursor.aligned { cursor.reader with pending := [] } :=
  tracks_of_boundary h.aligned (Nat.mul_comm _ _)

theorem keepsTrack_align : KeepsTrack align Read.align := by
  rintro cursor _ ⟨haddressable, rfl⟩
  rw [run_align haddressable]
  exact .ok (tracks_aligned haddressable)

theorem keepsTrack_skipBits (count : Nat) : KeepsTrack (skipBits count) (Read.skipBits count) := by
  intro cursor reader h
  rcases run_skipBits count h.faces with ⟨next, hfast, hread, hfaces⟩ | ⟨error, hfast, hread⟩
  · rw [hfast, hread]
    exact .ok (hfaces.tracks (Read.within_of_skipBits h.within hread))
  · rw [hfast, hread]
    exact .error error

/-! ### Items -/

/-- A program behind a step to the next byte boundary, which is not undone where the
program stops. -/
def fromBoundary (program : Parse α) : Run Cursor α := do
  attempt align
  attempt program

/-- `numberFrom`, from byte to byte. The bytes in front of the one where it stops have
been read. -/
def numberBy : (left index value : Nat) → Run Cursor (UInt32 × Nat)
  | 0, _, _ => fail .leb128TooLong
  | left + 1, index, value => do
    let byte ← attempt uint8
    let group := byte.toNat &&& 0x7F
    let value ← attempt (numberFrom.joinGroup index value group)
    if byte.toNat &&& 0x80 = 0 then
      let size ← add 64 index 1
      return (UInt32.ofNat value, size)
    else numberBy left (index + 1) value

/-- Reads an item of the same kind. -/
def runItem : Item → Run Cursor Item
  | .bits width _ => (fun number => .bits width (UInt64.ofNat number)) <$> attempt (bits width)
  | .flag _ => .flag <$> attempt flag
  | .byte _ => .byte <$> attempt uint8
  | .uint16 _ => .uint16 <$> attempt uint16
  | .int16 _ => .int16 <$> attempt int16
  | .uint24 _ => .uint24 <$> attempt uint24
  | .uint32 _ => .uint32 <$> attempt uint32
  | .leb128 _ => .leb128 <$> Prod.fst <$> numberBy Leb128.maxSize 0 0
  | .bytes value => .bytes <$> fromBoundary (bytes value.length)

theorem outcome_fromBoundary (program : Parse α) :
    outcome (fromBoundary program) = align >>= fun _ => program := by
  rw [fromBoundary, outcome_bind, outcome_attempt, outcome_attempt]

theorem outcome_numberBy (left index value : Nat) :
    outcome (numberBy left index value) = numberFrom left index value := by
  induction left generalizing index value with
  | zero => rfl
  | succ left ih =>
    simp only [numberBy, numberFrom, outcome_bind, outcome_attempt, apply_ite outcome, add,
      outcome_guarded, outcome_pure, ih]

theorem keepsIn_fromBoundary {program : Parse α} (h : StaysIn program) :
    KeepsIn (fromBoundary program) :=
  staysIn_align.attempt.bind fun _ => h.attempt

theorem staysIn_uint8 : StaysIn uint8 :=
  (staysIn_bits 8).map _

theorem staysIn_uint16 : StaysIn uint16 :=
  (staysIn_bits 16).map _

theorem keepsIn_numberBy (left index value : Nat) : KeepsIn (numberBy left index value) := by
  induction left generalizing index value with
  | zero => exact keepsIn_fail _
  | succ left ih =>
    -- The byte has been read even where its group does not fit.
    refine staysIn_uint8.attempt.bind fun byte => ?_
    refine (staysIn_joinGroup _ _ _).attempt.bind fun value => ?_
    split
    · exact keepsIn_guarded.bind fun _ => keepsIn_pure _
    · exact ih _ _

theorem keepsIn_runItem (item : Item) : KeepsIn (runItem item) := by
  cases item with
  | bits width value => exact (staysIn_bits width).attempt.map _
  | flag value => exact ((staysIn_bits 1).bind fun _ => staysIn_pure _).attempt.map _
  | byte value => exact staysIn_uint8.attempt.map _
  | uint16 value => exact staysIn_uint16.attempt.map _
  | int16 value => exact (staysIn_uint16.map _).attempt.map _
  | uint24 value => exact ((staysIn_bits 24).map _).attempt.map _
  | uint32 value => exact ((staysIn_bits 32).map _).attempt.map _
  | leb128 value => exact ((keepsIn_numberBy _ _ _).map _).map _
  | bytes value => exact (keepsIn_fromBoundary (staysIn_bytes _)).map _

/-- Behind a step to a byte boundary it is enough to look at byte boundaries. -/
theorem keepsTrack_fromBoundary {fast : Parse α} {slow : Read α}
    (hslow : ∀ reader : Reader, slow { reader with pending := [] } = slow reader)
    (h : ∀ ⦃cursor : Cursor⦄ ⦃offset : Nat⦄, cursor.Addressable → cursor.position = 8 * offset →
      Agrees (fun _ => Tracks) (fast cursor) (slow ⟨cursor.subject, [], cursor.data.drop offset⟩)) :
    KeepsTrack (outcome (fromBoundary fast)) slow := by
  rintro cursor _ ⟨haddressable, rfl⟩
  rw [outcome_fromBoundary, run_bind_of_ok (run_align haddressable), ← hslow]
  exact h haddressable.aligned (Nat.mul_comm _ _)

theorem keepsTrack_wholeBytes (count : Nat) :
    KeepsTrack (outcome (fromBoundary (bytes count))) (Read.bytes count) := by
  refine keepsTrack_fromBoundary (fun _ => rfl) fun cursor offset haddressable hoffset => ?_
  rcases run_bytes haddressable hoffset count with
    ⟨value, -, hend, hfast, hread⟩ | ⟨error, hfast, hread⟩
  · rw [hfast, hread]
    refine .ok (tracks_of_boundary (haddressable.ahead (by omega)) ?_)
    rw [Cursor.ahead_position, hoffset, Nat.mul_add]
  · rw [hfast, hread]
    exact .error error

theorem keepsTrack_wholeRest : KeepsTrack (outcome (fromBoundary rest)) Read.remaining := by
  refine keepsTrack_fromBoundary (fun _ => rfl) fun cursor offset haddressable hoffset => ?_
  have hinside := haddressable.inside
  have hend : Tracks (cursor.ahead (8 * (cursor.data.length - offset)))
      ⟨cursor.subject, [], cursor.data.drop cursor.data.length⟩ := by
    refine tracks_of_boundary (haddressable.ahead (by omega)) ?_
    rw [Cursor.ahead_position]
    omega
  rw [List.drop_length] at hend
  rw [rest_of haddressable hoffset]
  exact .ok hend

theorem keepsTrack_numberBy :
    KeepsTrack (outcome (numberBy Leb128.maxSize 0 0)) Leb128.readSized := by
  rw [outcome_numberBy]
  exact refinesFrom_numberFrom (fun _ => keepsTrack_uint8) rfl
    (by decide : 0 < 2 ^ min (7 * 0) 32)

/-- A value in another form is found at the same place. -/
theorem KeepsTrack.map {fast : Parse α} {slow : Read α} (h : KeepsTrack fast slow) (f : α → β) :
    KeepsTrack (f <$> fast) (f <$> slow) :=
  RefinesFrom.map h fun _ _ _ hplaces => hplaces

theorem KeepsTrack.outcome_map {fast : Run Cursor α} {slow : Read α}
    (h : KeepsTrack (outcome fast) slow) (f : α → β) :
    KeepsTrack (outcome (f <$> fast)) (f <$> slow) := by
  rw [Checked.outcome_map]
  exact h.map f

theorem KeepsTrack.attempt {fast : Parse α} {slow : Read α} (h : KeepsTrack fast slow) :
    KeepsTrack (outcome (attempt fast)) slow := by
  rwa [outcome_attempt]

theorem keepsTrack_runItem {item : Item} (h : item.Narrow) :
    KeepsTrack (outcome (runItem item)) item.read := by
  cases item with
  | bits width value =>
    have hbits := keepsTrack_word (Read.spells_bits width) (fun _ _ _ => Read.within_of_bits) h
    rw [id_map] at hbits
    exact hbits.attempt.outcome_map _
  | flag value =>
    have hflag : flag = (fun number => decide (number = 1)) <$> bits 1 := by
      rw [flag, map_eq_pure_bind]
    have hbit := keepsTrack_word Read.spells_bit Read.within_of_bit (by decide)
    rw [← hflag] at hbit
    exact hbit.attempt.outcome_map _
  | byte value => exact keepsTrack_uint8.attempt.outcome_map _
  | uint16 value => exact keepsTrack_uint16.attempt.outcome_map _
  | int16 value => exact (keepsTrack_uint16.map _).attempt.outcome_map _
  | uint24 value =>
    have hword : KeepsTrack uint24 Read.uint24 :=
      keepsTrack_word Read.spells_uint24 Read.spends_uint24.within (by decide)
    exact hword.attempt.outcome_map _
  | uint32 value =>
    have hword : KeepsTrack uint32 Read.uint32 :=
      keepsTrack_word Read.spells_uint32 Read.spends_uint32.within (by decide)
    exact hword.attempt.outcome_map _
  | leb128 value => exact (keepsTrack_numberBy.outcome_map Prod.fst).outcome_map _
  | bytes value => exact (keepsTrack_wholeBytes _).outcome_map _

/-- Items are read in a row as the reader reads them. -/
theorem keepsTrack_mapM_runItem {items : List Item} (h : ∀ item ∈ items, item.Narrow) :
    KeepsTrack (outcome (items.mapM runItem)) (items.mapM Item.read) := by
  induction items with
  | nil =>
    rw [List.mapM_nil, List.mapM_nil]
    exact refines_pure []
  | cons item items ih =>
    obtain ⟨hfirst, hothers⟩ := List.forall_mem_cons.1 h
    simp only [List.mapM_cons, outcome_bind, outcome_pure]
    exact (keepsTrack_runItem hfirst).bind fun first =>
      (ih hothers).bind fun others => refines_pure _

/-! ### Accesses -/

/-- One thing that is done with a byte string. -/
inductive Access where
  /-- An item of this kind is read. -/
  | item (like : Item)
  /-- Bits are passed over. -/
  | skipBits (count : Nat)
  /-- Whole bytes are passed over. -/
  | skipBytes (count : Nat)
  /-- All bytes up to the end are read. -/
  | remaining
  /-- The rest of a byte that was begun is passed over. -/
  | align
  deriving DecidableEq, Repr

namespace Access

/-- An access by a reader. Gives the item that was read, if one was. -/
def read : Access → Read (Option Item)
  | item like => some <$> like.read
  | skipBits count => (fun _ => none) <$> Read.skipBits count
  | skipBytes count => (fun _ => none) <$> Read.bytes count
  | remaining => (fun bytes => some (.bytes bytes)) <$> Read.remaining
  | align => (fun _ => none) <$> Read.align

/-- An access by a machine. -/
def run : Access → Run Cursor (Option Item)
  | item like => some <$> runItem like
  | skipBits count => (fun _ => none) <$> attempt (Checked.skipBits count)
  | skipBytes count => (fun _ => none) <$> fromBoundary (bytes count)
  | remaining => (fun bytes => some (.bytes bytes)) <$> fromBoundary rest
  | align => (fun _ => none) <$> attempt Checked.align

/-- Not of more bits than a word has. -/
def Narrow : Access → Prop
  | item like => like.Narrow
  | _ => True

/-- Where the cursor is after accesses, those that failed included. -/
def leftBy (accesses : List Access) (cursor : Cursor) : Cursor :=
  accesses.foldl (fun cursor access => left access.run cursor) cursor

/-- An access comes out as it does for the reader, and without a fault. -/
theorem keepsTrack_run {access : Access} (h : access.Narrow) :
    KeepsTrack (outcome access.run) access.read := by
  cases access with
  | item like => exact (keepsTrack_runItem h).outcome_map _
  | skipBits count => exact (keepsTrack_skipBits count).attempt.outcome_map _
  | skipBytes count => exact (keepsTrack_wholeBytes count).outcome_map _
  | remaining => exact keepsTrack_wholeRest.outcome_map _
  | align => exact keepsTrack_align.attempt.outcome_map _

/-- An access does not lead beyond the end, nor does it stop there. -/
theorem keepsIn_run (access : Access) : KeepsIn access.run := by
  cases access with
  | item like => exact (keepsIn_runItem like).map _
  | skipBits count => exact (staysIn_skipBits count).attempt.map _
  | skipBytes count => exact (keepsIn_fromBoundary (staysIn_bytes count)).map _
  | remaining => exact (keepsIn_fromBoundary staysIn_rest).map _
  | align => exact staysIn_align.attempt.map _

/-- Nor do any accesses in a row. -/
theorem isIn_leftBy {subject : String} {data : Bytes} {cursor : Cursor} (accesses : List Access)
    (h : cursor.IsIn subject data) : (leftBy accesses cursor).IsIn subject data := by
  induction accesses generalizing cursor with
  | nil => exact h
  | cons access accesses ih => exact ih (access.keepsIn_run h)

end Access

/-! ### There and back -/

/-- The cursor at the start of a byte string faces the reader of it. -/
theorem tracks_start (subject : String) {data : Bytes} (h : 8 * data.length + 7 < 2 ^ 64) :
    Tracks ⟨subject, data, 0⟩ (Reader.ofBytes subject data) := by
  have hstart : Cursor.Addressable ⟨subject, data, 0⟩ := ⟨h, Nat.zero_le _⟩
  exact tracks_of_boundary hstart (Nat.mul_zero 8).symm

theorem Agrees.of_ok {after : α → Cursor → Reader → Prop} {value : α} {reader : Reader}
    {fast : Except Stop (α × Cursor)} (h : Agrees after fast (.ok (value, reader))) :
    ∃ cursor, fast = .ok (value, cursor) ∧ after value cursor reader := by
  cases h with
  | ok places => exact ⟨_, rfl, places⟩

/-- What a machine puts item by item is what is packed. -/
theorem putItems_finish {items : List Item} (h : ∀ item ∈ items, item.Narrow) :
    ∃ writer, Writer.putItems items {} = .ok writer
      ∧ writer.finish = .ok (Item.pack items) := by
  obtain ⟨writer, hwriter, hsound, hbits⟩ := Writer.putItems_of (Writer.sound_of_whole []) h
  refine ⟨writer, hwriter, ?_⟩
  rw [Writer.finish_eq_pad hsound, hbits]
  rfl

/-- What a reader finds in a byte string that a word can count, a machine finds. -/
theorem mapM_runItem_of {items values : List Item} {subject : String} {data : Bytes} {last : Reader}
    (hnarrow : ∀ item ∈ items, item.Narrow) (hcounted : 8 * data.length + 7 < 2 ^ 64)
    (h : items.mapM Item.read (Reader.ofBytes subject data) = .ok (values, last)) :
    ∃ cursor, items.mapM runItem ⟨subject, data, 0⟩ = .ok values cursor ∧ Tracks cursor last := by
  have hagrees := keepsTrack_mapM_runItem hnarrow (tracks_start subject hcounted)
  rw [h] at hagrees
  obtain ⟨cursor, hcursor, htracks⟩ := hagrees.of_ok
  exact ⟨cursor, ok_of_outcome hcursor, htracks⟩

/-- Items that are packed come back as far as their bits go, and leave less than a byte of
padding. A machine packs the same bytes, and finds the same items in them. Whatever is
done with a byte string, the cursor is not beyond its end, and there is no fault. -/
theorem packed_items_come_back (subject : String) :
    (∀ items, Item.Packable [] items →
      (∃ writer, Writer.putItems items {} = .ok writer
        ∧ writer.finish = .ok (Item.pack items))
      ∧ ∃ last, items.mapM Item.read (Reader.ofBytes subject (Item.pack items))
            = .ok (items.map Item.low, last)
        ∧ last.unread.length < 8 ∧ (∀ bit ∈ last.unread, bit = false) ∧ last.bytesLeft = 0
        ∧ (8 * (Item.pack items).length + 7 < 2 ^ 64 →
          ∃ cursor, items.mapM runItem ⟨subject, Item.pack items, 0⟩
              = .ok (items.map Item.low) cursor
            ∧ cursor.unread = last.unread ∧ bytesLeft cursor = .ok (0, cursor)))
    ∧ ∀ data accesses,
      (Access.leftBy accesses ⟨subject, data, 0⟩).IsIn subject data
      ∧ (8 * data.length + 7 < 2 ^ 64 → ∀ access : Access, access.Narrow →
        Agrees (fun _ => Tracks) (outcome access.run (Access.leftBy accesses ⟨subject, data, 0⟩))
          (access.read (Access.leftBy accesses ⟨subject, data, 0⟩).reader)) := by
  constructor
  · intro items hpackable
    obtain ⟨last, hlast, hshort, hzero, hnone⟩ := Item.exists_mapM_read_pack hpackable subject
    refine ⟨putItems_finish hpackable.narrow, last, hlast, hshort, hzero, hnone, fun hcounted => ?_⟩
    obtain ⟨cursor, hcursor, htracks⟩ := mapM_runItem_of hpackable.narrow hcounted hlast
    refine ⟨cursor, hcursor, htracks.faces.unread.symm, ?_⟩
    rw [run_bytesLeft_reader htracks.addressable, ← htracks.reader_eq, hnone]
  · intro data accesses
    -- What accesses leave is in the byte string, so that the next one cannot fault either.
    have hstart : Cursor.IsIn subject data ⟨subject, data, 0⟩ := ⟨rfl, rfl, Nat.zero_le _⟩
    have hin := Access.isIn_leftBy accesses hstart
    refine ⟨hin, fun hcounted access hnarrow => Access.keepsTrack_run hnarrow ⟨?_, rfl⟩⟩
    exact hin.addressable hcounted

/-- Words across bytes, some of them with more bits than are written, a byte string behind
a part of a byte, and a number at a byte boundary. -/
def straddlingItems : List Item :=
  [.bits 3 0xFD, .flag true, .uint24 0xFF123456, .int16 (-2), .bytes [0xAA], .leb128 300,
    .bits 5 0x3F]

/-- Three bits are read, a word and two bytes are not there, and a number breaks off at the
end. -/
def failingAccesses : List Access :=
  [.item (.bits 3 0), .item (.uint32 0), .skipBytes 2, .item (.leb128 0), .align]

/-- The high bits are gone, the sign is not. Behind accesses of which three fail the cursor
is at the end, where no bit is left. -/
theorem packed_items_come_back_straddling :
    Item.pack straddlingItems = [0xB1, 0x23, 0x45, 0x6F, 0xFF, 0xE0, 0xAA, 0xAC, 0x02, 0xF8]
    ∧ (∃ last cursor,
      straddlingItems.mapM Item.read (Reader.ofBytes "packed" (Item.pack straddlingItems))
          = .ok ([.bits 3 0x5, .flag true, .uint24 0x123456, .int16 (-2), .bytes [0xAA],
            .leb128 300, .bits 5 0x1F], last)
        ∧ last.unread.length < 8 ∧ last.bytesLeft = 0
        ∧ straddlingItems.mapM runItem ⟨"packed", Item.pack straddlingItems, 0⟩
          = .ok [.bits 3 0x5, .flag true, .uint24 0x123456, .int16 (-2), .bytes [0xAA],
            .leb128 300, .bits 5 0x1F] cursor
        ∧ bytesLeft cursor = .ok (0, cursor))
    ∧ Access.leftBy failingAccesses ⟨"packed", [0xFF, 0x80], 0⟩ = ⟨"packed", [0xFF, 0x80], 16⟩
    ∧ Agrees (fun _ => Tracks)
        (outcome (Access.run (.item (.flag true))) ⟨"packed", [0xFF, 0x80], 16⟩)
        (.error (.truncated "packed")) := by
  have hpacked : Item.pack straddlingItems
      = [0xB1, 0x23, 0x45, 0x6F, 0xFF, 0xE0, 0xAA, 0xAC, 0x02, 0xF8] := by decide +kernel
  have hlow : straddlingItems.map Item.low
      = [.bits 3 0x5, .flag true, .uint24 0x123456, .int16 (-2), .bytes [0xAA], .leb128 300,
        .bits 5 0x1F] := by decide +kernel
  have hend : Access.leftBy failingAccesses ⟨"packed", [0xFF, 0x80], 0⟩
      = ⟨"packed", [0xFF, 0x80], 16⟩ := by decide +kernel
  obtain ⟨hback, hinside⟩ := packed_items_come_back "packed"
  obtain ⟨-, last, hlast, hshort, -, hnone, hrun⟩ :=
    hback straddlingItems (by decide +kernel)
  obtain ⟨cursor, hcursor, -, hcount⟩ := hrun (by rw [hpacked]; decide)
  rw [hlow] at hlast hcursor
  refine ⟨hpacked, ⟨last, cursor, hlast, hshort, hnone, hcursor, hcount⟩, hend, ?_⟩
  have hagrees := (hinside [0xFF, 0x80] failingAccesses).2 (by decide) (.item (.flag true)) trivial
  rw [hend] at hagrees
  exact hagrees

end

end Iamf.Checked
