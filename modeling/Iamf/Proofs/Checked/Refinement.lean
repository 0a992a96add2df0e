import Iamf.Proofs.Bits.Reading
import Iamf.Proofs.Checked.Cursor
import Mathlib.Data.Nat.Bitwise

/-!
# `Iamf.Proofs.Checked.Refinement`: checked readers do what readers do

A checked program and a reader agree when they give the same value, or fail with the
same error, and the checked one has no fault. `RefinesFrom` says so of runs that start
at places which belong together, and says which places they lead to. Readers of whole
records start and stop at byte boundaries, and for them it is `Refines`.

Refinement goes along with `bind` and the loops, so a checked reader is compared with
its reader step by step, and a checked operation in front is dropped once it is known
to be in range. Where the checked reader takes a byte apart field by field and the
reader takes it whole, the cursor is `Inside` of that byte for a while.

* `RefinesFrom.bind`, `RefinesFrom.iterate`, ...: programs that are put together.
* `refines_uint8`, `refinesFrom_number`, ...: words, numbers and byte strings.
* `RefinesFrom.open_byte`, `RefinesFrom.field`, `RefinesFrom.close_byte`: bytes that are
  taken apart.
* `parse_eq`: results on whole byte strings.
-/

set_option autoImplicit false

namespace Iamf.Checked

/-! ### Agreement -/

section

variable {α β σ : Type}

/-- Two runs came out with the same value, at places that belong together, or with the
same error. -/
inductive Agrees (after : α → Cursor → Reader → Prop) :
    Except Stop (α × Cursor) → Except Error (α × Reader) → Prop where
  | ok {value : α} {cursor : Cursor} {reader : Reader} (places : after value cursor reader) :
      Agrees after (.ok (value, cursor)) (.ok (value, reader))
  | error (error : Error) : Agrees after (.error (.failed error)) (.error error)

/-- Run from places that belong together, the checked program comes out as the reader
does, which excludes a fault. -/
def RefinesFrom (before : Cursor → Reader → Prop) (after : α → Cursor → Reader → Prop)
    (fast : Parse α) (slow : Read α) : Prop :=
  ∀ ⦃cursor : Cursor⦄ ⦃reader : Reader⦄, before cursor reader →
    Agrees after (fast cursor) (slow reader)

/-- A cursor and a reader with so many whole bytes behind them. -/
structure At (offset : Nat) (cursor : Cursor) (reader : Reader) : Prop where
  sound : cursor.Sound
  position : cursor.position = 8 * offset
  reader_eq : reader = ⟨cursor.subject, [], cursor.data.drop offset⟩

/-- A cursor and a reader at the same byte boundary. -/
def Aligned (cursor : Cursor) (reader : Reader) : Prop :=
  ∃ offset, At offset cursor reader

/-- From byte boundary to byte boundary, the checked program does what the reader does. -/
abbrev Refines (fast : Parse α) (slow : Read α) : Prop :=
  RefinesFrom Aligned (fun _ => Aligned) fast slow

variable {before : Cursor → Reader → Prop} {after : α → Cursor → Reader → Prop}

theorem RefinesFrom.mono {other : α → Cursor → Reader → Prop} {fast : Parse α} {slow : Read α}
    (h : RefinesFrom before after fast slow)
    (himp : ∀ value cursor reader, after value cursor reader → other value cursor reader) :
    RefinesFrom before other fast slow := by
  intro cursor reader hbefore
  have hagrees := h hbefore
  revert hagrees
  generalize fast cursor = one
  generalize slow reader = two
  rintro (hplaces | error)
  · exact .ok (himp _ _ _ hplaces)
  · exact .error _

/-- What holds of every value that the reader gives. -/
theorem RefinesFrom.noting {fact : α → Prop} {fast : Parse α} {slow : Read α}
    (h : RefinesFrom before after fast slow)
    (hfact : ∀ reader value next, slow reader = .ok (value, next) → fact value) :
    RefinesFrom before (fun value cursor reader => fact value ∧ after value cursor reader)
      fast slow := by
  intro cursor reader hbefore
  have hagrees := h hbefore
  have hvalue := hfact reader
  revert hagrees hvalue
  generalize fast cursor = one
  generalize slow reader = two
  rintro (hplaces | error) hvalue
  · exact .ok ⟨hvalue _ _ rfl, hplaces⟩
  · exact .error _

/-- It is enough to look at one byte boundary after the other. -/
theorem refines_of_at {fast : Parse α} {slow : Read α}
    (h : ∀ offset, RefinesFrom (At offset) (fun _ => Aligned) fast slow) : Refines fast slow := by
  rintro cursor reader ⟨offset, hplaces⟩
  exact h offset hplaces

/-- What goes for every byte boundary goes for one of them. -/
theorem RefinesFrom.of_aligned {offset : Nat} {fast : Parse α} {slow : Read α}
    (h : RefinesFrom Aligned after fast slow) : RefinesFrom (At offset) after fast slow :=
  fun _ _ hat => h ⟨offset, hat⟩

/-- A program that moves on by whole bytes stops at a byte boundary. -/
theorem refines_of_offset {fast : Parse α} {slow : Read α} {next : Nat → α → Nat}
    (h : ∀ offset, RefinesFrom (At offset) (fun value => At (next offset value)) fast slow) :
    Refines fast slow :=
  refines_of_at fun offset => (h offset).mono fun _ _ _ hplaces => ⟨_, hplaces⟩

/-! ### Programs that are put together -/

theorem refinesFrom_pure {value : α}
    (h : ∀ cursor reader, before cursor reader → after value cursor reader) :
    RefinesFrom before after (pure value) (pure value) :=
  fun cursor reader hbefore => .ok (h cursor reader hbefore)

theorem refines_pure (value : α) : RefinesFrom before (fun _ => before) (pure value) (pure value) :=
  refinesFrom_pure fun _ _ h => h

theorem refinesFrom_fail (error : Error) : RefinesFrom before after (fail error) (throw error) :=
  fun _ _ _ => .error error

theorem RefinesFrom.bind {middle : β → Cursor → Reader → Prop} {fast : Parse β} {slow : Read β}
    {fastNext : β → Parse α} {slowNext : β → Read α} (h : RefinesFrom before middle fast slow)
    (hnext : ∀ value, RefinesFrom (middle value) after (fastNext value) (slowNext value)) :
    RefinesFrom before after (fast >>= fastNext) (slow >>= slowNext) := by
  intro cursor reader hbefore
  have hagrees := h hbefore
  simp only [Bind.bind, StateT.bind, Except.bind]
  revert hagrees
  generalize fast cursor = one
  generalize slow reader = two
  rintro (hplaces | error)
  · exact hnext _ hplaces
  · exact .error _

/-- A checked program may give a value in the form that the rest of it needs. -/
theorem RefinesFrom.bind_map {γ : Type} {middle : Cursor → Reader → Prop} {fast : Parse β}
    {slow : Read γ} {f : γ → β} {fastNext : β → Parse α} {slowNext : γ → Read α}
    (h : RefinesFrom before (fun _ => middle) fast (f <$> slow))
    (hnext : ∀ value, RefinesFrom middle after (fastNext (f value)) (slowNext value)) :
    RefinesFrom before after (fast >>= fastNext) (slow >>= slowNext) := by
  intro cursor reader hbefore
  have hagrees := h hbefore
  simp only [Functor.map, StateT.map, Bind.bind, StateT.bind, Except.bind, pure, Except.pure]
    at hagrees ⊢
  revert hagrees
  generalize fast cursor = one
  cases slow reader with
  | error error =>
    rintro ⟨⟩
    exact .error _
  | ok result =>
    rintro ⟨hplaces⟩
    exact hnext _ hplaces

theorem RefinesFrom.map {middle : β → Cursor → Reader → Prop} {fast : Parse β} {slow : Read β}
    {f : β → α} (h : RefinesFrom before middle fast slow)
    (hafter : ∀ value cursor reader, middle value cursor reader → after (f value) cursor reader) :
    RefinesFrom before after (f <$> fast) (f <$> slow) := by
  rw [map_eq_pure_bind, map_eq_pure_bind]
  exact h.bind fun value => refinesFrom_pure (hafter value)

/-- What is known of the places is at hand for the programs. -/
theorem RefinesFrom.given {fact : Prop} {fast : Parse α} {slow : Read α}
    (h : fact → RefinesFrom before after fast slow) :
    RefinesFrom (fun cursor reader => fact ∧ before cursor reader) after fast slow :=
  fun _ _ hbefore => h hbefore.1 hbefore.2

/-- A test, in front of programs that may rely on it. -/
theorem RefinesFrom.require {condition test : Prop} [Decidable condition] [Decidable test]
    {error : Error} {fast : Unit → Parse α} {slow : Unit → Read α} (hiff : condition ↔ test)
    (h : test → RefinesFrom before after (fast ()) (slow ())) :
    RefinesFrom before after (require condition error >>= fast) (ensure test error >>= slow) := by
  by_cases htest : test
  · rw [require_of (hiff.2 htest), ensure_of htest, pure_bind, pure_bind]
    exact h htest
  · rw [require_of_not fun h => htest (hiff.1 h), show (ensure test error : Read Unit) = throw error
      from if_neg htest]
    exact fun _ _ _ => .error error

/-- An outcome that was settled without reading. -/
theorem refinesFrom_lift {fast : Except Stop α} {slow : Except Error α} (h : fast = raise slow) :
    RefinesFrom before (fun value cursor reader => slow = .ok value ∧ before cursor reader)
      (liftM fast) (liftExcept slow) := by
  subst h
  cases slow with
  | ok value => exact refinesFrom_pure fun _ _ h => ⟨rfl, h⟩
  | error error => exact fun _ _ _ => .error error

theorem refines_lift {fast : Except Stop α} {slow : Except Error α} (h : fast = raise slow) :
    RefinesFrom before (fun _ => before) (liftM fast) (liftExcept slow) :=
  (refinesFrom_lift h).mono fun _ _ _ h => h.2

/-! ### Loops -/

/-- Reads `count` items one after the other. -/
def times (count : Nat) (item : Parse α) : Parse (List α) :=
  match count with
  | 0 => return []
  | count + 1 => do
    let first ← item
    let others ← times count item
    return first :: others

/-- Runs `step` on a state `count` times. -/
def iterate (step : σ → Parse σ) (count : Nat) (state : σ) : Parse σ :=
  match count with
  | 0 => return state
  | count + 1 => do
    let next ← step state
    iterate step count next

/-- Reads `count` items, each of which may change a state that the next one sees. -/
def timesWith (count : Nat) (state : σ) (item : σ → Parse (α × σ)) : Parse (List α × σ) := do
  let (items, state) ← iterate
    (fun (items, state) => do
      let (next, state) ← item state
      return (next :: items, state))
    count (([] : List α), state)
  return (items.reverse, state)

theorem times_succ_eq (count : Nat) (item : Read α) :
    Read.times (count + 1) item
      = item >>= fun first => Read.times count item >>= fun others => pure (first :: others) := by
  funext reader
  rw [Read.times_succ]
  simp only [Bind.bind, StateT.bind, Except.bind]
  cases item reader with
  | error error => rfl
  | ok result => cases hothers : Read.times count item result.2 <;> simp [hothers, Except.map]; rfl

theorem RefinesFrom.times {fast : Parse α} {slow : Read α}
    (h : RefinesFrom before (fun _ => before) fast slow) (count : Nat) :
    RefinesFrom before (fun _ => before) (times count fast) (Read.times count slow) := by
  induction count with
  | zero => exact refines_pure []
  | succ count ih =>
    rw [times_succ_eq]
    exact h.bind fun first => ih.bind fun others => refines_pure _

theorem RefinesFrom.iterate {fast : σ → Parse σ} {slow : σ → Read σ}
    (h : ∀ state, RefinesFrom before (fun _ => before) (fast state) (slow state)) (count : Nat)
    (state : σ) :
    RefinesFrom before (fun _ => before) (iterate fast count state)
      (Read.iterate slow count state) := by
  induction count generalizing state with
  | zero => exact refines_pure state
  | succ count ih =>
    rw [Read.iterate_succ]
    exact (h state).bind ih

theorem RefinesFrom.timesWith {fast : σ → Parse (α × σ)} {slow : σ → Read (α × σ)}
    (h : ∀ state, RefinesFrom before (fun _ => before) (fast state) (slow state)) (count : Nat)
    (state : σ) :
    RefinesFrom before (fun _ => before) (timesWith count state fast)
      (Read.timesWith count state slow) :=
  (RefinesFrom.iterate (fun _ => (h _).bind fun _ => refines_pure _) count _).bind
    fun _ => refines_pure _

end

/-! ### Words -/

/-- The next eight bits as a byte. -/
def uint8 : Parse UInt8 :=
  UInt8.ofNat <$> bits 8

/-- A big endian 16 bit word. -/
def uint16 : Parse UInt16 :=
  UInt16.ofNat <$> bits 16

/-- A big endian two's complement 16 bit word. -/
def int16 : Parse Int16 :=
  UInt16.toInt16 <$> uint16

/-- A big endian 24 bit word. -/
def uint24 : Parse UInt32 :=
  UInt32.ofNat <$> bits 24

/-- A big endian 32 bit word. -/
def uint32 : Parse UInt32 :=
  UInt32.ofNat <$> bits 32

/-- A cursor and a reader with the same bits left, wherever in a byte they are, in a byte
string of any size that a word can count. -/
structure Faces (cursor : Cursor) (reader : Reader) : Prop where
  addressable : cursor.Addressable
  subject : reader.subject = cursor.subject
  unread : reader.unread = cursor.unread

/-- A cursor and a reader with the same bits left, wherever in a byte they are. -/
structure Spans (cursor : Cursor) (reader : Reader) : Prop where
  sound : cursor.Sound
  subject : reader.subject = cursor.subject
  unread : reader.unread = cursor.unread

section

variable {α β : Type} {cursor : Cursor} {reader : Reader} {offset count : Nat}

theorem At.length_le (h : At offset cursor reader) : offset ≤ cursor.data.length := by
  have hinside := h.sound.inside
  have hposition := h.position
  omega

theorem At.spans (h : At offset cursor reader) : Spans cursor reader where
  sound := h.sound
  subject := h.reader_eq ▸ rfl
  unread := by
    rw [h.reader_eq, Reader.unread, Cursor.unread, h.position, Bits.drop_ofBytes]
    rfl

/-- A cursor that has moved on by whole bytes, and a reader with the same bits left. -/
theorem At.ahead (h : At offset cursor reader) (hcount : offset + count ≤ cursor.data.length) :
    At (offset + count) (cursor.ahead (8 * count))
      ⟨cursor.subject, [], cursor.data.drop (offset + count)⟩ := by
  have hposition := h.position
  refine ⟨h.sound.ahead (by omega), ?_, rfl⟩
  rw [Cursor.ahead_position]
  omega

theorem Spans.faces (h : Spans cursor reader) : Faces cursor reader :=
  ⟨h.sound.addressable, h.subject, h.unread⟩

theorem Faces.ahead {after : Reader} (h : Faces cursor reader)
    (hcount : count ≤ cursor.unread.length) (hsubject : after.subject = reader.subject)
    (hunread : after.unread = reader.unread.drop count) : Faces (cursor.ahead count) after where
  addressable := h.addressable.ahead (by
    rw [cursor.length_unread] at hcount
    have := h.addressable.inside
    omega)
  subject := hsubject.trans h.subject
  unread := by rw [hunread, h.unread, Cursor.unread_ahead]

/-- Moving on does not lead to a longer byte string. -/
theorem Faces.spans {after : Reader} (h : Faces (cursor.ahead count) after)
    (hsound : cursor.Sound) : Spans (cursor.ahead count) after :=
  ⟨⟨hsound.bounded, h.addressable.inside⟩, h.subject, h.unread⟩

/-- Bits are read as the word that they spell, or both programs find too few of them. -/
theorem run_word {slow : Read α} {value : Nat → α} (hslow : Read.Spells count slow value)
    (hwidth : count ≤ 64) (h : Faces cursor reader) :
    (∃ word next, count ≤ cursor.unread.length
        ∧ (value <$> bits count) cursor = .ok (word, cursor.ahead count)
        ∧ slow reader = .ok (word, next) ∧ Faces (cursor.ahead count) next)
      ∨ ∃ error, (value <$> bits count) cursor = .error (.failed error)
        ∧ slow reader = .error error := by
  by_cases hcount : count ≤ cursor.unread.length
  · obtain ⟨next, hnext, hsubject, hunread⟩ := hslow.ok reader (by rwa [h.unread])
    rw [h.unread] at hnext
    refine .inl ⟨_, next, hcount, ?_, hnext, h.ahead hcount hsubject hunread⟩
    rw [map_eq_pure_bind, run_bind_of_ok (bits_of_le h.addressable hcount hwidth)]
    rfl
  · refine .inr ⟨.truncated reader.subject, ?_, hslow.error reader (by rw [h.unread]; omega)⟩
    rw [map_eq_pure_bind, run_bind_of_error (bits_of_lt h.addressable (by omega) hwidth),
      h.subject]

/-- Bits are passed over by both programs, or by none of them. -/
theorem run_skipBits (count : Nat) (h : Faces cursor reader) :
    (∃ next, skipBits count cursor = .ok ((), cursor.ahead count)
        ∧ Read.skipBits count reader = .ok ((), next) ∧ Faces (cursor.ahead count) next)
      ∨ ∃ error, skipBits count cursor = .error (.failed error)
        ∧ Read.skipBits count reader = .error error := by
  by_cases hcount : count ≤ cursor.unread.length
  · obtain ⟨next, hnext, hsubject, hunread⟩ :=
      (Read.spells_skipBits count).ok reader (by rwa [h.unread])
    exact .inl ⟨next, skipBits_of_le h.addressable hcount, hnext,
      h.ahead hcount hsubject hunread⟩
  · refine .inr ⟨.truncated reader.subject, ?_,
      (Read.spells_skipBits count).error reader (by rw [h.unread]; omega)⟩
    rw [skipBits_of_lt h.addressable (by omega), h.subject]

/-- A word, wherever in a byte it starts. -/
theorem refinesFrom_spans {slow : Read α} {value : Nat → α} (hslow : Read.Spells count slow value)
    (hwidth : count ≤ 64) :
    RefinesFrom Spans (fun _ => Spans) (value <$> bits count) slow := by
  intro cursor reader h
  rcases run_word hslow hwidth h.faces with
    ⟨word, next, -, hfast, hread, hfaces⟩ | ⟨error, hfast, hread⟩
  · rw [hfast, hread]
    exact .ok (hfaces.spans h.sound)
  · rw [hfast, hread]
    exact .error error

theorem refinesFrom_bits (hwidth : count ≤ 64) :
    RefinesFrom Spans (fun _ => Spans) (bits count) (Read.bits count) := by
  have hbits := refinesFrom_spans (Read.spells_bits count) hwidth
  rwa [id_map] at hbits

theorem refinesFrom_skipBits :
    RefinesFrom Spans (fun _ => Spans) (skipBits count) (Read.skipBits count) := by
  intro cursor reader h
  rcases run_skipBits count h.faces with ⟨next, hfast, hread, hfaces⟩ | ⟨error, hfast, hread⟩
  · rw [hfast, hread]
    exact .ok (hfaces.spans h.sound)
  · rw [hfast, hread]
    exact .error error

/-- A word of whole bytes, from a byte boundary on. -/
theorem refinesFrom_word {slow : Read α} {value : Nat → α}
    (hslow : Read.Spells (8 * count) slow value) (haligns : Read.Aligns slow)
    (hwidth : 8 * count ≤ 64) :
    RefinesFrom (At offset) (fun _ => At (offset + count)) (value <$> bits (8 * count)) slow := by
  intro cursor reader h
  rcases run_word hslow hwidth h.spans.faces with
    ⟨word, next, hcount, hfast, hread, hfaces⟩ | ⟨error, hfast, hread⟩
  · rw [cursor.length_unread, h.position] at hcount
    have hle := h.length_le
    have hahead := h.ahead (by omega : offset + count ≤ cursor.data.length)
    -- The reader stops at a byte boundary, with the same bits left.
    have hpending : next.pending = [] := haligns (h.reader_eq ▸ rfl) hread
    have hbytes : next.rest = cursor.data.drop (offset + count) := by
      have hunread := hfaces.unread
      rw [Reader.unread, hpending, List.nil_append, Cursor.unread, hahead.position,
        Bits.drop_ofBytes] at hunread
      rw [← Bits.toBytes_ofBytes next.rest, hunread, Bits.toBytes_ofBytes, Cursor.ahead_data]
    have hnext : next = ⟨cursor.subject, [], cursor.data.drop (offset + count)⟩ := by
      rw [← hpending, ← hbytes, ← Cursor.ahead_subject cursor (8 * count), ← hfaces.subject]
    rw [hfast, hread, hnext]
    exact .ok hahead
  · rw [hfast, hread]
    exact .error error

theorem refinesFrom_uint8 :
    RefinesFrom (At offset) (fun _ => At (offset + 1)) uint8 Read.byte :=
  refinesFrom_word Read.spells_byte Read.aligns_byte (by decide)

theorem refines_uint8 : Refines uint8 Read.byte :=
  refines_of_offset fun _ => refinesFrom_uint8

theorem refines_uint16 : Refines uint16 Read.uint16 := by
  have hword : ∀ offset, RefinesFrom (At offset) (fun _ => At (offset + 2)) uint16 Read.uint16 :=
    fun _ => refinesFrom_word Read.spells_uint16 Read.aligns_uint16 (by decide)
  exact refines_of_offset hword

theorem refines_int16 : Refines int16 Read.int16 :=
  refines_uint16.map fun _ _ _ h => h

theorem refines_uint32 : Refines uint32 Read.uint32 := by
  have hword : ∀ offset, RefinesFrom (At offset) (fun _ => At (offset + 4)) uint32 Read.uint32 :=
    fun _ => refinesFrom_word Read.spells_uint32 Read.aligns_uint32 (by decide)
  exact refines_of_offset hword

theorem refinesFrom_uint24 : RefinesFrom Spans (fun _ => Spans) uint24 Read.uint24 :=
  refinesFrom_spans Read.spells_uint24 (by decide)

/-! ### Byte strings -/

/-- Fails early when there are fewer bytes left than items to come. -/
def checkCount (count : Nat) (subject : String) : Parse Unit := do
  let left ← bytesLeft
  require (count ≤ left) (.truncated subject)

/-- The end of an OBU body of the given kind. -/
def finish (kind : Obu.Kind) (strict : Bool) : Parse Unit := do
  let remaining ← bytesLeft
  if remaining = 0 then return ()
  else require (strict = false) (.underread kind remaining)

/-- From a byte boundary on, both programs cut out the same bytes, or find too few. -/
theorem run_bytes (h : cursor.Addressable) (hoffset : cursor.position = 8 * offset) (count : Nat) :
    (∃ value, value.length = count ∧ offset + count ≤ cursor.data.length
        ∧ bytes count cursor = .ok (value, cursor.ahead (8 * count))
        ∧ Read.bytes count ⟨cursor.subject, [], cursor.data.drop offset⟩
          = .ok (value, ⟨cursor.subject, [], cursor.data.drop (offset + count)⟩))
      ∨ ∃ error, bytes count cursor = .error (.failed error)
        ∧ Read.bytes count ⟨cursor.subject, [], cursor.data.drop offset⟩ = .error error := by
  have hinside := h.inside
  by_cases hcount : count ≤ cursor.data.length - offset
  · have hfront : ((cursor.data.drop offset).take count).length = count := by
      rw [List.length_take, List.length_drop]
      omega
    have hslow := Read.bytes_append cursor.subject ((cursor.data.drop offset).drop count) hfront
    rw [List.take_append_drop, List.drop_drop] at hslow
    exact .inl ⟨_, hfront, by omega, bytes_of_le h hoffset hcount, hslow⟩
  · exact .inr ⟨_, bytes_of_lt h hoffset (by omega),
      Read.bytes_of_lt _ (by rw [List.length_drop]; omega)⟩

theorem refinesFrom_bytes (count : Nat) :
    RefinesFrom (At offset)
      (fun value cursor reader => value.length = count ∧ At (offset + count) cursor reader)
      (bytes count) (Read.bytes count) := by
  intro cursor reader h
  rw [h.reader_eq]
  rcases run_bytes h.sound.addressable h.position count with
    ⟨value, hlength, hend, hfast, hread⟩ | ⟨error, hfast, hread⟩
  · rw [hfast, hread]
    exact .ok ⟨hlength, h.ahead hend⟩
  · rw [hfast, hread]
    exact .error error

theorem refines_bytes (count : Nat) : Refines (bytes count) (Read.bytes count) :=
  refines_of_at fun _ => (refinesFrom_bytes count).mono fun _ _ _ h => ⟨_, h.2⟩

theorem refines_skipBytes (count : Nat) : Refines (skipBytes count) (Read.skipBytes count) :=
  (refines_bytes count).bind fun _ => refines_pure _

/-- What is left of a byte string is no longer than the byte string. -/
theorem refinesFrom_rest :
    RefinesFrom Aligned (fun value cursor reader =>
      value.length ≤ Obu.maxSize ∧ Aligned cursor reader) rest Read.remaining := by
  rintro cursor reader ⟨offset, h⟩
  have hslow : Read.remaining reader
      = .ok (cursor.data.drop offset, ⟨cursor.subject, [], []⟩) := by
    rw [h.reader_eq]
    rfl
  have hend : offset + (cursor.data.length - offset) = cursor.data.length := by
    have := h.length_le
    omega
  have hahead := h.ahead (Nat.le_of_eq hend)
  rw [hend, List.drop_length] at hahead
  have hbounded := h.sound.bounded
  rw [rest_of h.sound.addressable h.position, hslow]
  exact .ok ⟨by rw [List.length_drop]; omega, _, hahead⟩

theorem refinesFrom_bytesLeft :
    RefinesFrom (At offset) (fun _ => At offset) bytesLeft Read.bytesLeft := by
  intro cursor reader h
  have hslow : Read.bytesLeft reader = .ok (cursor.data.length - offset, reader) := by
    rw [h.reader_eq, ← List.length_drop]
    rfl
  rw [run_bytesLeft h.sound.addressable h.position, hslow]
  exact .ok h

theorem refines_bytesLeft : Refines bytesLeft Read.bytesLeft :=
  refines_of_offset fun _ => refinesFrom_bytesLeft

theorem refines_checkCount {mode : ReadMode} (hmode : mode.earlyCounts = true) (count : Nat)
    (subject : String) : Refines (checkCount count subject) (mode.checkCount count subject) :=
  refines_bytesLeft.bind fun left => by
    have hrequire : Refines (require (count ≤ left) (.truncated subject) >>= pure)
        (ensure (mode.earlyCounts = true → count ≤ left) (.truncated subject) >>= pure) :=
      RefinesFrom.require (by rw [hmode]; simp) fun _ => refines_pure ()
    rwa [bind_pure, bind_pure] at hrequire

theorem refines_finish (kind : Obu.Kind) (strict : Bool) :
    Refines (finish kind strict) (Read.finish kind strict) := by
  refine refines_bytesLeft.bind fun left => ?_
  split
  · rename_i hzero
    rw [ensure_of (.inl hzero)]
    exact refines_pure ()
  · rename_i hleft
    have hrequire : Refines (require (strict = false) (.underread kind left) >>= pure)
        (ensure (left = 0 ∨ strict = false) (.underread kind left) >>= pure) :=
      RefinesFrom.require (by simp [hleft]) fun _ => refines_pure ()
    rwa [bind_pure, bind_pure] at hrequire

/-- The result of a checked program on a whole byte string. -/
theorem parse_eq_of_at {fast : Parse α} {slow : Read α} {after : α → Cursor → Reader → Prop}
    (h : RefinesFrom (At 0) after fast slow) (subject : String) {data : Bytes}
    (hdata : data.length ≤ Obu.maxSize) :
    parse fast subject data = raise (slow.parse subject data) := by
  have hstart : At 0 ⟨subject, data, 0⟩ (Reader.ofBytes subject data) :=
    ⟨⟨hdata, Nat.zero_le _⟩, rfl, rfl⟩
  have hagrees := h hstart
  rw [parse, Read.parse]
  revert hagrees
  generalize fast _ = one
  generalize slow _ = two
  rintro (_ | error)
  · rfl
  · rfl

theorem parse_eq {fast : Parse α} {slow : Read α} {after : α → Cursor → Reader → Prop}
    (h : RefinesFrom Aligned after fast slow) (subject : String) {data : Bytes}
    (hdata : data.length ≤ Obu.maxSize) :
    parse fast subject data = raise (slow.parse subject data) :=
  parse_eq_of_at h.of_aligned subject hdata

/-! ### Bytes that are taken apart -/

/-- A cursor with some bits of a byte behind it, and a reader with the whole byte
behind it. -/
structure Inside (offset : Nat) (byte : UInt8) (taken : Nat) (cursor : Cursor)
    (reader : Reader) : Prop where
  sound : cursor.Sound
  position : cursor.position = 8 * offset + taken
  byte_eq : cursor.data.drop offset = byte :: cursor.data.drop (offset + 1)
  reader_eq : reader = ⟨cursor.subject, [], cursor.data.drop (offset + 1)⟩

variable {byte : UInt8} {taken left : Nat} {after : β → Cursor → Reader → Prop}

/-- A field of the byte is its number without the bits behind it, and without those in
front. -/
theorem Inside.toNat_take (h : Inside offset byte taken cursor reader)
    (hleft : taken + (count + left) = 8) :
    count ≤ cursor.unread.length
      ∧ Bits.toNat (cursor.unread.take count) = (byte.toNat >>> left) % 2 ^ count := by
  have hunread : cursor.unread
      = Bits.ofNat (count + left) byte.toNat ++ Bits.ofBytes (cursor.data.drop (offset + 1)) := by
    rw [Cursor.unread, h.position, Bits.drop_ofBytes_within h.byte_eq hleft]
  have hle : count ≤ (Bits.ofNat (count + left) byte.toNat).length := by
    rw [Bits.length_ofNat]
    omega
  rw [hunread, List.take_append_of_le_length hle, Bits.take_ofNat, Bits.toNat_ofNat,
    List.length_append]
  exact ⟨by omega, rfl⟩

theorem Inside.ahead (h : Inside offset byte taken cursor reader)
    (hleft : taken + (count + left) = 8) :
    Inside offset byte (taken + count) (cursor.ahead count) reader where
  sound := h.sound.ahead (by
    have hcount := (h.toNat_take hleft).1
    rw [cursor.length_unread] at hcount
    have := h.sound.inside
    omega)
  position := by rw [Cursor.ahead_position, h.position, Nat.add_assoc]
  byte_eq := h.byte_eq
  reader_eq := h.reader_eq

/-- A further field of a byte. -/
theorem RefinesFrom.field {fast : Nat → Parse β} {slow : Read β}
    (hleft : taken + (count + left) = 8)
    (h : RefinesFrom (Inside offset byte (taken + count)) after
      (fast ((byte.toNat >>> left) % 2 ^ count)) slow) :
    RefinesFrom (Inside offset byte taken) after (bits count >>= fast) slow := by
  intro cursor reader hinside
  obtain ⟨hcount, hvalue⟩ := hinside.toNat_take hleft
  rw [run_bind_of_ok (bits_of_le hinside.sound.addressable hcount (by omega)), hvalue]
  exact h (hinside.ahead hleft)

/-- A bit of a byte. -/
theorem RefinesFrom.flag {fast : Bool → Parse β} {slow : Read β} (hleft : taken + (1 + left) = 8)
    (h : RefinesFrom (Inside offset byte (taken + 1)) after (fast (byte.toNat.testBit left)) slow) :
    RefinesFrom (Inside offset byte taken) after (flag >>= fast) slow := by
  rw [Checked.flag, bind_assoc]
  refine RefinesFrom.field hleft ?_
  rw [pure_bind, Nat.shiftRight_eq_div_pow, Nat.pow_one, ← Nat.testBit_eq_decide_div_mod_eq]
  exact h

/-- Bits of a byte that are passed over. -/
theorem RefinesFrom.pass {fast : Unit → Parse β} {slow : Read β}
    (hleft : taken + (count + left) = 8)
    (h : RefinesFrom (Inside offset byte (taken + count)) after (fast ()) slow) :
    RefinesFrom (Inside offset byte taken) after (skipBits count >>= fast) slow := by
  intro cursor reader hinside
  obtain ⟨hcount, -⟩ := hinside.toNat_take hleft
  rw [run_bind_of_ok (skipBits_of_le hinside.sound.addressable hcount)]
  exact h (hinside.ahead hleft)

/-- The end of a byte. -/
theorem RefinesFrom.close_byte {fast : Parse β} {slow : Read β}
    (h : RefinesFrom (At (offset + 1)) after fast slow) :
    RefinesFrom (Inside offset byte 8) after fast slow := by
  intro cursor reader hinside
  exact h ⟨hinside.sound, by rw [hinside.position, Nat.mul_succ], hinside.reader_eq⟩

/-- The first field of a byte, which is where it may turn out that there is none. -/
theorem RefinesFrom.open_byte {fast : Nat → Parse β} {slow : UInt8 → Read β} (hpos : 0 < count)
    (hleft : count + left = 8)
    (h : ∀ byte, RefinesFrom (Inside offset byte count) after (fast (byte.toNat >>> left))
      (slow byte)) :
    RefinesFrom (At offset) after (bits count >>= fast) (Read.byte >>= slow) := by
  intro cursor reader hat
  cases hdrop : cursor.data.drop offset with
  | nil =>
    have hunread : cursor.unread = [] := by
      rw [Cursor.unread, hat.position, Bits.drop_ofBytes, hdrop, Bits.ofBytes_nil]
    have hread : (Read.byte >>= slow) reader = .error (.truncated cursor.subject) := by
      rw [hat.reader_eq, hdrop]
      rfl
    have hshort : cursor.unread.length < count := by
      rw [hunread]
      exact hpos
    rw [run_bind_of_error (bits_of_lt hat.sound.addressable hshort (by omega)), hread]
    exact .error _
  | cons byte behind =>
    have hbehind : behind = cursor.data.drop (offset + 1) := by
      rw [← List.drop_drop, hdrop, List.drop_succ_cons, List.drop_zero]
    have hread : (Read.byte >>= slow) reader
        = slow byte ⟨cursor.subject, [], cursor.data.drop (offset + 1)⟩ := by
      rw [hat.reader_eq, hdrop, hbehind]
      rfl
    have hinside : Inside offset byte 0 cursor
        ⟨cursor.subject, [], cursor.data.drop (offset + 1)⟩ :=
      ⟨hat.sound, hat.position, hdrop.trans (by rw [hbehind]), rfl⟩
    have hfits : byte.toNat >>> left < 2 ^ count := by
      rw [Nat.shiftRight_eq_div_pow, Nat.div_lt_iff_lt_mul (Nat.two_pow_pos left), ← Nat.pow_add,
        hleft]
      exact byte.toNat_lt
    have hfield : RefinesFrom (Inside offset byte 0) after (bits count >>= fast) (slow byte) := by
      refine RefinesFrom.field (by omega : 0 + (count + left) = 8) ?_
      rw [Nat.zero_add, Nat.mod_eq_of_lt hfits]
      exact h byte
    rw [hread]
    exact hfield hinside

/-- A field in front of reserved bits. -/
theorem RefinesFrom.reserved {fast : Nat → Parse β} {slow : UInt8 → Read β} (hpos : 0 < count)
    (hleft : count + left = 8)
    (h : ∀ byte, RefinesFrom Aligned after (fast (byte.toNat >>> left)) (slow byte)) :
    RefinesFrom Aligned after
      (bits count >>= fun value => skipBits left >>= fun _ => fast value)
      (Read.byte >>= slow) := by
  rintro cursor reader ⟨offset, hat⟩
  have hpass : ∀ byte, RefinesFrom (Inside offset byte count) after
      (skipBits left >>= fun _ => fast (byte.toNat >>> left)) (slow byte) := by
    intro byte
    refine RefinesFrom.pass (by omega : count + (left + 0) = 8) ?_
    rw [hleft]
    exact RefinesFrom.close_byte fun cursor reader hat => h byte ⟨_, hat⟩
  exact RefinesFrom.open_byte hpos hleft hpass hat

/-- The high bits of a byte. -/
theorem ofNat_shiftRight (byte count : UInt8) (places : Nat) (hcount : count.toNat = places)
    (h : places < 8) :
    UInt8.ofNat (byte.toNat >>> places) = byte >>> count := by
  subst hcount
  apply UInt8.toNat_inj.1
  have hlt := byte.toNat_lt
  rw [UInt8.toNat_shiftRight, Nat.mod_eq_of_lt h, UInt8.toNat_ofNat', Nat.mod_eq_of_lt]
  rw [Nat.shiftRight_eq_div_pow]
  exact Nat.lt_of_le_of_lt (Nat.div_le_self _ _) hlt

/-! ### Numbers -/

/-- Reads up to `left` further bytes of a number whose first `index` bytes spelled
`value`. Gives the number and how many bytes it occupied in all. -/
def numberFrom : (left index value : Nat) → Parse (UInt32 × Nat)
  | 0, _, _ => fail .leb128TooLong
  | left + 1, index, value => do
    let byte ← uint8
    let group := byte.toNat &&& 0x7F
    let value ← joinGroup index value group
    if byte.toNat &&& 0x80 = 0 then
      let size ← add 64 index 1
      return (UInt32.ofNat value, size)
    else numberFrom left (index + 1) value
where
  /-- A number with a group at its place, as far as there is room. -/
  joinGroup (index value group : Nat) : Parse Nat :=
    if index ≤ 3 ∨ (index = 4 ∧ group < 16) then do
      let place ← mul 64 7 index
      let shifted ← shiftLeft 32 group place
      return value ||| shifted
    else do
      require (group = 0) .leb128Overflow
      return value

/-- A number, and how many bytes it occupies. -/
def numberSized : Parse (UInt32 × Nat) :=
  numberFrom Leb128.maxSize 0 0

/-- A number. -/
def number : Parse UInt32 :=
  Prod.fst <$> numberSized

/-- The two halves of a byte of a number: its group, and whether another one follows. -/
theorem group_eq (byte : UInt8) :
    byte.toNat &&& 0x7F = byte.toNat % 128 ∧ (byte.toNat &&& 0x80 = 0 ↔ byte.toNat < 128) := by
  refine ⟨Nat.and_two_pow_sub_one_eq_mod byte.toNat 7, ?_⟩
  have hbit := Nat.and_two_pow byte.toNat 7
  have hlt := byte.toNat_lt
  rw [Nat.toNat_testBit] at hbit
  simp only [Nat.reducePow] at hbit hlt
  omega

/-- A group that has room is put in front of the number. -/
theorem joinGroup_of {index value group : Nat} (hroom : index ≤ 3 ∨ (index = 4 ∧ group < 16))
    (hgroup : group < 128) (hvalue : value < 2 ^ (7 * index)) :
    numberFrom.joinGroup index value group = pure (value + group <<< (7 * index))
      ∧ value + group <<< (7 * index) < 2 ^ min (7 * (index + 1)) 32 := by
  have hor : value ||| group <<< (7 * index) = value + group <<< (7 * index) := by
    rw [Nat.or_comm, ← Nat.shiftLeft_add_eq_or_of_lt hvalue, Nat.add_comm]
  have hfits : value + group <<< (7 * index) < 2 ^ min (7 * (index + 1)) 32 := by
    rw [Nat.shiftLeft_eq]
    rcases hroom with hle | ⟨rfl, hsmall⟩
    · have hindex : index = 0 ∨ index = 1 ∨ index = 2 ∨ index = 3 := by omega
      rcases hindex with rfl | rfl | rfl | rfl <;> simp at hvalue ⊢ <;> omega
    · simp at hvalue ⊢
      omega
  have hshift : group <<< (7 * index) < 2 ^ 32 :=
    Nat.lt_of_le_of_lt (Nat.le_add_left _ _)
      (Nat.lt_of_lt_of_le hfits (Nat.pow_le_pow_right (by decide) (Nat.min_le_right _ _)))
  refine ⟨?_, hfits⟩
  rw [numberFrom.joinGroup, if_pos hroom, mul_of (by omega), pure_bind,
    shiftLeft_of (by omega) hshift, pure_bind, hor]

/-- Bytes of a number are read at the place that the number has come to, as long as one
byte leads from each place to the next one. -/
theorem refinesFrom_numberFrom {places : Nat → Cursor → Reader → Prop}
    (hbyte : ∀ index, RefinesFrom (places index) (fun _ => places (index + 1)) uint8 Read.byte)
    {left index value : Nat} (hleft : left + index = 8) (hvalue : value < 2 ^ min (7 * index) 32) :
    RefinesFrom (places index) (fun result => places result.2)
      (numberFrom left index value) (Leb128.readFrom left index value) := by
  induction left generalizing index value with
  | zero => exact refinesFrom_fail _
  | succ left ih =>
    refine (hbyte index).bind fun byte => ?_
    obtain ⟨hgroup, hmore⟩ := group_eq byte
    have hlt : byte.toNat % 128 < 128 := Nat.mod_lt _ (by decide)
    -- What follows once the group is in its place.
    have hnext : ∀ total < 2 ^ min (7 * (index + 1)) 32,
        RefinesFrom (places (index + 1)) (fun result => places result.2)
          (if byte.toNat &&& 0x80 = 0 then do
            let size ← add 64 index 1
            return (UInt32.ofNat total, size)
          else numberFrom left (index + 1) total)
          (if byte.toNat < 128 then return (UInt32.ofNat total, index + 1)
          else Leb128.readFrom left (index + 1) total) := by
      intro total htotal
      simp only [hmore]
      split
      · rw [add_of (by omega), pure_bind]
        exact refinesFrom_pure fun _ _ h => h
      · exact ih (by omega) htotal
    simp only [hgroup]
    by_cases hroom : index ≤ 3 ∨ (index = 4 ∧ byte.toNat % 128 < 16)
    · rw [Nat.min_eq_left (by omega)] at hvalue
      obtain ⟨hjoin, hfits⟩ := joinGroup_of hroom hlt hvalue
      rw [hjoin, pure_bind, ensure_of (by omega), pure_bind]
      exact hnext _ hfits
    · rw [numberFrom.joinGroup, if_neg hroom, bind_assoc]
      refine RefinesFrom.require (by omega) fun htest => ?_
      have hzero : byte.toNat % 128 = 0 := by omega
      rw [pure_bind, hzero, Nat.zero_shiftLeft, Nat.add_zero]
      exact hnext _ (Nat.lt_of_lt_of_le hvalue (Nat.pow_le_pow_right (by decide) (by omega)))

theorem refinesFrom_numberSized :
    RefinesFrom (At offset) (fun result => At (offset + result.2)) numberSized
      Leb128.readSized := by
  have hbyte : ∀ index, RefinesFrom (At (offset + index)) (fun _ => At (offset + (index + 1)))
      uint8 Read.byte := fun _ => refinesFrom_uint8
  exact refinesFrom_numberFrom hbyte rfl (by decide : 0 < 2 ^ min (7 * 0) 32)

theorem refines_number : Refines number Leb128.read :=
  (refines_of_offset fun _ => refinesFrom_numberSized).map fun _ _ _ h => h

end

end Iamf.Checked
