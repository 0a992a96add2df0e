import Iamf.Proofs.Bits.Spelling
import Iamf.Proofs.Wire.Consumes

/-!
# `Iamf.Proofs.Bits.Reading`: words are read like so many bits

A reader keeps the bits of the byte that was begun apart from the bytes behind it,
and a word is read byte by byte. What is read depends on neither: a program that
`Spells` takes the next bits off those that are left, fails if there are not so many,
and gives what the number that they spell stands for.

* `Spells.seq`: two words in a row are one longer word.
* `spells_bits`, `spells_byte`, `spells_uint16`, `spells_uint24`, `spells_uint32`.
* `Spells.agree_bind`: what is read depends on no other bits.
* `Aligns`: at a byte boundary a program stops at one.
* `Spells.length_eq`: there a word takes so many bytes off the front.
-/

set_option autoImplicit false

namespace Iamf.Read

variable {α β γ : Type} {count more : Nat}

/-- The program takes the next `count` bits and gives what they stand for. -/
structure Spells (count : Nat) (program : Read α) (value : Nat → α) : Prop where
  ok : ∀ reader : Reader, count ≤ reader.unread.length → ∃ after,
    program reader = .ok (value (Bits.toNat (reader.unread.take count)), after)
      ∧ after.subject = reader.subject ∧ after.unread = reader.unread.drop count
  error : ∀ reader : Reader, reader.unread.length < count →
    program reader = .error (.truncated reader.subject)

theorem bit_of_cons {reader : Reader} {first : Bool} {others : List Bool}
    (h : reader.unread = first :: others) :
    ∃ after, bit reader = .ok (first, after) ∧ after.subject = reader.subject
      ∧ after.unread = others := by
  obtain ⟨subject, pending, rest⟩ := reader
  cases pending with
  | cons next pending =>
    simp only [Reader.unread, List.cons_append, List.cons.injEq] at h
    obtain ⟨rfl, rfl⟩ := h
    exact ⟨⟨subject, pending, rest⟩, rfl, rfl, rfl⟩
  | nil =>
    cases rest with
    | nil => exact absurd h (by simp [Reader.unread])
    | cons byte rest =>
      simp only [Reader.unread, List.nil_append, Bits.ofBytes_cons, Bits.ofNat,
        List.cons_append, List.cons.injEq] at h
      obtain ⟨rfl, rfl⟩ := h
      exact ⟨⟨subject, Bits.ofNat 7 byte.toNat, rest⟩, rfl, rfl, rfl⟩

theorem bit_of_nil {reader : Reader} (h : reader.unread = []) :
    bit reader = .error (.truncated reader.subject) := by
  obtain ⟨subject, pending, rest⟩ := reader
  obtain ⟨rfl, hrest⟩ := List.append_eq_nil_iff.1 h
  cases rest with
  | nil => rfl
  | cons byte rest => exact absurd hrest (by simp [Bits.ofBytes_cons, Bits.ofNat])

/-- Bits are taken one by one off those that are left. -/
theorem times_bit (count : Nat) (reader : Reader) :
    (count ≤ reader.unread.length → ∃ after,
      times count bit reader = .ok (reader.unread.take count, after)
        ∧ after.subject = reader.subject ∧ after.unread = reader.unread.drop count)
    ∧ (reader.unread.length < count →
      times count bit reader = .error (.truncated reader.subject)) := by
  induction count generalizing reader with
  | zero => exact ⟨fun _ => ⟨reader, rfl, rfl, rfl⟩, fun h => absurd h (Nat.not_lt_zero _)⟩
  | succ count ih =>
    rw [times_succ]
    cases hunread : reader.unread with
    | nil =>
      rw [bit_of_nil hunread]
      exact ⟨fun h => absurd h (Nat.not_succ_le_zero _), fun _ => rfl⟩
    | cons first others =>
      obtain ⟨middle, hfirst, hsubject, hothers⟩ := bit_of_cons hunread
      have hih := ih middle
      rw [hothers, hsubject] at hih
      rw [hfirst, List.length_cons]
      refine ⟨fun h => ?_, fun h => ?_⟩
      · obtain ⟨after, hafter, hname, hleft⟩ := hih.1 (Nat.le_of_succ_le_succ h)
        exact ⟨after, by simp only [hafter, Except.map, List.take_succ_cons], hname, hleft⟩
      · simp only [hih.2 (Nat.lt_of_succ_lt_succ h), Except.map]

/-- A bit is the number that it spells alone. -/
theorem spells_bit : Spells 1 bit fun number => decide (number = 1) where
  ok := fun reader h => by
    cases hunread : reader.unread with
    | nil =>
      rw [hunread] at h
      exact absurd h (by decide)
    | cons first others =>
      obtain ⟨after, hafter, hsubject, hothers⟩ := bit_of_cons hunread
      refine ⟨after, ?_, hsubject, by rw [hothers, List.drop_succ_cons, List.drop_zero]⟩
      rw [hafter]
      cases first <;> rfl
  error := fun reader h => bit_of_nil (List.length_eq_zero_iff.1 (Nat.lt_one_iff.1 h))

theorem spells_bits (count : Nat) : Spells count (bits count) id where
  ok := fun reader h => by
    obtain ⟨after, hafter, hsubject, hleft⟩ := (times_bit count reader).1 h
    exact ⟨after, by simp only [bits, Bind.bind, StateT.bind, Except.bind, hafter]; rfl,
      hsubject, hleft⟩
  error := fun reader h => by
    simp only [bits, Bind.bind, StateT.bind, Except.bind, (times_bit count reader).2 h]

theorem spells_skipBits (count : Nat) : Spells count (skipBits count) fun _ => () where
  ok := fun reader h => by
    obtain ⟨after, hafter, hsubject, hleft⟩ := (times_bit count reader).1 h
    exact ⟨after, by simp only [skipBits, Bind.bind, StateT.bind, Except.bind, hafter]; rfl,
      hsubject, hleft⟩
  error := fun reader h => by
    simp only [skipBits, Bind.bind, StateT.bind, Except.bind, (times_bit count reader).2 h]

theorem Spells.map {program : Read α} {value : Nat → α} (h : Spells count program value)
    (f : α → β) : Spells count (f <$> program) fun number => f (value number) where
  ok := fun reader hcount => by
    obtain ⟨after, hafter, hsubject, hleft⟩ := h.ok reader hcount
    exact ⟨after, map_eq_ok.2 ⟨_, _, hafter, rfl⟩, hsubject, hleft⟩
  error := fun reader hcount => by
    simp only [Functor.map, StateT.map, Bind.bind, Except.bind, h.error reader hcount]

/-- Two words in a row spell one, if what they stand for goes together. -/
theorem Spells.seq {first : Read α} {second : Read β} {low : Nat → α} {high : Nat → β}
    {f : α → β → γ} {value : Nat → γ} (hfirst : Spells count first low)
    (hsecond : Spells more second high)
    (hvalue : ∀ x < 2 ^ count, ∀ y < 2 ^ more, f (low x) (high y) = value (x * 2 ^ more + y)) :
    Spells (count + more) (first >>= fun a => second >>= fun b => pure (f a b)) value where
  ok := fun reader h => by
    obtain ⟨middle, hmiddle, hsubject, hleft⟩ := hfirst.ok reader (by omega)
    have hmore : more ≤ middle.unread.length := by
      rw [hleft, List.length_drop]
      omega
    obtain ⟨after, hafter, hname, hrest⟩ := hsecond.ok middle hmore
    refine ⟨after, ?_, hname.trans hsubject, by rw [hrest, hleft, List.drop_drop]⟩
    have hx := Bits.toNat_lt (reader.unread.take count)
    have hy := Bits.toNat_lt (middle.unread.take more)
    rw [List.length_take, Nat.min_eq_left (by omega)] at hx
    rw [List.length_take, Nat.min_eq_left hmore] at hy
    -- The bits of both words are the bits of the longer one.
    have hnumber : Bits.toNat (reader.unread.take (count + more))
        = Bits.toNat (reader.unread.take count) * 2 ^ more
          + Bits.toNat (middle.unread.take more) := by
      rw [List.take_add, Bits.toNat_append, ← hleft, List.length_take, Nat.min_eq_left hmore]
    rw [bind_eq_ok]
    refine ⟨_, _, hmiddle, bind_eq_ok.2 ⟨_, _, hafter, ?_⟩⟩
    rw [hvalue _ hx _ hy, hnumber]
    rfl
  error := fun reader h => by
    by_cases hcount : count ≤ reader.unread.length
    · obtain ⟨middle, hmiddle, hsubject, hleft⟩ := hfirst.ok reader hcount
      have hmore : middle.unread.length < more := by
        rw [hleft, List.length_drop]
        omega
      simp only [Bind.bind, StateT.bind, Except.bind, hmiddle, hsecond.error middle hmore, hsubject]
    · simp only [Bind.bind, StateT.bind, Except.bind, hfirst.error reader (by omega)]

/-! ### Words -/

theorem spells_byte : Spells 8 byte UInt8.ofNat := by
  have hbits : Spells 8 (UInt8.ofNat <$> bits 8) UInt8.ofNat := (spells_bits 8).map UInt8.ofNat
  -- Bits are only put together where a byte was begun.
  constructor
  · rintro ⟨subject, pending, rest⟩ h
    cases pending with
    | cons bit pending => exact hbits.ok _ h
    | nil =>
      cases rest with
      | nil => exact absurd h (by simp [Reader.unread])
      | cons byte rest =>
        refine ⟨⟨subject, [], rest⟩, ?_, rfl, ?_⟩
        · have htake : (Bits.ofBytes (byte :: rest)).take 8 = Bits.ofNat 8 byte.toNat := by
            rw [Bits.ofBytes_cons, List.take_left' (Bits.length_ofNat _ _)]
          rw [Reader.unread, List.nil_append, htake, Bits.toNat_ofNat,
            Nat.mod_eq_of_lt byte.toNat_lt, UInt8.ofNat_toNat, byte_cons]
        · rw [Reader.unread, Reader.unread, List.nil_append, List.nil_append,
            Bits.ofBytes_cons, List.drop_left' (Bits.length_ofNat _ _)]
  · rintro ⟨subject, pending, rest⟩ h
    cases pending with
    | cons bit pending => exact hbits.error _ h
    | nil =>
      cases rest with
      | nil => rfl
      | cons byte rest =>
        rw [Reader.unread, List.nil_append, Bits.length_ofBytes, List.length_cons] at h
        omega

theorem toNat_ofNat_of_lt_byte {value : Nat} (h : value < 2 ^ 8) :
    (UInt8.ofNat value).toNat = value := by
  rw [toNat_ofNat_byte]
  exact Nat.mod_eq_of_lt h

theorem toNat_ofNat_of_lt_word {value : Nat} (h : value < 2 ^ 16) :
    (UInt16.ofNat value).toNat = value := by
  rw [UInt16.toNat_ofNat']
  exact Nat.mod_eq_of_lt h

theorem spells_uint16 : Spells 16 uint16 UInt16.ofNat :=
  spells_byte.seq spells_byte fun x hx y hy => by
    simp only [toNat_ofNat_of_lt_byte hx, toNat_ofNat_of_lt_byte hy, Nat.reducePow]

theorem spells_uint24 : Spells 24 uint24 UInt32.ofNat :=
  spells_byte.seq spells_uint16 fun x hx y hy => by
    simp only [toNat_ofNat_of_lt_byte hx, toNat_ofNat_of_lt_word hy, Nat.reducePow]

theorem spells_uint32 : Spells 32 uint32 UInt32.ofNat :=
  spells_uint16.seq spells_uint16 fun x hx y hy => by
    simp only [toNat_ofNat_of_lt_word hx, toNat_ofNat_of_lt_word hy, Nat.reducePow]

/-! ### Readers that agree -/

theorem parse_eq_map (program : Read α) (subject : String) (bytes : Bytes) :
    program.parse subject bytes = (program (Reader.ofBytes subject bytes)).map Prod.fst := by
  rw [parse]
  cases program (Reader.ofBytes subject bytes) <;> rfl

/-- The next `count` bits of both readers are the same, and both end at the same bit. -/
structure Agree (count : Nat) (first second : Reader) : Prop where
  subject_eq : first.subject = second.subject
  length_eq : first.unread.length = second.unread.length
  take_eq : first.unread.take count = second.unread.take count

/-- A word on which two readers agree is read from both, or from neither; then they agree
on the bits behind it. -/
theorem Spells.agree_bind {program : Read α} {value : Nat → α} {next : α → Read β}
    {first second : Reader} (h : Spells count program value)
    (hagree : Agree (count + more) first second)
    (hnext : count ≤ first.unread.length → ∀ a b, a.unread = first.unread.drop count →
      Agree more a b →
      (next (value (Bits.toNat (first.unread.take count))) a).map Prod.fst
        = (next (value (Bits.toNat (first.unread.take count))) b).map Prod.fst) :
    ((program >>= next) first).map Prod.fst = ((program >>= next) second).map Prod.fst := by
  have hlength := hagree.length_eq
  by_cases hcount : count ≤ first.unread.length
  · obtain ⟨a, ha, hsubject, hleft⟩ := h.ok first hcount
    obtain ⟨b, hb, hname, hrest⟩ := h.ok second (hlength ▸ hcount)
    have hword : second.unread.take count = first.unread.take count := by
      have htake := congrArg (List.take count) hagree.take_eq
      rw [List.take_take, List.take_take, Nat.min_eq_left (Nat.le_add_right _ _)] at htake
      exact htake.symm
    have hbehind : Agree more a b := {
      subject_eq := by rw [hsubject, hname, hagree.subject_eq]
      length_eq := by rw [hleft, hrest, List.length_drop, List.length_drop, hlength]
      take_eq := by
        have hdrop := congrArg (List.drop count) hagree.take_eq
        rw [List.drop_take, List.drop_take, Nat.add_sub_cancel_left] at hdrop
        rw [hleft, hrest, hdrop] }
    rw [hword] at hb
    simp only [Bind.bind, StateT.bind, Except.bind, ha, hb]
    exact hnext hcount a b hleft hbehind
  · have hfirst := h.error first (Nat.lt_of_not_le hcount)
    have hsecond := h.error second (hlength ▸ Nat.lt_of_not_le hcount)
    simp only [Bind.bind, StateT.bind, Except.bind, hfirst, hsecond, hagree.subject_eq]

/-- A word on which two readers agree is the same read from both, or from neither. -/
theorem Spells.agree {program : Read α} {value : Nat → α} {first second : Reader}
    (h : Spells count program value) (hagree : Agree count first second) :
    (program first).map Prod.fst = (program second).map Prod.fst := by
  have hbind : ((program >>= pure) first).map Prod.fst = ((program >>= pure) second).map Prod.fst :=
    h.agree_bind (show Agree (count + 0) first second from hagree) fun _ _ _ _ _ => rfl
  rwa [bind_pure] at hbind

/-! ### Byte boundaries -/

/-- From a byte boundary the program leads to one. -/
def Aligns (program : Read α) : Prop :=
  ∀ ⦃reader after : Reader⦄ ⦃value : α⦄, reader.pending = [] →
    program reader = .ok (value, after) → after.pending = []

theorem Aligns.seq {first : Read α} {second : Read β} (hfirst : Aligns first)
    (hsecond : Aligns second) (f : α → β → γ) :
    Aligns (first >>= fun a => second >>= fun b => pure (f a b)) := by
  intro reader after value hreader hread
  simp only [bind_eq_ok, pure_eq_ok] at hread
  obtain ⟨a, middle, hmiddle, b, last, hlast, hafter⟩ := hread
  cases hafter
  exact hsecond (hfirst hreader hmiddle) hlast

theorem aligns_byte : Aligns byte := by
  rintro ⟨subject, pending, rest⟩ after value rfl hread
  cases rest with
  | nil => cases hread
  | cons first rest =>
    cases hread
    rfl

theorem aligns_uint16 : Aligns uint16 :=
  aligns_byte.seq aligns_byte _

theorem aligns_uint32 : Aligns uint32 :=
  aligns_uint16.seq aligns_uint16 _

theorem bytes_of_lt (subject : String) {rest : Bytes} (h : rest.length < count) :
    bytes count ⟨subject, [], rest⟩ = .error (.truncated subject) := by
  have halign : align ⟨subject, [], rest⟩ = .ok ((), ⟨subject, [], rest⟩) := rfl
  have hget : (get : Read Reader) ⟨subject, [], rest⟩
      = .ok (⟨subject, [], rest⟩, ⟨subject, [], rest⟩) := rfl
  simp only [bytes, Bind.bind, StateT.bind, Except.bind, halign, hget,
    Bytes.split?_eq_none_iff.2 h]
  rfl

/-- A word of whole bytes is taken off the front of what is left. -/
theorem Spells.length_eq (count : Nat) {program : Read α} {value : Nat → α}
    (h : Spells (8 * count) program value) (haligns : Aligns program) {subject : String}
    {bytes : Bytes} {result : α} {after : Reader}
    (hread : program ⟨subject, [], bytes⟩ = .ok (result, after)) :
    ∃ rest, after = ⟨subject, [], rest⟩ ∧ bytes.length = count + rest.length := by
  have hlength : (Reader.unread ⟨subject, [], bytes⟩).length = 8 * bytes.length :=
    Bits.length_ofBytes bytes
  by_cases hcount : 8 * count ≤ (Reader.unread ⟨subject, [], bytes⟩).length
  · obtain ⟨found, hfound, hsubject, hleft⟩ := h.ok _ hcount
    obtain ⟨-, rfl⟩ := Prod.mk.inj (Except.ok.inj (hread.symm.trans hfound))
    obtain ⟨name, pending, rest⟩ := after
    obtain rfl : pending = [] := haligns rfl hread
    obtain rfl : name = subject := hsubject
    have hrest : (Reader.unread ⟨name, [], rest⟩).length = 8 * rest.length :=
      Bits.length_ofBytes rest
    rw [hleft, List.length_drop, hlength] at hrest
    exact ⟨rest, rfl, by omega⟩
  · cases (h.error _ (Nat.lt_of_not_le hcount)).symm.trans hread

theorem skipBytes_eq_ok {subject : String} {bytes : Bytes} {after : Reader} {result : Unit}
    (h : skipBytes count ⟨subject, [], bytes⟩ = .ok (result, after)) :
    ∃ front rest, bytes = front ++ rest ∧ front.length = count ∧ after = ⟨subject, [], rest⟩ := by
  by_cases hcount : count ≤ bytes.length
  · have hfront : (bytes.take count).length = count := List.length_take_of_le hcount
    have hskip := Consumes.skipBytes (bytes.take count) subject (bytes.drop count) trivial
    rw [List.take_append_drop, hfront] at hskip
    obtain ⟨-, rfl⟩ := Prod.mk.inj (Except.ok.inj (h.symm.trans hskip))
    exact ⟨_, _, (List.take_append_drop count bytes).symm, hfront, rfl⟩
  · obtain ⟨_, _, hbytes, -⟩ := bind_eq_ok.1 h
    cases (bytes_of_lt subject (Nat.lt_of_not_le hcount)).symm.trans hbytes

theorem remaining_eq_ok {subject : String} {bytes value : Bytes} {after : Reader}
    (h : remaining ⟨subject, [], bytes⟩ = .ok (value, after)) :
    value = bytes ∧ after = ⟨subject, [], []⟩ := by
  cases h
  exact ⟨rfl, rfl⟩

end Iamf.Read
