import Iamf.Obu.Header
import Iamf.Proofs.Wire.Consumes

/-!
# `Iamf.Proofs.Wire.Blames`: what readers blame

A reader fails because of what it reads: its errors are invalid data, never a
broken model, a codec that cannot be written or a failing source. `Read.Blames`
says of a program which errors it fails with. It goes along with `bind` and the
loops, so for a whole reader it is a matter of the errors that it throws itself,
and of outcomes that are settled without reading.

Most readers look at nothing but bytes, and their errors are of few kinds. They are
among any faults that include those (`Error.IncludesBytes`).

* `Blames.bind`, `Blames.bind_of`: sequences; the second one lets what comes next
  rely on what was read.
* `Blames.parse`: the errors of a reader on a whole byte string.
* `Obu.Header.blames_read`: those of a header.
-/

set_option autoImplicit false

namespace Iamf

/-! ### Errors -/

namespace Error

/-- Whether bytes alone can lead to the failure: a number that goes wrong, a structure
that is cut short or too long, a field without a meaning, and an OBU header that holds
more than it says. -/
def isOfBytes : Error → Bool
  | leb128Overflow | leb128TooLong | truncated _ | outOfRange _ _ | underread _ _
  | invalidData (.headerExceedsSize _ _) => true
  | _ => false

/-- The failure lies in bytes alone. -/
def IsOfBytes (error : Error) : Prop :=
  error.isOfBytes = true

/-- The failure lies in the input, in its bytes or in what they refer to. -/
def IsInvalid (error : Error) : Prop :=
  error.isInvalidData = true

theorem isInvalid {error : Error} (h : error.isInvalidData = true) : error.IsInvalid :=
  h

/-- Some faults among which are all that bytes alone can lead to. -/
class IncludesBytes (faults : Error → Prop) : Prop where
  of_bytes : ∀ {error : Error}, error.isOfBytes = true → faults error

instance : IncludesBytes IsOfBytes :=
  ⟨id⟩

instance : IncludesBytes IsInvalid where
  of_bytes := by
    intro error h
    cases error with
    | io | unknownCodec | invalidModel => cases h
    | _ => rfl

end Error

open Error (IncludesBytes)
open Error.IncludesBytes (of_bytes)

namespace Read

variable {α β σ : Type} {faults : Error → Prop}

/-- Where the program fails, its error is one of the faults. -/
def Blames (faults : Error → Prop) (program : Read α) : Prop :=
  ∀ ⦃reader : Reader⦄ ⦃error : Error⦄, program reader = .error error → faults error

theorem blames_pure (value : α) : Blames faults (pure value) := by
  intro reader error h
  cases h

theorem blames_throw {error : Error} (h : faults error) :
    Blames faults (throw error : Read α) := by
  rintro reader _ ⟨⟩
  exact h

/-- A program that starts with a look at the reader. -/
theorem Blames.get_bind {next : Reader → Read α} (h : ∀ reader, Blames faults (next reader)) :
    Blames faults (get >>= next) :=
  fun reader _ hfailed => h reader hfailed

theorem blames_set (reader : Reader) : Blames faults (set reader) := by
  intro before error h
  cases h

theorem blames_align : Blames faults align := by
  intro reader error h
  cases h

theorem blames_ensure {condition : Prop} [Decidable condition] {error : Error}
    (h : faults error) : Blames faults (ensure condition error) := by
  rw [ensure]
  split
  · exact blames_pure ()
  · exact blames_throw h

theorem blames_liftExcept {outcome : Except Error α}
    (h : ∀ error, outcome = .error error → faults error) :
    Blames faults (liftExcept outcome) := by
  cases outcome with
  | ok value => exact blames_pure value
  | error error => exact blames_throw (h error rfl)

/-- Two programs in a row, where the second one may rely on how the first came out. -/
theorem Blames.bind_of {first : Read α} {next : α → Read β} (hfirst : Blames faults first)
    (hnext : ∀ value reader after, first reader = .ok (value, after) →
      Blames faults (next value)) :
    Blames faults (first >>= next) := by
  intro reader error h
  simp only [Bind.bind, StateT.bind, Except.bind] at h
  cases hread : first reader with
  | error found =>
    rw [hread] at h
    cases h
    exact hfirst hread
  | ok result =>
    rw [hread] at h
    exact hnext result.1 reader result.2 hread h

theorem Blames.bind {first : Read α} {next : α → Read β} (hfirst : Blames faults first)
    (hnext : ∀ value, Blames faults (next value)) : Blames faults (first >>= next) :=
  hfirst.bind_of fun value _ _ _ => hnext value

theorem Blames.map {program : Read α} (f : α → β) (h : Blames faults program) :
    Blames faults (f <$> program) := by
  intro reader error hfailed
  simp only [Functor.map, StateT.map, Bind.bind, Except.bind] at hfailed
  cases hread : program reader with
  | error found =>
    rw [hread] at hfailed
    cases hfailed
    exact h hread
  | ok result =>
    rw [hread] at hfailed
    cases hfailed

theorem blames_remaining : Blames faults remaining :=
  blames_align.bind fun _ => .get_bind fun _ => (blames_set _).bind fun _ => blames_pure _

theorem blames_bytesLeft : Blames faults bytesLeft :=
  .get_bind fun _ => blames_pure _

/-! ### Loops -/

theorem Blames.times {item : Read α} (h : Blames faults item) (count : Nat) :
    Blames faults (times count item) := by
  induction count with
  | zero => exact blames_pure []
  | succ count ih =>
    intro reader error hfailed
    rw [times_succ] at hfailed
    -- Either one of the later rounds has failed, or the first one.
    split at hfailed
    · rename_i first middle hfirst
      cases hothers : Read.times count item middle with
      | error found =>
        rw [hothers] at hfailed
        cases hfailed
        exact ih hothers
      | ok result =>
        rw [hothers] at hfailed
        cases hfailed
    · rename_i found hfirst
      cases hfailed
      exact h hfirst

theorem Blames.iterate {step : σ → Read σ} (h : ∀ state, Blames faults (step state))
    (count : Nat) (state : σ) : Blames faults (iterate step count state) := by
  induction count generalizing state with
  | zero => exact blames_pure state
  | succ count ih =>
    rw [iterate_succ]
    exact (h state).bind ih

theorem Blames.timesWith {item : σ → Read (α × σ)} (h : ∀ state, Blames faults (item state))
    (count : Nat) (state : σ) : Blames faults (timesWith count state item) :=
  (iterate (fun _ => (h _).bind fun _ => blames_pure _) count _).bind fun _ => blames_pure _

/-- The errors of a reader on a whole byte string. -/
theorem Blames.parse {program : Read α} (h : Blames faults program) {subject : String}
    {bytes : Bytes} {error : Error} (hfailed : program.parse subject bytes = .error error) :
    faults error := by
  rw [Read.parse] at hfailed
  split at hfailed
  · cases hfailed
  · rename_i found hread
    cases hfailed
    exact h hread

/-! ### Bits, bytes and words -/

section

variable [IncludesBytes faults]

theorem blames_truncated : Blames faults (truncated : Read α) := by
  rintro reader _ ⟨⟩
  exact of_bytes rfl

theorem blames_bit : Blames faults bit := by
  intro reader error h
  rw [bit] at h
  split at h
  · cases h
  · cases h
  · exact blames_truncated h

theorem blames_bits (count : Nat) : Blames faults (bits count) :=
  (blames_bit.times count).bind fun _ => blames_pure _

theorem blames_skipBits (count : Nat) : Blames faults (skipBits count) :=
  (blames_bit.times count).bind fun _ => blames_pure _

theorem blames_byte : Blames faults byte := by
  intro reader error h
  rw [byte] at h
  split at h
  · cases h
  · exact (blames_bits 8).map UInt8.ofNat h

theorem blames_uint16 : Blames faults uint16 :=
  blames_byte.bind fun _ => blames_byte.bind fun _ => blames_pure _

theorem blames_int16 : Blames faults int16 :=
  blames_uint16.map _

theorem blames_uint24 : Blames faults uint24 :=
  blames_byte.bind fun _ => blames_uint16.bind fun _ => blames_pure _

theorem blames_uint32 : Blames faults uint32 :=
  blames_uint16.bind fun _ => blames_uint16.bind fun _ => blames_pure _

theorem blames_bytes (count : Nat) : Blames faults (bytes count) := by
  refine blames_align.bind fun _ => .get_bind fun reader => ?_
  split
  · exact (blames_set _).bind fun _ => blames_pure _
  · exact blames_truncated

theorem blames_skipBytes (count : Nat) : Blames faults (skipBytes count) :=
  (blames_bytes count).bind fun _ => blames_pure _

theorem blames_finish (kind : Obu.Kind) (strict : Bool) : Blames faults (finish kind strict) :=
  blames_bytesLeft.bind fun _ => blames_ensure (of_bytes rfl)

end

end Read

open Read (Blames blames_pure blames_throw blames_ensure)

variable {faults : Error → Prop} [IncludesBytes faults]

theorem ReadMode.blames_checkCount (mode : ReadMode) (count : Nat) (subject : String) :
    Blames faults (mode.checkCount count subject) :=
  Read.blames_bytesLeft.bind fun _ => blames_ensure (of_bytes rfl)

/-! ### Numbers -/

theorem Leb128.blames_readFrom (left index value : Nat) :
    Blames faults (readFrom left index value) := by
  -- By induction on the bytes that the number may still have.
  induction left generalizing index value with
  | zero => exact blames_throw (of_bytes rfl)
  | succ left ih =>
    refine Read.blames_byte.bind fun byte => (blames_ensure (of_bytes rfl)).bind fun _ => ?_
    split
    · exact blames_pure _
    · exact ih _ _

theorem Leb128.blames_readSized : Blames faults readSized :=
  blames_readFrom _ _ _

theorem Leb128.blames_read : Blames faults read :=
  blames_readSized.map _

/-! ### Headers of OBUs -/

namespace Obu.Header

theorem blames_readTrim (present : Bool) : Blames faults (readTrim present) := by
  cases present with
  | false => exact blames_pure _
  | true =>
    exact Leb128.blames_readSized.bind fun _ =>
      Leb128.blames_readSized.bind fun _ => blames_pure _

theorem blames_readExtensionSize (present : Bool) : Blames faults (readExtensionSize present) := by
  cases present with
  | false => exact blames_pure _
  | true =>
    exact Leb128.blames_readSized.bind fun _ =>
      (blames_ensure (of_bytes rfl)).bind fun _ => blames_pure _

theorem blames_read : Blames faults read :=
  Read.blames_byte.bind fun _ => Leb128.blames_readSized.bind fun _ =>
    (blames_ensure (of_bytes rfl)).bind fun _ => (blames_readTrim _).bind fun _ =>
    (blames_readExtensionSize _).bind fun _ => (blames_ensure (of_bytes rfl)).bind fun _ =>
    (blames_ensure (of_bytes rfl)).bind fun _ => blames_pure _

end Obu.Header

end Iamf
