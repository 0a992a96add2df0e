import Iamf.Proofs.Wire.Consumes

/-!
# `Iamf.Proofs.Checked.Arithmetic`: arithmetic that may be refused

The readers of this library count with natural numbers and take lists apart, so
nothing there can go out of range. A machine counts with words of a fixed width and
reaches into byte strings by position, and it stops when a result does not fit or a
position is not there. The modules below `Iamf.Proofs.Checked` carry out what a
demuxer does in this way, every sum, difference, product, quotient, shift, index and
slice with a check, and show that it comes to the same: no check is ever missed.

Here are the operations, each with a lemma that says when it goes through. They work
in any monad that can stop, so that a program on a cursor or on a source uses them as
they are.

* `Stop`: a program stops because its input is malformed, or on a fault of its own.
* `add_of`, `sub_of`, ...: an operation in range is the plain one.
-/

set_option autoImplicit false

namespace Iamf.Checked

/-- What a machine does not compute. -/
inductive Fault where
  /-- A sum or a product that does not fit into its word. -/
  | overflow
  /-- A difference below zero. -/
  | underflow
  /-- A quotient by zero. -/
  | zeroDivision
  /-- A shift by the width of the word, or more. -/
  | shift
  /-- A position outside of a list. -/
  | index
  /-- An assertion that does not hold. -/
  | assertion
  /-- A loop that does not come to its end in the rounds that it has. -/
  | endless
  deriving DecidableEq, Repr

/-- Why a program stops. -/
inductive Stop where
  /-- An error that the program reports. -/
  | failed (error : Error)
  /-- A fault of the program. -/
  | faulted (fault : Fault)
  deriving DecidableEq, Repr

section

variable {m : Type → Type} [Monad m] [MonadExceptOf Stop m] {α : Type}

/-- Stops with an error. -/
def fail (error : Error) : m α :=
  throw (.failed error)

/-- Stops with an error unless the condition holds. -/
def require (condition : Prop) [Decidable condition] (error : Error) : m Unit :=
  if condition then pure () else fail error

/-- Goes on with a value that a condition stands for, and faults otherwise. -/
def guarded (condition : Prop) [Decidable condition] (fault : Fault) (value : α) : m α :=
  if condition then pure value else throw (.faulted fault)

/-- A sum of words of the given width. -/
def add (width a b : Nat) : m Nat :=
  guarded (a + b < 2 ^ width) .overflow (a + b)

/-- A difference of words. -/
def sub (a b : Nat) : m Nat :=
  guarded (b ≤ a) .underflow (a - b)

/-- A product of words of the given width. -/
def mul (width a b : Nat) : m Nat :=
  guarded (a * b < 2 ^ width) .overflow (a * b)

/-- A quotient of words. -/
def div (a b : Nat) : m Nat :=
  guarded (b ≠ 0) .zeroDivision (a / b)

/-- A word of the given width, shifted left; bits beyond the width are lost. -/
def shiftLeft (width a count : Nat) : m Nat :=
  guarded (count < width) .shift (a <<< count % 2 ^ width)

/-- A word of the given width, shifted right. -/
def shiftRight (width a count : Nat) : m Nat :=
  guarded (count < width) .shift (a >>> count)

/-- The sum of some words of the given width, from the first one on. -/
def sum (width : Nat) (values : List Nat) : m Nat :=
  values.foldlM (add width) 0

/-- The item at a position. -/
def index (items : List α) (position : Nat) : m α :=
  match items[position]? with
  | some item => pure item
  | none => throw (.faulted .index)

/-- The items from one position up to another. -/
def slice (items : List α) (start stop : Nat) : m (List α) :=
  guarded (start ≤ stop ∧ stop ≤ items.length) .index ((items.take stop).drop start)

/-- What has to hold here. -/
def assert (condition : Prop) [Decidable condition] : m Unit :=
  guarded condition .assertion ()

/-! ### Operations in range -/

theorem guarded_of {condition : Prop} [Decidable condition] {fault : Fault} {value : α}
    (h : condition) : (guarded condition fault value : m α) = pure value :=
  if_pos h

theorem require_of {condition : Prop} [Decidable condition] {error : Error} (h : condition) :
    (require condition error : m Unit) = pure () :=
  if_pos h

theorem require_of_not {condition : Prop} [Decidable condition] {error : Error}
    (h : ¬ condition) : (require condition error : m Unit) = fail error :=
  if_neg h

theorem assert_of {condition : Prop} [Decidable condition] (h : condition) :
    (assert condition : m Unit) = pure () :=
  guarded_of h

variable {width a b : Nat}

theorem add_of (h : a + b < 2 ^ width) : (add width a b : m Nat) = pure (a + b) :=
  guarded_of h

theorem sub_of (h : b ≤ a) : (sub a b : m Nat) = pure (a - b) :=
  guarded_of h

theorem mul_of (h : a * b < 2 ^ width) : (mul width a b : m Nat) = pure (a * b) :=
  guarded_of h

theorem div_of (h : b ≠ 0) : (div a b : m Nat) = pure (a / b) :=
  guarded_of h

theorem shiftRight_of (h : b < width) : (shiftRight width a b : m Nat) = pure (a >>> b) :=
  guarded_of h

/-- A shift to the left loses nothing when the result fits. -/
theorem shiftLeft_of (h : b < width) (hfits : a <<< b < 2 ^ width) :
    (shiftLeft width a b : m Nat) = pure (a <<< b) := by
  rw [shiftLeft, guarded_of h, Nat.mod_eq_of_lt hfits]

theorem index_of {items : List α} {position : Nat} {item : α} (h : items[position]? = some item) :
    (index items position : m α) = pure item := by
  rw [index, h]

theorem slice_of {items : List α} {start stop : Nat} (hstart : start ≤ stop)
    (hstop : stop ≤ items.length) :
    (slice items start stop : m (List α)) = pure ((items.take stop).drop start) :=
  guarded_of ⟨hstart, hstop⟩

/-- The sum of some words is there when it fits, since then so does every sum on the way. -/
theorem sum_of [LawfulMonad m] {values : List Nat} (h : values.sum < 2 ^ width) :
    (sum width values : m Nat) = pure values.sum := by
  -- With the sum so far generalised: what is still to come is in range along with it.
  suffices hfold : ∀ start, start + values.sum < 2 ^ width →
      (values.foldlM (add width) start : m Nat) = pure (start + values.sum) by
    rw [sum, hfold 0 (by omega), Nat.zero_add]
  clear h
  induction values with
  | nil => exact fun start _ => rfl
  | cons value values ih =>
    intro start h
    rw [List.sum_cons] at h ⊢
    rw [List.foldlM_cons, add_of (by omega), pure_bind, ih _ (by omega), Nat.add_assoc]

end

/-! ### Outcomes -/

/-- An outcome that knows no faults, among those that may. -/
def raise {α : Type} (outcome : Except Error α) : Except Stop α :=
  outcome.mapError .failed

theorem raise_bind {α β : Type} (first : Except Error α) (next : α → Except Error β) :
    raise (first >>= next) = raise first >>= fun value => raise (next value) := by
  cases first <;> rfl

theorem outcome_bind_of_ok {ε α β : Type} {first : Except ε α} {next : α → Except ε β} {value : α}
    (h : first = .ok value) : (first >>= next) = next value := by
  rw [h]
  rfl

end Iamf.Checked
