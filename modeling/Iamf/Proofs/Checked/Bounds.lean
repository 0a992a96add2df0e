import Iamf.Proofs.Checked.Cursor
import Iamf.Proofs.Checked.Following
import Iamf.Proofs.Checked.Refinement

/-!
# `Iamf.Proofs.Checked.Bounds`: cursors that stay in their byte string

A cursor may be used again after a program on it has failed. So that it is never beyond
the end of its byte string (`Cursor.IsIn`) is not only a matter of where programs lead,
but also of where they stop. `attempt` makes a program one that moves the cursor only
where it goes through, and longer programs are put together from such steps.

Nothing is assumed of the size of the byte string. Where its bits cannot be counted in a
word a program ends with a fault, and the cursor has not moved.

* `StaysIn`: where a program goes through, the cursor is not beyond the end.
* `KeepsIn`: nor is it where the program stops.
* `outcome_attempt`, `outcome_bind`: what a program comes to, apart from where it stops.
-/

set_option autoImplicit false

namespace Iamf.Checked

/-- The cursor is in this byte string, and not beyond its end. -/
structure Cursor.IsIn (subject : String) (data : Bytes) (cursor : Cursor) : Prop where
  subject_eq : cursor.subject = subject
  data_eq : cursor.data = data
  inside : cursor.position ≤ 8 * data.length

section

variable {α β : Type} {subject : String} {data : Bytes} {cursor next : Cursor} {count : Nat}

theorem Cursor.IsIn.ahead (h : cursor.IsIn subject data)
    (hcount : count ≤ 8 * cursor.data.length - cursor.position) :
    (cursor.ahead count).IsIn subject data where
  subject_eq := h.subject_eq
  data_eq := h.data_eq
  inside := by
    have hinside := h.inside
    rw [h.data_eq] at hcount
    rw [Cursor.ahead_position]
    omega

/-- The end of a byte string is a byte boundary. -/
theorem Cursor.IsIn.aligned (h : cursor.IsIn subject data) : cursor.aligned.IsIn subject data where
  subject_eq := h.subject_eq
  data_eq := h.data_eq
  inside := by
    have hinside := h.inside
    show (cursor.position + 7) / 8 * 8 ≤ 8 * data.length
    omega

theorem Cursor.IsIn.addressable (h : cursor.IsIn subject data)
    (hcounted : 8 * data.length + 7 < 2 ^ 64) : cursor.Addressable := by
  obtain ⟨-, rfl, hinside⟩ := h
  exact ⟨hcounted, hinside⟩

/-! ### Where programs lead -/

theorem run_bind_eq_ok {first : Parse α} {rest : α → Parse β} {result : β × Cursor} :
    (first >>= rest) cursor = .ok result
      ↔ ∃ value middle, first cursor = .ok (value, middle) ∧ rest value middle = .ok result := by
  simp only [Bind.bind, StateT.bind, Except.bind]
  cases first cursor with
  | error stop => simp
  | ok pair =>
    constructor
    · exact fun h => ⟨_, _, rfl, h⟩
    · rintro ⟨_, _, ⟨⟩, h⟩
      exact h

theorem run_guarded_eq_ok {condition : Prop} [Decidable condition] {fault : Fault} {value : α}
    {result : α × Cursor} (h : (guarded condition fault value : Parse α) cursor = .ok result) :
    condition ∧ result = (value, cursor) := by
  rw [guarded] at h
  split at h
  · cases h
    exact ⟨‹_›, rfl⟩
  · cases h

theorem run_liftM_eq_ok {outcome : Except Stop α} {value : α}
    (h : (liftM outcome : Parse α) cursor = .ok (value, next)) : next = cursor := by
  cases outcome with
  | ok found =>
    cases h
    rfl
  | error stop => cases h

theorem bitsLeft_eq_ok {left : Nat} (h : bitsLeft cursor = .ok (left, next)) :
    left = 8 * cursor.data.length - cursor.position ∧ next = cursor := by
  rw [bitsLeft, run_get_bind] at h
  obtain ⟨total, middle, hmul, hleft⟩ := run_bind_eq_ok.1 h
  obtain ⟨-, ⟨⟩⟩ := run_guarded_eq_ok hmul
  cases hleft
  exact ⟨by rw [Nat.mul_comm], rfl⟩

theorem advance_eq_ok {value : Unit} (h : advance count cursor = .ok (value, next)) :
    next = cursor.ahead count := by
  rw [advance, run_get_bind] at h
  obtain ⟨position, middle, hadd, hset⟩ := run_bind_eq_ok.1 h
  obtain ⟨-, ⟨⟩⟩ := run_guarded_eq_ok hadd
  cases hset
  rfl

theorem align_eq_ok {value : Unit} (h : align cursor = .ok (value, next)) :
    next = cursor.aligned := by
  rw [align, run_get_bind] at h
  obtain ⟨rounded, middle, hadd, h⟩ := run_bind_eq_ok.1 h
  obtain ⟨-, ⟨⟩⟩ := run_guarded_eq_ok hadd
  obtain ⟨position, _, hmul, hset⟩ := run_bind_eq_ok.1 h
  obtain ⟨-, ⟨⟩⟩ := run_guarded_eq_ok hmul
  cases hset
  rfl

theorem bytePosition_eq_ok {start : Nat} (h : bytePosition cursor = .ok (start, next)) :
    start = min ((cursor.position + 7) / 8) cursor.data.length ∧ next = cursor := by
  rw [bytePosition, run_get_bind] at h
  obtain ⟨rounded, middle, hadd, hstart⟩ := run_bind_eq_ok.1 h
  obtain ⟨-, ⟨⟩⟩ := run_guarded_eq_ok hadd
  cases hstart
  exact ⟨rfl, rfl⟩

/-- Where the program goes through, it leads to a cursor that is not beyond the end. -/
def StaysIn (program : Parse α) : Prop :=
  ∀ ⦃subject : String⦄ ⦃data : Bytes⦄ ⦃cursor next : Cursor⦄ ⦃value : α⦄,
    cursor.IsIn subject data → program cursor = .ok (value, next) → next.IsIn subject data

theorem staysIn_pure (value : α) : StaysIn (pure value) := by
  rintro subject data cursor _ _ h ⟨⟩
  exact h

theorem staysIn_guarded {condition : Prop} [Decidable condition] {fault : Fault} {value : α} :
    StaysIn (guarded condition fault value) := by
  intro subject data cursor next found h hrun
  obtain ⟨-, ⟨⟩⟩ := run_guarded_eq_ok hrun
  exact h

theorem staysIn_require {condition : Prop} [Decidable condition] {error : Error} :
    StaysIn (require condition error) := by
  intro subject data cursor next found h hrun
  rw [require] at hrun
  split at hrun
  · exact staysIn_pure () h hrun
  · cases hrun

theorem StaysIn.bind {first : Parse α} {rest : α → Parse β} (h : StaysIn first)
    (hrest : ∀ value, StaysIn (rest value)) : StaysIn (first >>= rest) := by
  intro subject data cursor next value hcursor hrun
  obtain ⟨found, middle, hmiddle, hlast⟩ := run_bind_eq_ok.1 hrun
  exact hrest found (h hcursor hmiddle) hlast

theorem StaysIn.map {program : Parse α} (f : α → β) (h : StaysIn program) :
    StaysIn (f <$> program) := by
  rw [map_eq_pure_bind]
  exact h.bind fun _ => staysIn_pure _

theorem staysIn_bits (count : Nat) : StaysIn (bits count) := by
  intro subject data cursor next value h hrun
  rw [bits] at hrun
  obtain ⟨peeked, middle, hpeek, hrun⟩ := run_bind_eq_ok.1 hrun
  obtain ⟨_, last, hadvance, hvalue⟩ := run_bind_eq_ok.1 hrun
  cases hvalue
  -- Looking at bits finds that there are enough of them, and moves nothing.
  have hplace : count ≤ 8 * cursor.data.length - cursor.position ∧ middle = cursor := by
    rw [peekBits] at hpeek
    obtain ⟨_, _, hassert, hpeek⟩ := run_bind_eq_ok.1 hpeek
    obtain ⟨-, ⟨⟩⟩ := run_guarded_eq_ok hassert
    obtain ⟨left, _, hleft, hpeek⟩ := run_bind_eq_ok.1 hpeek
    obtain ⟨rfl, rfl⟩ := bitsLeft_eq_ok hleft
    split at hpeek
    · cases hpeek
    · exact ⟨by omega, run_liftM_eq_ok hpeek⟩
  obtain ⟨hcount, rfl⟩ := hplace
  rw [advance_eq_ok hadvance]
  exact h.ahead hcount

theorem staysIn_skipBits (count : Nat) : StaysIn (skipBits count) := by
  intro subject data cursor next value h hrun
  rw [skipBits] at hrun
  obtain ⟨left, middle, hleft, hrun⟩ := run_bind_eq_ok.1 hrun
  obtain ⟨rfl, rfl⟩ := bitsLeft_eq_ok hleft
  split at hrun
  · cases hrun
  · rw [advance_eq_ok hrun]
    exact h.ahead (by omega)

theorem staysIn_align : StaysIn align := by
  intro subject data cursor next value h hrun
  rw [align_eq_ok hrun]
  exact h.aligned

theorem staysIn_bytes (count : Nat) : StaysIn (bytes count) := by
  refine staysIn_align.bind fun _ => ?_
  intro subject data cursor next value h hrun
  obtain ⟨start, _, hstart, hrun⟩ := run_bind_eq_ok.1 hrun
  obtain ⟨rfl, rfl⟩ := bytePosition_eq_ok hstart
  rw [run_get_bind] at hrun
  -- The whole bytes that are tested for start no earlier than the cursor is.
  obtain ⟨left, _, hsub, hrun⟩ := run_bind_eq_ok.1 hrun
  obtain ⟨-, ⟨⟩⟩ := run_guarded_eq_ok hsub
  split at hrun
  · cases hrun
  · obtain ⟨length, _, hmul, hrun⟩ := run_bind_eq_ok.1 hrun
    obtain ⟨-, ⟨⟩⟩ := run_guarded_eq_ok hmul
    obtain ⟨_, last, hadvance, hrun⟩ := run_bind_eq_ok.1 hrun
    obtain ⟨stop, _, hadd, hslice⟩ := run_bind_eq_ok.1 hrun
    obtain ⟨-, ⟨⟩⟩ := run_guarded_eq_ok hadd
    obtain ⟨-, ⟨⟩⟩ := run_guarded_eq_ok hslice
    rw [advance_eq_ok hadvance]
    exact h.ahead (by omega)

theorem staysIn_rest : StaysIn rest := by
  refine staysIn_align.bind fun _ => ?_
  intro subject data cursor next value h hrun
  obtain ⟨start, _, hstart, hrun⟩ := run_bind_eq_ok.1 hrun
  obtain ⟨rfl, rfl⟩ := bytePosition_eq_ok hstart
  rw [run_get_bind] at hrun
  obtain ⟨position, _, hmul, hrun⟩ := run_bind_eq_ok.1 hrun
  obtain ⟨-, ⟨⟩⟩ := run_guarded_eq_ok hmul
  rw [run_set_bind] at hrun
  obtain ⟨-, ⟨⟩⟩ := run_guarded_eq_ok hrun
  exact ⟨h.subject_eq, h.data_eq, by rw [← h.data_eq, Nat.mul_comm]⟩

theorem staysIn_joinGroup (index value group : Nat) :
    StaysIn (numberFrom.joinGroup index value group) := by
  rw [numberFrom.joinGroup]
  split
  · exact staysIn_guarded.bind fun _ => staysIn_guarded.bind fun _ => staysIn_pure _
  · exact staysIn_require.bind fun _ => staysIn_pure _

/-! ### Where programs stop -/

/-- The program as a step that moves the cursor only where it goes through. -/
def attempt (program : Parse α) : Run Cursor α := fun cursor =>
  match program cursor with
  | .ok (value, next) => .ok value next
  | .error stop => .error stop cursor

/-- What a program comes to, apart from where it stops. -/
def outcome (program : Run Cursor α) : Parse α := fun cursor =>
  match program cursor with
  | .ok value next => .ok (value, next)
  | .error stop _ => .error stop

/-- Where the cursor is after a program, whatever it has come to. -/
def left (program : Run Cursor α) (cursor : Cursor) : Cursor :=
  match program cursor with
  | .ok _ next => next
  | .error _ next => next

theorem outcome_attempt (program : Parse α) : outcome (attempt program) = program := by
  funext cursor
  rw [outcome, attempt]
  cases program cursor <;> rfl

theorem outcome_pure (value : α) : outcome (pure value) = pure value := rfl

theorem outcome_bind (first : Run Cursor α) (rest : α → Run Cursor β) :
    outcome (first >>= rest) = outcome first >>= fun value => outcome (rest value) := by
  funext cursor
  simp only [outcome, Bind.bind, EStateM.bind, StateT.bind, Except.bind]
  cases first cursor <;> rfl

theorem outcome_map (f : α → β) (program : Run Cursor α) :
    outcome (f <$> program) = f <$> outcome program := by
  simp only [map_eq_pure_bind, outcome_bind, outcome_pure]

theorem outcome_guarded {condition : Prop} [Decidable condition] {fault : Fault} {value : α} :
    outcome (guarded condition fault value) = guarded condition fault value := by
  rw [guarded, guarded]
  split <;> rfl

theorem ok_of_outcome {program : Run Cursor α} {value : α}
    (h : outcome program cursor = .ok (value, next)) : program cursor = .ok value next := by
  rw [outcome] at h
  split at h
  · cases h
    assumption
  · cases h

/-- From a cursor that is not beyond the end the program leads to another one, whether it
goes through or stops. -/
def KeepsIn (program : Run Cursor α) : Prop :=
  ∀ ⦃subject : String⦄ ⦃data : Bytes⦄ ⦃cursor : Cursor⦄, cursor.IsIn subject data →
    (left program cursor).IsIn subject data

theorem keepsIn_pure (value : α) : KeepsIn (pure value) :=
  fun _ _ _ h => h

theorem keepsIn_fail (error : Error) : KeepsIn (fail error : Run Cursor α) :=
  fun _ _ _ h => h

theorem StaysIn.attempt {program : Parse α} (h : StaysIn program) : KeepsIn (attempt program) := by
  intro subject data cursor hcursor
  rw [left, Checked.attempt]
  cases hrun : program cursor with
  | ok result => exact h hcursor hrun
  | error stop => exact hcursor

theorem KeepsIn.bind {first : Run Cursor α} {rest : α → Run Cursor β} (h : KeepsIn first)
    (hrest : ∀ value, KeepsIn (rest value)) : KeepsIn (first >>= rest) := by
  intro subject data cursor hcursor
  have hmiddle := h hcursor
  simp only [left, Bind.bind, EStateM.bind] at hmiddle ⊢
  revert hmiddle
  cases first cursor with
  | ok value middle => exact fun hmiddle => hrest value hmiddle
  | error stop middle => exact fun hmiddle => hmiddle

theorem KeepsIn.map {program : Run Cursor α} (f : α → β) (h : KeepsIn program) :
    KeepsIn (f <$> program) := by
  rw [map_eq_pure_bind]
  exact h.bind fun _ => keepsIn_pure _

theorem keepsIn_guarded {condition : Prop} [Decidable condition] {fault : Fault} {value : α} :
    KeepsIn (guarded condition fault value) := by
  rw [guarded]
  split
  · exact keepsIn_pure value
  · exact fun _ _ _ h => h

end

end Iamf.Checked
