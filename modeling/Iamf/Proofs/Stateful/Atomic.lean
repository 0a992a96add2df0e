import Iamf.Proofs.Wire.Consumes

/-!
# `Iamf.Proofs.Stateful.Atomic`: programs that fail without a trace

A failure does not undo what a program did before it. Where nothing is left of a
program that fails, this comes from the order of its steps alone: all that can
fail stands in front of all that changes the state. `Atomic` says that nothing is
left, `Total` that nothing can fail, and a program is atomic when an atomic one is
followed by total ones.

Runs of atomic programs can be cleared of those that fail. The other ones meet the
states that they met before, and give what they gave.

* `Atomic.bind`: what can fail, and then what cannot.
* `run_succeeding`, `history_succeeding`: a run without the programs that fail.
-/

set_option autoImplicit false

namespace Iamf.Stateful

variable {σ τ α β : Type}

/-- The program cannot fail. -/
def Total (program : Stateful σ α) : Prop :=
  ∀ state, ∃ value after, program state = .ok value after

/-- If the program fails, it leaves the state as it was. -/
def Atomic (program : Stateful σ α) : Prop :=
  ∀ ⦃state : σ⦄ ⦃error : Error⦄ ⦃after : σ⦄, program state = .error error after → after = state

theorem total_modify (f : σ → σ) : Total (modify f : Stateful σ PUnit) :=
  fun state => ⟨(), f state, rfl⟩

theorem Total.bind {program : Stateful σ β} {next : β → Stateful σ α} (h : Total program)
    (hnext : ∀ value, Total (next value)) : Total (program >>= next) := by
  intro state
  obtain ⟨value, middle, hprogram⟩ := h state
  obtain ⟨result, after, hrun⟩ := hnext value middle
  exact ⟨result, after, (bind_of_ok hprogram).trans hrun⟩

theorem Total.atomic {program : Stateful σ α} (h : Total program) : Atomic program := by
  intro state error after hfailed
  obtain ⟨value, other, hrun⟩ := h state
  rw [hrun] at hfailed
  cases hfailed

theorem atomic_throw (error : Error) : Atomic (throw error : Stateful σ α) := by
  rintro state _ _ ⟨⟩
  rfl

theorem atomic_ensure (condition : Prop) [Decidable condition] (error : Error) :
    Atomic (ensure condition error : Stateful σ Unit) := by
  rw [ensure]
  split
  · exact Total.atomic fun state => ⟨(), state, rfl⟩
  · exact atomic_throw error

/-- Behind what cannot fail any more, nothing has to be undone. -/
theorem Atomic.bind {program : Stateful σ β} {next : β → Stateful σ α} (h : Atomic program)
    (hnext : ∀ value, Total (next value)) : Atomic (program >>= next) := by
  intro state error after hfailed
  cases hprogram : program state with
  | ok value middle =>
    obtain ⟨result, other, hrun⟩ := hnext value middle
    rw [bind_of_ok hprogram, hrun] at hfailed
    cases hfailed
  | error found middle =>
    rw [bind_of_error hprogram] at hfailed
    cases hfailed
    exact h hprogram

/-- A settled outcome changes nothing, whether it is a value or an error. -/
theorem Atomic.lift_bind {outcome : Except Error β} {next : β → Stateful σ α}
    (h : ∀ value, Atomic (next value)) : Atomic (liftExcept outcome >>= next) := by
  intro state error after hfailed
  rw [Stateful.lift_bind] at hfailed
  cases outcome with
  | ok value => exact h value hfailed
  | error found =>
    cases hfailed
    rfl

/-- Nor does a look at the state. -/
theorem Atomic.get_bind {next : σ → Stateful σ α} (h : ∀ state, Atomic (next state)) :
    Atomic (get >>= next) :=
  fun state _ _ hfailed => h state hfailed

/-- Nor does a test. -/
theorem Atomic.ensure_bind {condition : Prop} [Decidable condition] {error : Error}
    {next : Stateful σ α} (h : Atomic next) :
    Atomic (ensure condition error >>= fun _ => next) := by
  rw [ensure]
  split
  · exact h
  · rintro state _ _ ⟨⟩
    rfl

/-- An atomic program on a part of the state is atomic on all of it. -/
theorem Atomic.onPart {part : σ → τ} {update : σ → τ → σ} {program : Stateful τ α}
    (hsame : ∀ state, update state (part state) = state) (h : Atomic program) :
    Atomic (Stateful.onPart part update program) := by
  intro state error after hfailed
  rw [Stateful.onPart] at hfailed
  cases hprogram : program (part state) with
  | ok value changed =>
    rw [hprogram] at hfailed
    cases hfailed
  | error found changed =>
    rw [hprogram] at hfailed
    cases hfailed
    rw [h hprogram, hsame]

/-! ### Runs -/

variable {ι : Type}

/-- The state that a program leaves, whether it succeeds or fails. -/
def left (program : Stateful σ α) (state : σ) : σ :=
  match program state with
  | .ok _ after => after
  | .error _ after => after

/-- What a program gives: nothing, or an error. -/
def outcome (program : Stateful σ Unit) (state : σ) : Except Error Unit :=
  match program state with
  | .ok _ _ => .ok ()
  | .error error _ => .error error

section

variable (program : ι → Stateful σ Unit)

/-- The state that is left after some operations, each of which runs a program. -/
def run (state : σ) (operations : List ι) : σ :=
  operations.foldl (fun state operation => left (program operation) state) state

/-- The operations of a run, each with what it gives where it stands. -/
def history (state : σ) : List ι → List (ι × Except Error Unit)
  | [] => []
  | operation :: operations =>
    (operation, outcome (program operation) state)
      :: history (left (program operation) state) operations

/-- The operations of a run that succeed. -/
def succeeding (state : σ) (operations : List ι) : List ι :=
  ((history program state operations).filter (·.2.isOk)).map (·.1)

end

variable {program : ι → Stateful σ Unit} {state : σ} {operation : ι}

/-- A program that succeeds, and what it leaves. -/
theorem eq_ok_of_outcome {program : Stateful σ Unit} (h : (outcome program state).isOk = true) :
    program state = .ok () (left program state) := by
  rw [left]
  cases hrun : program state with
  | ok _ after => rfl
  | error error after =>
    rw [outcome, hrun] at h
    cases h

/-- An atomic program that fails leaves the state as it was. -/
theorem Atomic.left_eq {program : Stateful σ Unit} (hatomic : Atomic program)
    (h : (outcome program state).isOk = false) : left program state = state := by
  rw [left]
  cases hrun : program state with
  | ok _ after =>
    rw [outcome, hrun] at h
    cases h
  | error error after => exact hatomic hrun

/-- An operation that succeeds stays where it is. -/
theorem succeeding_cons_of_ok (operations : List ι)
    (h : (outcome (program operation) state).isOk = true) :
    succeeding program state (operation :: operations)
      = operation :: succeeding program (left (program operation) state) operations := by
  rw [succeeding, history, List.filter_cons_of_pos (by exact h), List.map_cons, succeeding]

/-- One that fails is passed over, in the state that it has met. -/
theorem succeeding_cons_of_error (operations : List ι) (hatomic : Atomic (program operation))
    (h : (outcome (program operation) state).isOk = false) :
    succeeding program state (operation :: operations) = succeeding program state operations := by
  rw [succeeding, history, List.filter_cons_of_neg (by simp [h]), hatomic.left_eq h, succeeding]

/-- Without the operations that fail, a run leads to the same state. -/
theorem run_succeeding (hatomic : ∀ operation, Atomic (program operation)) (state : σ)
    (operations : List ι) :
    run program state (succeeding program state operations) = run program state operations := by
  induction operations generalizing state with
  | nil => rfl
  | cons operation operations ih =>
    cases houtcome : (outcome (program operation) state).isOk with
    | true =>
      rw [succeeding_cons_of_ok operations houtcome]
      exact ih _
    | false =>
      rw [succeeding_cons_of_error operations (hatomic operation) houtcome, ih, run, run,
        List.foldl_cons, (hatomic operation).left_eq houtcome]

/-- The others give what they gave. -/
theorem history_of_succeeding (hatomic : ∀ operation, Atomic (program operation)) (state : σ)
    (operations : List ι) :
    history program state (succeeding program state operations)
      = (history program state operations).filter (·.2.isOk) := by
  induction operations generalizing state with
  | nil => rfl
  | cons operation operations ih =>
    cases houtcome : (outcome (program operation) state).isOk with
    | true =>
      rw [succeeding_cons_of_ok operations houtcome, history, history,
        List.filter_cons_of_pos (by exact houtcome), ih]
    | false =>
      rw [succeeding_cons_of_error operations (hatomic operation) houtcome, history,
        List.filter_cons_of_neg (by simp [houtcome]), (hatomic operation).left_eq houtcome, ih]

/-- What every operation that succeeds does to the state goes along a run of atomic
ones. -/
theorem run_induction {motive : σ → List ι → Prop}
    (hatomic : ∀ operation, Atomic (program operation))
    (hnil : ∀ state, motive state [])
    (hcons : ∀ state operation after operations, program operation state = .ok () after →
      motive after operations → motive state (operation :: operations))
    (state : σ) (operations : List ι) : motive state (succeeding program state operations) := by
  induction operations generalizing state with
  | nil => exact hnil state
  | cons operation operations ih =>
    cases houtcome : (outcome (program operation) state).isOk with
    | true =>
      rw [succeeding_cons_of_ok operations houtcome]
      exact hcons _ _ _ _ (eq_ok_of_outcome houtcome) (ih _)
    | false =>
      rw [succeeding_cons_of_error operations (hatomic operation) houtcome]
      exact ih state

end Iamf.Stateful
