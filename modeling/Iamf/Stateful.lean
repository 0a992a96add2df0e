import Iamf.Error

/-!
# `Iamf.Stateful`: programs on a state that outlives a failure

Registries, demuxers and muxers are values that operations change. An operation
is a `Stateful` program: it gives the state after it, and either a value or an
`Error`. A failure does not undo what was done before it; where nothing may
have changed, that is a property of the operation.

The lemmas say when a program succeeds.
-/

set_option autoImplicit false

namespace Iamf

/-- A program on a state, which may fail. -/
abbrev Stateful (σ α : Type) := EStateM Error σ α

namespace Stateful

/-- Runs a program on a part of the state. -/
def onPart {σ τ α : Type} (part : σ → τ) (update : σ → τ → σ) (program : Stateful τ α) :
    Stateful σ α := fun state =>
  match program (part state) with
  | .ok value after => .ok value (update state after)
  | .error error after => .error error (update state after)

theorem pure_eq_ok {σ α : Type} {value result : α} {state after : σ} :
    (pure value : Stateful σ α) state = .ok result after ↔ value = result ∧ state = after := by
  simp [pure, EStateM.pure]

theorem bind_eq_ok {σ α β : Type} {first : Stateful σ α} {next : α → Stateful σ β}
    {state after : σ} {result : β} :
    (first >>= next) state = .ok result after
      ↔ ∃ value middle, first state = .ok value middle
          ∧ next value middle = .ok result after := by
  simp only [bind, EStateM.bind]
  cases first state with
  | ok value middle =>
    constructor
    · exact fun h => ⟨_, _, rfl, h⟩
    · rintro ⟨_, _, ⟨⟩, h⟩
      exact h
  | error error middle => simp

theorem liftExcept_eq_ok {σ α : Type} {outcome : Except Error α} {state after : σ}
    {result : α} :
    (liftExcept outcome : Stateful σ α) state = .ok result after
      ↔ outcome = .ok result ∧ state = after := by
  cases outcome with
  | ok value => simp [liftExcept, pure, EStateM.pure]
  | error error =>
    constructor
    · rintro ⟨⟩
    · rintro ⟨⟨⟩, -⟩

theorem modify_eq_ok {σ : Type} {f : σ → σ} {state after : σ} {result : Unit} :
    (modify f : Stateful σ Unit) state = .ok result after ↔ f state = after := by
  constructor
  · rintro ⟨⟩
    rfl
  · rintro rfl
    rfl

theorem onPart_eq_ok {σ τ α : Type} {part : σ → τ} {update : σ → τ → σ}
    {program : Stateful τ α} {state after : σ} {result : α} :
    onPart part update program state = .ok result after
      ↔ ∃ changed, program (part state) = .ok result changed
          ∧ update state changed = after := by
  simp only [onPart]
  cases program (part state) with
  | ok value changed =>
    constructor
    · rintro ⟨⟩
      exact ⟨_, rfl, rfl⟩
    · rintro ⟨_, ⟨⟩, rfl⟩
      rfl
  | error error changed => simp

end Stateful

end Iamf
