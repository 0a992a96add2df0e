import Iamf.Proofs.Registry.Change
import Iamf.Proofs.Stateful.Atomic

/-!
# `Iamf.Proofs.Registry.Failing`: operations that fail

The operations on a registry change it in several steps: definitions are merged,
an element or a presentation is put behind the others. That nothing is left of an
operation that fails comes from the order of the steps alone. All that can fail
stands in front of all that changes the registry, and every `Stateful.Atomic`
below is read off a program in this order.

* `atomic_program`: the operations on a registry.
* `history_without_failures`: runs of them.
-/

set_option autoImplicit false

namespace Iamf

namespace Registry

open Stateful (Atomic Total)

/-! ### Operations -/

/-- Only an id that is taken keeps an element out, and that is tested before its
definitions are merged. -/
theorem atomic_commitAudioElement (element : AudioElement) (definitions : List Parameter) :
    Atomic (commitAudioElement element definitions) := by
  refine .get_bind fun registry => ?_
  cases element.substreams.find? (registry.isTaken element) with
  | some substream => exact Stateful.atomic_throw _
  | none =>
    exact ((Stateful.total_modify _).bind fun _ => Stateful.total_modify _).atomic

theorem total_commitMixPresentation (mix : MixPresentation) (definitions : List Parameter) :
    Total (commitMixPresentation mix definitions) :=
  (Stateful.total_modify _).bind fun _ => Stateful.total_modify _

theorem atomic_addCodecConfig (config : CodecConfig) : Atomic (addCodecConfig config) :=
  .get_bind fun _ => (Stateful.atomic_ensure _ _).bind fun _ => Stateful.total_modify _

theorem atomic_addAudioElement (element : AudioElement) : Atomic (addAudioElement element) :=
  .get_bind fun _ => .lift_bind fun _ => atomic_commitAudioElement _ _

theorem atomic_addMixPresentation (mix : MixPresentation) : Atomic (addMixPresentation mix) :=
  .get_bind fun _ => .lift_bind fun _ => (total_commitMixPresentation _ _).atomic

theorem atomic_parseDescriptor (mode : ReadMode) (kind : Obu.Kind) (body : Bytes) :
    Atomic (parseDescriptor mode kind body) := by
  refine .get_bind fun registry => ?_
  cases kind with
  | sequenceHeader => exact .lift_bind fun _ => (Stateful.total_modify _).atomic
  | codecConfig => exact .lift_bind fun config => atomic_addCodecConfig config
  | audioElement =>
    refine .lift_bind fun parsed => ?_
    cases parsed with
    | none => exact Total.atomic fun state => ⟨(), state, rfl⟩
    | some pair => exact atomic_commitAudioElement _ _
  | mixPresentation =>
    exact .lift_bind fun _ => (total_commitMixPresentation _ _).atomic
  | _ => exact Total.atomic fun state => ⟨(), state, rfl⟩

theorem atomic_program (operation : Operation) : Atomic operation.program := by
  cases operation with
  | addCodecConfig config => exact atomic_addCodecConfig config
  | addAudioElement element => exact atomic_addAudioElement element
  | addMixPresentation mix => exact atomic_addMixPresentation mix
  | parseDescriptor mode kind body => exact atomic_parseDescriptor mode kind body

/-! ### Runs -/

/-- What an operation on a registry gives: nothing, or an error. -/
def outcome (registry : Registry) (operation : Operation) : Except Error Unit :=
  match operation.program registry with
  | .ok _ _ => .ok ()
  | .error error _ => .error error

theorem outcome_eq (registry : Registry) (operation : Operation) :
    registry.outcome operation = Stateful.outcome operation.program registry := by
  rw [outcome, Stateful.outcome]
  cases operation.program registry <;> rfl

theorem perform_eq (registry : Registry) (operation : Operation) :
    registry.perform operation = Stateful.left operation.program registry := by
  rw [perform, left, Stateful.left]
  cases operation.program registry <;> rfl

theorem foldl_perform_eq (registry : Registry) (operations : List Operation) :
    operations.foldl perform registry
      = Stateful.run Operation.program registry operations := by
  rw [Stateful.run]
  congr 1
  exact funext₂ perform_eq

/-- The operations of a run, each with what it gives where it stands. -/
def history (registry : Registry) : List Operation → List (Operation × Except Error Unit)
  | [] => []
  | operation :: operations =>
    (operation, registry.outcome operation) :: history (registry.perform operation) operations

/-- The operations of a run that succeed. -/
def succeeding (registry : Registry) (operations : List Operation) : List Operation :=
  ((registry.history operations).filter (·.2.isOk)).map (·.1)

theorem history_eq (registry : Registry) (operations : List Operation) :
    registry.history operations = Stateful.history Operation.program registry operations := by
  induction operations generalizing registry with
  | nil => rfl
  | cons operation operations ih =>
    rw [history, ih, outcome_eq, perform_eq, Stateful.history]

theorem succeeding_eq (registry : Registry) (operations : List Operation) :
    registry.succeeding operations
      = Stateful.succeeding Operation.program registry operations := by
  rw [succeeding, history_eq, Stateful.succeeding]

/-- Operations that fail leave no trace, on whatever registry. A run without
those of its operations that fail leads to the same registry, and every other
operation gives what it gave. -/
theorem history_without_failures :
    (∀ operation : Operation, Atomic operation.program)
      ∧ ∀ (registry : Registry) (operations : List Operation),
        (registry.succeeding operations).foldl perform registry
            = operations.foldl perform registry
          ∧ registry.history (registry.succeeding operations)
            = (registry.history operations).filter (·.2.isOk) :=
  ⟨atomic_program, fun registry operations => by
    rw [succeeding_eq, foldl_perform_eq, foldl_perform_eq, history_eq, history_eq]
    exact ⟨Stateful.run_succeeding atomic_program registry operations,
      Stateful.history_of_succeeding atomic_program registry operations⟩⟩

/-- An element that was read with a new definition, but lists a substream twice:
nothing of it is registered, not even the definition. -/
example :
    let registry := performAll [.parseDescriptor {} .codecConfig
      [0, 0x69, 0x70, 0x63, 0x6D, 4, 0, 0, 1, 16, 0, 0, 0xBB, 0x80]]
    let element : Operation := .parseDescriptor {} .audioElement
      [1, 0, 0, 2, 20, 20, 1, 1, 9, 1, 0x80, 0, 0x20, 0x10, 2, 0]
    registry.outcome element = .error (.duplicateId .substream 20)
      ∧ registry.perform element = registry := by
  decide +kernel

end Registry

end Iamf
