import Iamf.Proofs.Registry.Recorded

/-!
# `Iamf.Proofs.Registry.Extended`: a registry only grows

Descriptors are put behind those that are there, and none is ever replaced.
Definitions of parameters are: a later one of the same id takes the place of the
one before it, with a rate, durations and values of its own. What blocks are read
by stays nevertheless, that is the kind, the timing mode and the number of
subblocks, and so does a link to an audio element once there is one.

What a merge replaces must agree with what it brings. Both ways into a registry
have made sure of that when `Change` describes their outcome, so nothing is said
here about how they did.

* `keeps_merged`: what becomes of a definition when others are merged.
* `extends_perform`: one operation; `extends_foldl_perform`: a run of them.
-/

set_option autoImplicit false

namespace Iamf

/-! ### Definitions in the place of others -/

namespace Parameter

/-- A definition and one that may stand in its place: they are of one shape, and
a link that was there is still there. -/
structure Keeps (old latest : Parameter) : Prop extends old.Agrees latest where
  link : ∀ id, old.element = some id → latest.element = some id

theorem Keeps.refl (definition : Parameter) : definition.Keeps definition :=
  ⟨.refl definition, fun _ hlink => hlink⟩

theorem Keeps.trans {first second third : Parameter} (h : first.Keeps second)
    (h' : second.Keeps third) : first.Keeps third :=
  ⟨h.toAgrees.trans h'.toAgrees, fun id hlink => h'.link id (h.link id hlink)⟩

end Parameter

namespace Registry

open Parameter (Acceptable Admits Keeps)

/-- A merge gives a definition the link of the one in whose place it comes. -/
theorem keeps_keepLink {old latest : Parameter} (h : old.Agrees latest) :
    old.Keeps (keepLink old latest) where
  toAgrees := h.trans (keepLink_agrees latest old).symm
  link := by
    intro id hlink
    show (old.element <|> latest.element) = some id
    rw [hlink]
    rfl

/-- Putting one definition into a list. -/
theorem keeps_putInto {known : List Parameter} {definition old : Parameter} {id : UInt32}
    (hadmits : Admits known definition) (hold : known.find? (·.id = id) = some old) :
    ∃ latest, (definition.putInto keepLink known).find? (·.id = id) = some latest
      ∧ old.Keeps latest := by
  by_cases hid : definition.id = id
  · rw [← hid] at hold ⊢
    refine ⟨keepLink old definition, ?_, keeps_keepLink (hadmits old hold)⟩
    rw [Parameter.find?_putInto_self fun _ => rfl, hold]
    rfl
  · exact ⟨old, (Parameter.find?_putInto_ne hid (fun _ => rfl) _).trans hold, .refl old⟩

/-- Merging any number of them, also several of one id. -/
theorem keeps_merged {known definitions : List Parameter} {id : UInt32} {old : Parameter}
    (h : Acceptable known definitions) (hold : known.find? (·.id = id) = some old) :
    ∃ latest, (merged known definitions).find? (·.id = id) = some latest ∧ old.Keeps latest := by
  induction definitions generalizing known old with
  | nil => exact ⟨old, hold, .refl old⟩
  | cons definition definitions ih =>
    obtain ⟨middle, hmiddle, hkeeps⟩ :=
      keeps_putInto (h.admitted definition List.mem_cons_self) hold
    obtain ⟨latest, hlatest, hkeeps'⟩ := ih (acceptable_putInto h) hmiddle
    exact ⟨latest, hlatest, hkeeps.trans hkeeps'⟩

/-- New ids go behind those that are defined, whatever is merged. -/
theorem map_id_prefix_merged (known definitions : List Parameter) :
    known.map (·.id) <+: (merged known definitions).map (·.id) := by
  induction definitions generalizing known with
  | nil => exact List.prefix_rfl
  | cons definition definitions ih =>
    have hfirst : known.map (·.id) <+: (definition.putInto keepLink known).map (·.id) := by
      rw [Parameter.map_id_putInto fun _ => rfl]
      split
      · exact List.prefix_rfl
      · exact List.prefix_append _ _
    exact hfirst.trans (ih _)

/-! ### Registries that grow -/

/-- The second registry has all that the first one has: its descriptors, in the
same places and unchanged, and a definition for every one of its definitions,
in the place of that one if not the same. -/
structure Extends (before after : Registry) : Prop extends before.Within after where
  parameterIds : before.parameters.map (·.id) <+: after.parameters.map (·.id)
  definitions : ∀ id old, before.parameter? id = some old →
    ∃ latest, after.parameter? id = some latest ∧ old.Keeps latest

theorem Extends.refl (registry : Registry) : registry.Extends registry where
  codecConfigs := List.prefix_rfl
  audioElements := List.prefix_rfl
  mixPresentations := List.prefix_rfl
  parameterIds := List.prefix_rfl
  definitions := fun _ old hold => ⟨old, hold, .refl old⟩

theorem Extends.trans {first second third : Registry} (h : first.Extends second)
    (h' : second.Extends third) : first.Extends third where
  toWithin := h.toWithin.trans h'.toWithin
  parameterIds := h.parameterIds.trans h'.parameterIds
  definitions := by
    intro id old hold
    obtain ⟨middle, hmiddle, hkeeps⟩ := h.definitions id old hold
    obtain ⟨latest, hlatest, hkeeps'⟩ := h'.definitions id middle hmiddle
    exact ⟨latest, hlatest, hkeeps.trans hkeeps'⟩

/-- Whatever an operation does to a registry, the registry has grown. -/
theorem Change.extends {registry after : Registry} (h : Change registry after) :
    registry.Extends after := by
  have hself := Extends.refl registry
  cases h with
  | nothing => exact hself
  | sequenceHeader header => exact { hself with }
  | codecConfig config fresh => exact { hself with codecConfigs := List.prefix_append _ _ }
  | audioElement element definitions admits =>
    exact { hself with
      audioElements := List.prefix_append _ _
      parameterIds := map_id_prefix_merged _ _
      definitions := fun _ _ hold => keeps_merged admits.acceptable hold }
  | mixPresentation mix definitions admits =>
    exact { hself with
      mixPresentations := List.prefix_append _ _
      parameterIds := map_id_prefix_merged _ _
      definitions := fun _ _ hold => keeps_merged admits.acceptable hold }

theorem extends_perform (registry : Registry) (operation : Operation) :
    registry.Extends (registry.perform operation) :=
  (change_perform registry operation).extends

/-- No operation on a registry, and no run of them, takes back anything that was
registered: descriptors stay as they are and where they are, ids stay defined,
and a definition that is replaced leaves its shape and its link. -/
theorem extends_foldl_perform (registry : Registry) (operations : List Operation) :
    registry.Extends (operations.foldl perform registry) := by
  induction operations generalizing registry with
  | nil => exact .refl registry
  | cons operation operations ih => exact (extends_perform registry operation).trans (ih _)

/-- A second element defines the parameter of the first one again, at another
rate. Blocks are still those of the first element. -/
example :
    let registry := performAll [
      .parseDescriptor {} .codecConfig
        [0, 0x69, 0x70, 0x63, 0x6D, 4, 0, 0, 1, 16, 0, 0, 0xBB, 0x80],
      .parseDescriptor {} .audioElement [1, 0, 0, 1, 20, 1, 1, 9, 1, 0x80, 0, 0x20, 0, 1, 0],
      .parseDescriptor {} .audioElement [2, 0, 0, 1, 21, 1, 1, 9, 2, 0x80, 0, 0x20, 0, 1, 0]]
    registry.audioElements.length = 2
      ∧ (registry.parameter? 9).map (fun definition => (definition.rate, definition.element))
        = some (2, some 1) := by
  decide +kernel

end Registry

end Iamf
