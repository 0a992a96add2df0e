import Iamf.Proofs.Registry.Change

/-!
# `Iamf.Proofs.Registry.Coherent`: what holds of every registry

A registry starts empty and changes by operations only, each of which may fail.
`Coherent` is what no sequence of them can break: ids are distinct, substreams
are numbered in the order in which they came, references resolve, and every
definition that an element or a presentation embeds is registered in its shape,
although the registered one may have been replaced many times since.

Two paths lead into a registry, and they watch over definitions by different
means. `Change` has brought both to the same guards, so there is one step lemma
with a case for each outcome.

* `Coherent.change`: one operation keeps a registry coherent.
* `coherent_performAll`: every sequence of operations leads to a coherent one.
-/

set_option autoImplicit false

namespace Iamf.Registry

open Parameter (Acceptable Agrees Covers)

/-- The definitions that elements and presentations embed. -/
def embedded (registry : Registry) : List Parameter :=
  registry.audioElements.flatMap (·.parameters)
    ++ registry.mixPresentations.flatMap (·.parameters)

/-- A registry without contradictions. -/
structure Coherent (registry : Registry) : Prop where
  codecConfigs : (registry.codecConfigs.map (·.id)).Nodup
  audioElements : (registry.audioElements.map (·.id)).Nodup
  mixPresentations : (registry.mixPresentations.map (·.id)).Nodup
  parameters : (registry.parameters.map (·.id)).Nodup
  substreams : (registry.substreams.map (·.id)).Nodup
  numbered : registry.substreams.map (·.streamIndex) = List.range registry.substreams.length
  configResolved : ∀ element ∈ registry.audioElements,
    (registry.codecConfig? element.codecConfig).isSome
  elementResolved : ∀ mix ∈ registry.mixPresentations, ∀ member ∈ mix.elements,
    (registry.audioElement? member.element).isSome
  defined : ∀ definition ∈ registry.embedded,
    ∃ latest, registry.parameter? definition.id = some latest ∧ latest.Agrees definition

/-- A registry without descriptors is coherent. -/
theorem coherent_empty : Coherent .empty where
  codecConfigs := List.nodup_nil
  audioElements := List.nodup_nil
  mixPresentations := List.nodup_nil
  parameters := List.nodup_nil
  substreams := List.nodup_nil
  numbered := rfl
  configResolved := fun _ hmem => absurd hmem List.not_mem_nil
  elementResolved := fun _ hmem => absurd hmem List.not_mem_nil
  defined := fun _ hmem => absurd hmem List.not_mem_nil

/-! ### Lists with ids -/

/-- An item of a new id goes behind items of distinct ids. -/
theorem nodup_append_fresh {α β : Type} [DecidableEq β] {id : α → β} {items : List α} {item : α}
    (h : (items.map id).Nodup) (hfresh : items.find? (id · = id item) = none) :
    ((items ++ [item]).map id).Nodup := by
  rw [List.map_append, List.nodup_append]
  refine ⟨h, List.nodup_singleton _, ?_⟩
  intro first hfirst second hsecond
  obtain ⟨other, hother, rfl⟩ := List.mem_map.1 hfirst
  rw [List.map_singleton, List.mem_singleton] at hsecond
  have hne := List.find?_eq_none.1 hfresh other hother
  rw [hsecond]
  simpa using hne

/-- An item is found by a key that no other item has. -/
theorem find?_of_nodup {α β : Type} [DecidableEq β] {key : α → β} {items : List α} {item : α}
    (h : (items.map key).Nodup) (hmem : item ∈ items) :
    items.find? (key · = key item) = some item := by
  induction items with
  | nil => exact absurd hmem List.not_mem_nil
  | cons first items ih =>
    rw [List.map_cons, List.nodup_cons] at h
    rcases List.mem_cons.1 hmem with rfl | hmem
    · rw [List.find?_cons_of_pos (by simp)]
    · have hne : key first ≠ key item := fun heq => h.1 (heq ▸ List.mem_map_of_mem hmem)
      rw [List.find?_cons_of_neg (by simpa using hne), ih h.2 hmem]

/-- What is found is still found when more follows. -/
theorem isSome_find?_append {α : Type} {test : α → Bool} {items others : List α}
    (h : (items.find? test).isSome) : ((items ++ others).find? test).isSome := by
  rw [List.find?_append, Option.isSome_or, h, Bool.true_or]

/-! ### Embedded definitions -/

section

variable {registry : Registry} {definitions : List Parameter} {definition : Parameter}

/-- An element adds its own definitions to those that are embedded. -/
theorem mem_embedded_addElement {element : AudioElement} :
    definition ∈ embedded { registry.mergeParameters definitions with
        audioElements := registry.audioElements ++ [element] }
      ↔ definition ∈ registry.embedded ∨ definition ∈ element.parameters := by
  simp only [embedded, List.flatMap_append, List.flatMap_singleton, List.mem_append]
  exact or_right_comm

/-- So does a presentation. -/
theorem mem_embedded_addMix {mix : MixPresentation} :
    definition ∈ embedded { registry.mergeParameters definitions with
        mixPresentations := registry.mixPresentations ++ [mix] }
      ↔ definition ∈ registry.embedded ∨ definition ∈ mix.parameters := by
  simp only [embedded, List.flatMap_append, List.flatMap_singleton, List.mem_append]
  exact or_assoc.symm

end

/-! ### Definitions after a merge -/

/-- What was defined before a merge still is, in its shape. -/
theorem defined_mergeParameters {registry : Registry} {definitions : List Parameter}
    {definition : Parameter} (h : Acceptable registry.parameters definitions)
    (hdefined : ∃ latest, registry.parameter? definition.id = some latest
      ∧ latest.Agrees definition) :
    ∃ latest, (registry.mergeParameters definitions).parameter? definition.id = some latest
      ∧ latest.Agrees definition :=
  covers_merged_of_covers h hdefined

/-- A definition is defined after a merge that brought its shape. -/
theorem defined_of_merged {registry : Registry} {definitions : List Parameter}
    {definition latest : Parameter} (h : Acceptable registry.parameters definitions)
    (hlatest : latest ∈ definitions) (hagrees : latest.Agrees definition) :
    ∃ latest, (registry.mergeParameters definitions).parameter? definition.id = some latest
      ∧ latest.Agrees definition := by
  obtain ⟨merged, hfind, hmerged⟩ := covers_merged h hlatest
  rw [hagrees.id] at hfind
  exact ⟨merged, hfind, hmerged.trans hagrees⟩

/-! ### Steps and runs -/

theorem Coherent.addElement {registry : Registry} {element : AudioElement}
    {definitions : List Parameter} (h : registry.Coherent)
    (hadmits : registry.AdmitsElement element definitions) :
    Coherent { registry.mergeParameters definitions with
      audioElements := registry.audioElements ++ [element] } where
  codecConfigs := h.codecConfigs
  audioElements := nodup_append_fresh h.audioElements hadmits.fresh
  mixPresentations := h.mixPresentations
  parameters := nodup_merged definitions h.parameters
  substreams := by
    simp only [Registry.substreams, List.flatMap_append, List.flatMap_singleton, List.map_append]
    refine List.nodup_append.2 ⟨h.substreams, hadmits.nodup, ?_⟩
    intro first hfirst second hsecond
    obtain ⟨old, hold, rfl⟩ := List.mem_map.1 hfirst
    obtain ⟨new, hnew, rfl⟩ := List.mem_map.1 hsecond
    have hne := List.find?_eq_none.1 (hadmits.untaken new hnew) old hold
    simpa using hne
  numbered := by
    -- The new substreams are numbered on from the count of the old ones.
    have hcount := h.numbered
    have hnew := hadmits.numbered
    rw [streamCount] at hnew
    simp only [Registry.substreams] at hcount hnew
    simp only [Registry.substreams, List.flatMap_append, List.flatMap_singleton, List.map_append,
      List.length_append, hcount, hnew]
    rw [List.range_eq_range', List.range_eq_range', ← List.range'_append_1, Nat.zero_add]
  configResolved := by
    intro member hmem
    rcases List.mem_append.1 hmem with hmem | hmem
    · exact h.configResolved member hmem
    · rw [List.mem_singleton.1 hmem]
      exact hadmits.codecConfig
  elementResolved := fun mix hmix member hmember =>
    isSome_find?_append (h.elementResolved mix hmix member hmember)
  defined := by
    intro definition hmem
    -- What was embedded before keeps its shape in the merge; what is new is covered by it.
    rcases mem_embedded_addElement.1 hmem with hold | hnew
    · exact defined_mergeParameters hadmits.acceptable (h.defined definition hold)
    · obtain ⟨latest, hlatest, hagrees⟩ := hadmits.covered definition hnew
      exact defined_of_merged hadmits.acceptable hlatest hagrees

theorem Coherent.addMix {registry : Registry} {mix : MixPresentation}
    {definitions : List Parameter} (h : registry.Coherent)
    (hadmits : registry.AdmitsMix mix definitions) :
    Coherent { registry.mergeParameters definitions with
      mixPresentations := registry.mixPresentations ++ [mix] } where
  codecConfigs := h.codecConfigs
  audioElements := h.audioElements
  mixPresentations := nodup_append_fresh h.mixPresentations hadmits.fresh
  parameters := nodup_merged definitions h.parameters
  substreams := h.substreams
  numbered := h.numbered
  configResolved := h.configResolved
  elementResolved := by
    intro member hmem
    rcases List.mem_append.1 hmem with hmem | hmem
    · exact h.elementResolved member hmem
    · rw [List.mem_singleton.1 hmem]
      exact hadmits.elements
  defined := by
    intro definition hmem
    rcases mem_embedded_addMix.1 hmem with hold | hnew
    · exact defined_mergeParameters hadmits.acceptable (h.defined definition hold)
    · obtain ⟨latest, hlatest, hagrees⟩ := hadmits.covered definition hnew
      exact defined_of_merged hadmits.acceptable hlatest hagrees

/-- A change keeps a registry coherent. -/
theorem Coherent.change {registry after : Registry} (h : registry.Coherent)
    (hchange : Change registry after) : after.Coherent := by
  cases hchange with
  | nothing => exact h
  | sequenceHeader header => exact { h with }
  | codecConfig config fresh =>
    exact { h with
      codecConfigs := nodup_append_fresh h.codecConfigs fresh
      configResolved := fun element hmem => isSome_find?_append (h.configResolved element hmem) }
  | audioElement element definitions admits => exact h.addElement admits
  | mixPresentation mix definitions admits => exact h.addMix admits

/-- Operations keep a registry coherent, whether they succeed or fail. -/
theorem Coherent.foldl_perform {registry : Registry} (h : registry.Coherent)
    (operations : List Operation) : (operations.foldl perform registry).Coherent := by
  induction operations generalizing registry with
  | nil => exact h
  | cons operation operations ih => exact ih (h.change (change_perform registry operation))

/-- Every sequence of operations, some of which may fail, leads from the empty
registry to a coherent one. -/
theorem coherent_performAll (operations : List Operation) : (performAll operations).Coherent :=
  coherent_empty.foldl_perform operations

end Iamf.Registry
