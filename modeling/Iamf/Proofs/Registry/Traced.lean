import Iamf.Proofs.Registry.Registers

/-!
# `Iamf.Proofs.Registry.Traced`: registered definitions are the last embedded ones

What is registered for a parameter is the last of the definitions that elements
and presentations embed, in the order in which these came. Elements and
presentations share no parameter, since they define different kinds, so the
order between an element and a presentation does not matter; and a definition
takes over the link of the one before it when it is read, so that merging it
changes nothing about it.

* `find?_merged`, `Scope.find?_merged_pending`: lookups after a merge.
* `Traced.addElement`, `Traced.addMix`: registering keeps a registry traced.
* `Traced.registers`: so does reading a descriptor that lists no kind twice.
-/

set_option autoImplicit false

namespace Iamf

/-! ### The latest definition of an id -/

namespace Parameter

/-- The last of some definitions of an id. -/
def latest? (definitions : List Parameter) (id : UInt32) : Option Parameter :=
  definitions.reverse.find? (·.id = id)

theorem latest?_append (first second : List Parameter) (id : UInt32) :
    latest? (first ++ second) id = (latest? second id).or (latest? first id) := by
  rw [latest?, List.reverse_append, List.find?_append]
  rfl

theorem latest?_eq_none {definitions : List Parameter} {id : UInt32}
    (h : ∀ definition ∈ definitions, definition.id ≠ id) : latest? definitions id = none := by
  rw [latest?, List.find?_eq_none]
  intro definition hmem
  simpa using h definition (List.mem_reverse.1 hmem)

/-- Where ids are distinct, the order of definitions does not matter. -/
theorem find?_eq_latest? {definitions others : List Parameter}
    (hnodup : (definitions.map (·.id)).Nodup) (hperm : definitions.Perm others) (id : UInt32) :
    definitions.find? (·.id = id) = latest? others id := by
  cases hfind : definitions.find? (·.id = id) with
  | none =>
    refine (latest?_eq_none fun other hother => ?_).symm
    simpa using List.find?_eq_none.1 hfind other (hperm.mem_iff.2 hother)
  | some definition =>
    have hid : definition.id = id := id_of_find? hfind
    have hmem := hperm.mem_iff.1 (List.mem_of_find?_eq_some hfind)
    have hnodup' : (others.reverse.map (·.id)).Nodup :=
      (((hperm.trans others.reverse_perm.symm).map (·.id)).nodup_iff).1 hnodup
    rw [latest?, ← hid, Registry.find?_of_nodup hnodup' (List.mem_reverse.2 hmem)]

end Parameter

open Parameter (latest?)

/-! ### Lookups after a merge -/

namespace Registry

/-- A definition that has the link of the one before it is merged as it is. -/
theorem keepLink_of_eq {old latest : Parameter} (h : latest.element = old.element) :
    keepLink old latest = latest := by
  rw [keepLink, ← h, Option.orElse_eq_orElse, Option.orElse_eq_or, Option.or_self]

/-- Definitions of distinct ids that have the links of those before them are the
latest ones after a merge, as they are. -/
theorem find?_merged {known definitions : List Parameter} (id : UInt32)
    (hnodup : (definitions.map (·.id)).Nodup)
    (hlinked : ∀ definition ∈ definitions, ∀ old,
      known.find? (·.id = definition.id) = some old → definition.element = old.element) :
    (merged known definitions).find? (·.id = id)
      = (definitions.find? (·.id = id)).or (known.find? (·.id = id)) := by
  induction definitions generalizing known with
  | nil => rfl
  | cons first definitions ih =>
    rw [List.map_cons, List.nodup_cons] at hnodup
    obtain ⟨hfirst, hothers⟩ := List.forall_mem_cons.1 hlinked
    -- All others have other ids, so neither they nor their links see what was put in.
    have hne : ∀ other ∈ definitions, first.id ≠ other.id :=
      fun other hother heq => hnodup.1 (heq ▸ List.mem_map_of_mem hother)
    have hlinks : ∀ other ∈ definitions, ∀ old,
        (first.putInto keepLink known).find? (·.id = other.id) = some old →
        other.element = old.element := by
      intro other hother old hold
      rw [Parameter.find?_putInto_ne (hne other hother) fun _ => rfl] at hold
      exact hothers other hother old hold
    rw [merged, List.foldl_cons]
    refine (ih hnodup.2 hlinks).trans ?_
    by_cases heq : first.id = id
    · have hnone : definitions.find? (·.id = id) = none := by
        rw [List.find?_eq_none]
        intro other hother
        simpa using fun hid : other.id = id => hne other hother (heq.trans hid.symm)
      rw [hnone, Option.none_or, List.find?_cons_of_pos (by simpa using heq), Option.some_or, ← heq,
        Parameter.find?_putInto_self fun _ => rfl]
      cases hold : known.find? (·.id = first.id) with
      | none => rfl
      | some old => rw [Option.map_some, Option.getD_some, keepLink_of_eq (hfirst old hold)]
    · rw [Parameter.find?_putInto_ne heq fun _ => rfl,
        List.find?_cons_of_neg (by simpa using heq)]

end Registry

namespace Scope

/-- What is pending has the links of what is known. -/
def IsLinked (scope : Scope) : Prop :=
  ∀ definition ∈ scope.pending, ∀ old,
    scope.known.find? (·.id = definition.id) = some old → definition.element = old.element

theorem IsLinked.store {scope : Scope} {site : Site} {definition : Parameter}
    (h : scope.IsLinked) (hallows : scope.Allows site definition) :
    (scope.store definition).IsLinked := by
  have hnew : ∀ old, scope.known.find? (·.id = definition.id) = some old →
      definition.element = old.element := by
    intro old hold
    rw [hallows.linked]
    -- The link comes from the latest definition, and a pending one has that of the known one.
    cases hpending : scope.pending.find? (·.id = definition.id) with
    | none =>
      rw [find?_eq_or, hpending, Option.none_or, hold]
      rfl
    | some latest =>
      have hid : latest.id = definition.id := Parameter.id_of_find? hpending
      rw [find?_of_pending hpending]
      exact h latest (List.mem_of_find?_eq_some hpending) old (hid ▸ hold)
  intro other hother
  rcases mem_pending_store hother with hold | rfl
  · exact h other hold
  · exact hnew

theorem IsLinked.storeAll {scope : Scope} {placed : List Placed} (h : scope.IsLinked)
    (hallows : scope.AllowsAll placed) : (scope.storeAll placed).IsLinked := by
  induction placed generalizing scope with
  | nil => exact h
  | cons definition placed ih => exact ih (h.store hallows.1) hallows.2

/-- The last of some stored definitions is the one in scope. -/
theorem find?_storeAll (scope : Scope) (placed : List Placed) (id : UInt32) :
    (scope.storeAll placed).find? id
      = (latest? (placed.map (·.1)) id).or (scope.find? id) := by
  induction placed generalizing scope with
  | nil => rfl
  | cons first placed ih =>
    rw [storeAll, List.foldl_cons]
    refine (ih (scope.store first.1)).trans ?_
    rw [List.map_cons, ← List.singleton_append, Parameter.latest?_append, Option.or_assoc]
    congr 1
    by_cases heq : first.1.id = id
    · subst heq
      rw [find?_store_self]
      simp [latest?]
    · rw [find?_store_ne scope heq, Parameter.latest?_eq_none (by simpa using heq),
        Option.none_or]

/-- Merging what an OBU has brought makes its scope the registered one. -/
theorem find?_merged_pending {scope : Scope} (hsound : scope.Sound) (hlinked : scope.IsLinked)
    (id : UInt32) :
    (Registry.merged scope.known scope.pending).find? (·.id = id) = scope.find? id := by
  rw [find?_eq_or, Registry.find?_merged id hsound.nodup hlinked]

end Scope

/-! ### Traced registries -/

namespace Registry

/-- The definitions that elements embed. -/
def elementDefinitions (registry : Registry) : List Parameter :=
  registry.audioElements.flatMap (·.parameters)

/-- The definitions that presentations embed. -/
def mixDefinitions (registry : Registry) : List Parameter :=
  registry.mixPresentations.flatMap (·.parameters)

theorem embedded_eq (registry : Registry) :
    registry.embedded = registry.elementDefinitions ++ registry.mixDefinitions := rfl

/-- A registry where elements and presentations define different kinds. -/
structure Sorted (registry : Registry) : Prop where
  coherent : registry.Coherent
  elementKinds : ∀ definition ∈ registry.elementDefinitions, definition.kind ≠ .mixGain
  mixKinds : ∀ definition ∈ registry.mixDefinitions, definition.kind = .mixGain

/-- A registry whose definitions are the last embedded ones. -/
structure Traced (registry : Registry) : Prop extends registry.Sorted where
  latest : ∀ id, registry.parameter? id = latest? registry.embedded id

/-- A registry without descriptors is traced. -/
theorem traced_empty : Traced .empty where
  coherent := coherent_empty
  elementKinds := fun _ hmem => absurd hmem List.not_mem_nil
  mixKinds := fun _ hmem => absurd hmem List.not_mem_nil
  latest := fun _ => rfl

/-- Elements and presentations define different parameters. -/
theorem Sorted.ne {registry : Registry} (h : registry.Sorted) {first second : Parameter}
    (hfirst : first ∈ registry.elementDefinitions) (hsecond : second ∈ registry.mixDefinitions) :
    first.id ≠ second.id := by
  intro heq
  obtain ⟨latest, hlatest, hagrees⟩ :=
    h.coherent.defined first (List.mem_append_left _ hfirst)
  obtain ⟨latest', hlatest', hagrees'⟩ :=
    h.coherent.defined second (List.mem_append_right _ hsecond)
  rw [heq, hlatest', Option.some.injEq] at hlatest
  -- One id has one kind, but the two kinds of embedded definitions exclude each other.
  refine h.elementKinds first hfirst ?_
  rw [← hagrees.kind, ← hlatest, hagrees'.kind]
  exact h.mixKinds second hsecond

/-- It does not matter whether elements or presentations come first. -/
theorem Sorted.latest?_embedded {registry : Registry} (h : registry.Sorted) (id : UInt32) :
    latest? registry.embedded id
      = (latest? registry.elementDefinitions id).or (latest? registry.mixDefinitions id) := by
  rw [embedded_eq, Parameter.latest?_append]
  cases hfirst : latest? registry.elementDefinitions id with
  | none => rw [Option.or_none, Option.none_or]
  | some first =>
    have hid : first.id = id := by
      rw [latest?] at hfirst
      exact Parameter.id_of_find? hfirst
    have hmem := List.mem_reverse.1 (List.mem_of_find?_eq_some hfirst)
    rw [Parameter.latest?_eq_none fun second hsecond => hid ▸ (h.ne hmem hsecond).symm]
    rfl

/-! ### Descriptors -/

/-- What is registered when an element comes with its definitions. -/
theorem parameter?_addElement {registry : Registry} {element : AudioElement}
    {definitions : List Parameter} (hnodup : (definitions.map (·.id)).Nodup)
    (hallowed : ∀ definition ∈ definitions,
      Scope.Allows { known := registry.parameters } element.site definition)
    (hperm : definitions.Perm element.parameters) (id : UInt32) :
    (registry.mergeParameters definitions).parameter? id
      = (latest? element.parameters id).or (registry.parameter? id) := by
  rw [← Parameter.find?_eq_latest? hnodup hperm]
  refine find?_merged id hnodup fun definition hmem old hold => ?_
  rw [(hallowed definition hmem).linked, Scope.find?_eq_or, hold]
  rfl

/-- What is registered when a presentation comes with its definitions. -/
theorem parameter?_addMix {registry : Registry} {mix : MixPresentation}
    (h : mix.Readable registry) (id : UInt32) :
    (registry.mergeParameters (Scope.storeAll { known := registry.parameters }
        (mix.placed registry)).pending).parameter? id
      = (latest? mix.parameters id).or (registry.parameter? id) := by
  have hlinked : Scope.IsLinked { known := registry.parameters } :=
    fun _ hmem => absurd hmem List.not_mem_nil
  have hfind := Scope.find?_merged_pending
    ((Scope.sound_of_known registry.parameters).storeAll h.allowed) (hlinked.storeAll h.allowed) id
  rw [Scope.known_storeAll, Scope.find?_storeAll, MixPresentation.map_fst_placed] at hfind
  exact hfind

variable {registry : Registry} {element : AudioElement} {mix : MixPresentation}
  {definitions : List Parameter}

/-- An element keeps a registry traced if it brings just what it embeds. -/
theorem Traced.addElement (h : registry.Traced) (hreadable : element.Readable registry)
    (hnodup : (definitions.map (·.id)).Nodup) (hperm : definitions.Perm element.parameters)
    (hcoherent : Coherent { registry.mergeParameters definitions with
      audioElements := registry.audioElements ++ [element] }) :
    Traced { registry.mergeParameters definitions with
      audioElements := registry.audioElements ++ [element] } := by
  have hallowed : ∀ definition ∈ element.parameters, definition.kind ≠ .mixGain
      ∧ Scope.Allows { known := registry.parameters } element.site definition := by
    intro definition hmem
    rcases AudioElement.mem_parameters.1 hmem with hmem | hmem
    · obtain ⟨hkind, hallows⟩ := hreadable.demixing definition hmem
      exact ⟨by simp [hkind], hallows⟩
    · obtain ⟨hkind, hallows⟩ := hreadable.reconGain definition hmem
      exact ⟨by simp [hkind], hallows⟩
  have hdefinitions : elementDefinitions { registry.mergeParameters definitions with
      audioElements := registry.audioElements ++ [element] }
        = registry.elementDefinitions ++ element.parameters := by
    rw [elementDefinitions, List.flatMap_append, List.flatMap_singleton]
    rfl
  have hsorted : Sorted { registry.mergeParameters definitions with
      audioElements := registry.audioElements ++ [element] } := by
    refine ⟨hcoherent, fun definition hmem => ?_, h.mixKinds⟩
    rw [hdefinitions] at hmem
    rcases List.mem_append.1 hmem with hmem | hmem
    · exact h.elementKinds definition hmem
    · exact (hallowed definition hmem).1
  refine ⟨hsorted, fun id => ?_⟩
  -- The new definitions are embedded in front of those of the presentations, but come later.
  rw [hsorted.latest?_embedded, hdefinitions, Parameter.latest?_append, Option.or_assoc]
  refine (parameter?_addElement hnodup (fun definition hmem =>
    (hallowed definition (hperm.mem_iff.1 hmem)).2) hperm id).trans ?_
  rw [h.latest, h.latest?_embedded]
  rfl

/-- A presentation that was read keeps a registry traced. -/
theorem Traced.addMix (h : registry.Traced) (hreadable : mix.Readable registry)
    (hdefinitions : definitions = (Scope.storeAll { known := registry.parameters }
      (mix.placed registry)).pending)
    (hcoherent : Coherent { registry.mergeParameters definitions with
      mixPresentations := registry.mixPresentations ++ [mix] }) :
    Traced { registry.mergeParameters definitions with
      mixPresentations := registry.mixPresentations ++ [mix] } := by
  have hmixes : mixDefinitions { registry.mergeParameters definitions with
      mixPresentations := registry.mixPresentations ++ [mix] }
        = registry.mixDefinitions ++ mix.parameters := by
    rw [mixDefinitions, List.flatMap_append, List.flatMap_singleton]
    rfl
  refine ⟨⟨hcoherent, h.elementKinds, fun definition hmem => ?_⟩, fun id => ?_⟩
  · rw [hmixes] at hmem
    rcases List.mem_append.1 hmem with hmem | hmem
    · exact h.mixKinds definition hmem
    · rw [← MixPresentation.map_fst_placed registry, List.mem_map] at hmem
      obtain ⟨place, hplace, rfl⟩ := hmem
      exact (hreadable.of_mem_placed hplace).1
  · rw [embedded_eq, hmixes, ← List.append_assoc, Parameter.latest?_append]
    subst hdefinitions
    refine (parameter?_addMix hreadable id).trans ?_
    rw [h.latest, embedded_eq]
    rfl

/-- Reading a descriptor keeps a registry traced, unless it is an element that
lists a kind twice. -/
theorem Traced.registers {mode : ReadMode} {after : Registry} {body : Bytes} {kind : Obu.Kind}
    (h : registry.Traced) (hregisters : Registers mode registry body kind after)
    (honce : kind = .audioElement → AudioElement.ListsOnce body) : after.Traced := by
  have hcoherent := h.coherent.registers hregisters
  cases hregisters with
  | sequenceHeader | codecConfig =>
    exact ⟨⟨hcoherent, h.elementKinds, h.mixKinds⟩, h.latest⟩
  | unsupported | other => exact h
  | audioElement element definitions parsed free =>
    obtain ⟨hreadable, hbrings⟩ := AudioElement.parse_eq_ok parsed
    exact h.addElement hreadable hbrings.nodup (hbrings.exact (honce rfl)) hcoherent
  | mixPresentation mix definitions parsed =>
    obtain ⟨hreadable, hdefinitions⟩ := MixPresentation.parse_eq_ok parsed
    exact h.addMix hreadable hdefinitions hcoherent

end Registry

end Iamf
