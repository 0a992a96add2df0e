import Iamf.Proofs.Parameter.Block
import Iamf.Proofs.Registry.Registers

/-!
# `Iamf.Proofs.Registry.Grounded`: definitions that blocks can be read by

A registry built by hand may hold a definition whose timeline contradicts
itself, or recon gain that belongs to no element. One that was read from a
stream does not, whatever the stream: the timeline of every definition is one
that a reader can give, and links lead to elements that are there. Only mix
gains may have no link.

* `Grounded.of_allows`, `Grounded.of_readable`: the definitions that an element or a
  presentation was read with.
* `Grounded.registers`: reading a descriptor keeps a registry grounded.
-/

set_option autoImplicit false

namespace Iamf

/-! ### Definitions that are stored and merged -/

namespace Scope

theorem mem_of_find? {scope : Scope} {id : UInt32} {definition : Parameter}
    (h : scope.find? id = some definition) :
    definition ∈ scope.pending ∨ definition ∈ scope.known := by
  rw [find?_eq_or, Option.or_eq_some_iff] at h
  rcases h with hfind | ⟨-, hfind⟩
  · exact .inl (List.mem_of_find?_eq_some hfind)
  · exact .inr (List.mem_of_find?_eq_some hfind)

end Scope

namespace Registry

/-- A property of definitions that linking keeps holds after a merge if it holds
before it and of what is merged. -/
theorem merged_induction {keeps : Parameter → Prop} {known definitions : List Parameter}
    (hlink : ∀ old latest, keeps old → keeps latest → keeps (keepLink old latest))
    (hknown : ∀ definition ∈ known, keeps definition)
    (hdefinitions : ∀ definition ∈ definitions, keeps definition) :
    ∀ definition ∈ merged known definitions, keeps definition := by
  induction definitions generalizing known with
  | nil => exact hknown
  | cons first definitions ih =>
    rw [merged, List.foldl_cons]
    refine ih (fun definition hmem => ?_)
      (fun definition hmem => hdefinitions definition (List.mem_cons_of_mem _ hmem))
    have hfirst := hdefinitions first List.mem_cons_self
    rcases Parameter.mem_putInto hmem with hold | rfl | ⟨old, hold, -, rfl⟩
    · exact hknown definition hold
    · exact hfirst
    · exact hlink old first (hknown old hold) hfirst

/-! ### Grounded definitions -/

/-- A definition that blocks can be read by: its timeline is one that was read,
and its link leads to an element; only a mix gain may be without. -/
structure Grounds (registry : Registry) (definition : Parameter) : Prop where
  timed : ∃ frameSize, definition.WellTimed frameSize
  resolved : ∀ id ∈ definition.element, (registry.audioElement? id).isSome
  linked : definition.kind ≠ .mixGain → definition.element.isSome

/-- All definitions of the registry are grounded. -/
def Grounded (registry : Registry) : Prop :=
  ∀ definition ∈ registry.parameters, registry.Grounds definition

theorem Grounds.timed_isTimed {registry : Registry} {definition : Parameter}
    (h : registry.Grounds definition) : definition.IsTimed :=
  h.timed.elim fun _ htimed => htimed.isTimed

/-- The layers that carry recon gain can be told. -/
theorem Grounds.exists_carryingLayers {registry : Registry} {definition : Parameter}
    (h : registry.Grounds definition) :
    ∃ carrying, definition.carryingLayers registry = .ok carrying := by
  rw [Parameter.carryingLayers]
  split
  · rename_i hkind
    obtain ⟨id, hid⟩ := Option.isSome_iff_exists.1 (h.linked (by simp [hkind]))
    obtain ⟨element, helement⟩ := Option.isSome_iff_exists.1 (h.resolved id hid)
    exact ⟨element.reconGainLayers, by simp only [reconGainLayers, hid, helement]; rfl⟩
  · exact ⟨[], rfl⟩

/-- A definition stays grounded while elements are added. -/
theorem Grounds.mono {registry after : Registry} {definition : Parameter}
    (h : registry.Grounds definition)
    (hmore : ∀ id, (registry.audioElement? id).isSome → (after.audioElement? id).isSome) :
    after.Grounds definition :=
  ⟨h.timed, fun id hid => hmore id (h.resolved id hid), h.linked⟩

theorem element_keepLink (old latest : Parameter) :
    (keepLink old latest).element = old.element.or latest.element := by
  rw [keepLink, Option.orElse_eq_orElse, Option.orElse_eq_or]

/-- Linking two grounded definitions gives a grounded one. -/
theorem Grounds.keepLink {registry : Registry} {old latest : Parameter}
    (hold : registry.Grounds old) (hlatest : registry.Grounds latest) :
    registry.Grounds (keepLink old latest) where
  timed := hlatest.timed.imp fun _ h => ⟨h.external, h.constant, h.bounded, h.defined⟩
  resolved := by
    intro id hid
    rw [element_keepLink, Option.mem_def, Option.or_eq_some_iff] at hid
    rcases hid with hid | ⟨-, hid⟩
    · exact hold.resolved id hid
    · exact hlatest.resolved id hid
  linked := by
    intro hkind
    rw [element_keepLink, Option.isSome_or, hlatest.linked hkind, Bool.or_true]

/-- A definition that is allowed is grounded if those in scope are, and its site
leads to an element. -/
theorem grounds_of_allows {registry : Registry} {scope : Scope} {site : Site}
    {definition : Parameter} (h : scope.Allows site definition)
    (hscope : ∀ old, scope.find? definition.id = some old → registry.Grounds old)
    (hsite : ∀ id ∈ site.element, (registry.audioElement? id).isSome)
    (hlinked : definition.kind ≠ .mixGain → site.element.isSome) :
    registry.Grounds definition := by
  have hlink := h.linked
  -- A definition of a new id is linked to its site, and any other one as the one before it.
  cases hold : scope.find? definition.id with
  | none =>
    rw [hold] at hlink
    change definition.element = site.element at hlink
    exact ⟨⟨_, h.timed⟩, hlink ▸ hsite, hlink ▸ hlinked⟩
  | some old =>
    have hgrounds := hscope old hold
    rw [hold] at hlink
    change definition.element = old.element at hlink
    exact ⟨⟨_, h.timed⟩, hlink ▸ hgrounds.resolved,
      fun hkind => hlink ▸ hgrounds.linked ((h.agrees old hold).kind ▸ hkind)⟩

/-- Definitions that are allowed one after the other are grounded, and all that is in
scope stays so. -/
theorem grounds_storeAll {registry : Registry} {scope : Scope} {placed : List Scope.Placed}
    (hallows : scope.AllowsAll placed)
    (hknown : ∀ definition ∈ scope.known, registry.Grounds definition)
    (hpending : ∀ definition ∈ scope.pending, registry.Grounds definition)
    (hsite : ∀ place ∈ placed, ∀ id ∈ place.2.element, (registry.audioElement? id).isSome)
    (hkind : ∀ place ∈ placed, place.1.kind = .mixGain) :
    (∀ place ∈ placed, registry.Grounds place.1)
      ∧ ∀ definition ∈ (scope.storeAll placed).pending, registry.Grounds definition := by
  induction placed generalizing scope with
  | nil => exact ⟨fun _ hmem => absurd hmem List.not_mem_nil, hpending⟩
  | cons first placed ih =>
    have hfirst : registry.Grounds first.1 := by
      refine grounds_of_allows hallows.1 (fun old hold => ?_)
        (hsite first List.mem_cons_self)
        (fun hother => absurd (hkind first List.mem_cons_self) hother)
      rcases Scope.mem_of_find? hold with hmem | hmem
      · exact hpending old hmem
      · exact hknown old hmem
    have hstored : ∀ definition ∈ (scope.store first.1).pending,
        registry.Grounds definition := by
      intro definition hmem
      rcases Scope.mem_pending_store hmem with hold | rfl
      · exact hpending definition hold
      · exact hfirst
    obtain ⟨hothers, hall⟩ := ih hallows.2 hknown hstored
      (fun place hplace => hsite place (List.mem_cons_of_mem _ hplace))
      (fun place hplace => hkind place (List.mem_cons_of_mem _ hplace))
    exact ⟨List.forall_mem_cons.2 ⟨hfirst, hothers⟩, hall⟩

/-! ### Descriptors and streams -/

theorem grounded_empty : Grounded .empty :=
  fun _ hmem => absurd hmem List.not_mem_nil

/-- The id of an element that is there leads to an element. -/
theorem isSome_audioElement?_of_mem {registry : Registry} {element : AudioElement}
    (hmem : element ∈ registry.audioElements) : (registry.audioElement? element.id).isSome := by
  rw [audioElement?, List.find?_isSome]
  exact ⟨element, hmem, by simp⟩

/-- A definition that was read in an element leads to this element, or to one that was
there before. It cannot be followed until the element is there too. -/
theorem Grounded.of_allows {registry after : Registry} {element : AudioElement}
    {definition : Parameter} (h : registry.Grounded)
    (hallows : Scope.Allows { known := registry.parameters } element.site definition)
    (hafter : after.audioElements = registry.audioElements ++ [element]) :
    after.Grounds definition := by
  refine grounds_of_allows hallows (fun old hold => ?_) (fun id hid => ?_) (fun _ => rfl)
  · rcases Scope.mem_of_find? hold with hmem | hmem
    · exact absurd hmem List.not_mem_nil
    · refine (h old hmem).mono fun id hid => ?_
      rw [audioElement?, hafter]
      exact isSome_find?_append hid
  · obtain rfl : element.id = id := by simpa [AudioElement.site] using hid
    exact isSome_audioElement?_of_mem (hafter ▸ List.mem_append_right _ (List.mem_singleton_self _))

/-- The definitions of a presentation that was read are grounded, and so are the latest
of them, which it brings. -/
theorem Grounded.of_readable {registry : Registry} {mix : MixPresentation}
    (h : registry.Grounded) (hreadable : mix.Readable registry) :
    (∀ definition ∈ mix.parameters, registry.Grounds definition)
      ∧ ∀ definition ∈ (Scope.storeAll { known := registry.parameters }
        (mix.placed registry)).pending, registry.Grounds definition := by
  obtain ⟨hplaced, hpending⟩ := grounds_storeAll hreadable.allowed h
    (fun _ hmem => absurd hmem List.not_mem_nil)
    (fun place hplace => (hreadable.of_mem_placed hplace).2)
    (fun place hplace => (hreadable.of_mem_placed hplace).1)
  refine ⟨fun definition hmem => ?_, hpending⟩
  rw [← MixPresentation.map_fst_placed registry, List.mem_map] at hmem
  obtain ⟨place, hplace, rfl⟩ := hmem
  exact hplaced place hplace

/-- Reading a descriptor keeps a registry grounded. -/
theorem Grounded.registers {mode : ReadMode} {registry after : Registry} {body : Bytes}
    {kind : Obu.Kind} (h : registry.Grounded)
    (hregisters : Registers mode registry body kind after) : after.Grounded := by
  cases hregisters with
  | sequenceHeader | codecConfig | unsupported | other =>
    exact fun definition hmem => (h definition hmem).mono fun _ hid => hid
  | audioElement element definitions parsed =>
    obtain ⟨-, hbrings⟩ := AudioElement.parse_eq_ok parsed
    exact merged_induction (fun _ _ hold hlatest => hold.keepLink hlatest)
      (fun definition hmem => (h definition hmem).mono fun _ hid => isSome_find?_append hid)
      fun definition hmem => h.of_allows (hbrings.allowed definition hmem).2 rfl
  | mixPresentation mix definitions parsed =>
    obtain ⟨hreadable, rfl⟩ := MixPresentation.parse_eq_ok parsed
    exact merged_induction (fun _ _ hold hlatest => hold.keepLink hlatest)
      (fun definition hmem => (h definition hmem).mono fun _ hid => hid)
      fun definition hmem => ((h.of_readable hreadable).2 definition hmem).mono fun _ hid => hid

end Registry

end Iamf
