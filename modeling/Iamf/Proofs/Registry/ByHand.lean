import Iamf.Proofs.Registry.Grounded
import Iamf.Proofs.Registry.Traced

/-!
# `Iamf.Proofs.Registry.ByHand`: registering by hand what was read

An element or a presentation that was read from a body can also be registered by
hand, in the registry that the body was read against. Both ways succeed, and
they differ only in links: a definition that is read takes over the link of the
one before it, while a definition that is registered by hand is linked to its
own element (by an element always, by a presentation only where it has no
link), and a merge prefers the link that is registered already.

* `find?_merged_eq`: what a merge of any definitions leaves of an id.
* `addAudioElement_of_parsed`: an element by hand. Its own definitions are
  linked to it; the registered ones are as if it had been read.
* `addMixPresentation_of_parsed`: a presentation by hand. A parameter without a
  link gets that of the first element whose gain it is.
-/

set_option autoImplicit false

namespace Iamf

open Parameter (Acceptable latest?)

/-! ### What a merge leaves of an id -/

namespace Registry

/-- The first link among the definitions of an id. -/
def firstLink (definitions : List Parameter) (id : UInt32) : Option UInt32 :=
  definitions.findSome? fun definition =>
    if definition.id = id then definition.element else none

theorem firstLink_cons (first : Parameter) (definitions : List Parameter) (id : UInt32) :
    firstLink (first :: definitions) id
      = (if first.id = id then first.element else none).or (firstLink definitions id) := by
  rw [firstLink, List.findSome?_cons]
  cases (if first.id = id then first.element else none) <;> rfl

theorem latest?_cons (first : Parameter) (definitions : List Parameter) (id : UInt32) :
    latest? (first :: definitions) id
      = (latest? definitions id).or (if first.id = id then some first else none) := by
  rw [← List.singleton_append, Parameter.latest?_append]
  congr 1
  by_cases heq : first.id = id <;> simp [latest?, heq]

/-- Definitions that are all linked to one element have that link, if any. -/
theorem firstLink_map (element : UInt32) (definitions : List Parameter) (id : UInt32) :
    firstLink (definitions.map fun definition => { definition with element := some element }) id
      = (latest? definitions id).map fun _ => element := by
  induction definitions with
  | nil => rfl
  | cons first definitions ih =>
    rw [List.map_cons, firstLink_cons, latest?_cons, ih]
    by_cases heq : first.id = id
    · cases latest? definitions id <;> simp [heq]
    · simp [heq]

/-- After a merge the latest definition of an id is registered, with the first
link there was: the one that was known, or else the first one merged. -/
theorem find?_merged_eq (known definitions : List Parameter) (id : UInt32) :
    (merged known definitions).find? (·.id = id)
      = ((latest? definitions id).or (known.find? (·.id = id))).map fun latest =>
        { latest with element :=
          ((known.find? (·.id = id)).bind (·.element)).or (firstLink definitions id) } := by
  induction definitions generalizing known with
  | nil =>
    cases hfind : known.find? (·.id = id) with
    | none => simp [latest?, hfind]
    | some old => simp [latest?, firstLink, hfind]
  | cons first definitions ih =>
    rw [merged, List.foldl_cons]
    refine (ih _).trans ?_
    rw [firstLink_cons, latest?_cons]
    by_cases heq : first.id = id
    · rw [if_pos heq, if_pos heq, ← heq, Parameter.find?_putInto_self fun _ => rfl]
      -- The first definition took the link that was known, if there was one.
      cases latest? definitions first.id <;> cases known.find? (·.id = first.id) <;>
        simp [Option.or_assoc]
    · rw [if_neg heq, if_neg heq, Option.or_none, Option.none_or,
        Parameter.find?_putInto_ne heq fun _ => rfl]

end Registry

/-! ### Elements -/

namespace AudioElement

/-- Sharing out substreams that have been shared out changes nothing. -/
theorem assignEach_of_assigned {element : UInt32} {config : CodecConfig} {stereo : List Bool} :
    ∀ {substreams assigned : List Substream},
      assignEach element config stereo substreams = .ok assigned →
      assignEach element config stereo assigned = .ok assigned := by
  induction stereo with
  | nil => exact fun _ => rfl
  | cons first stereo ih =>
    intro substreams assigned h
    cases substreams with
    | nil => exact absurd h (by simp [assignEach, outcome_throw_eq_ok])
    | cons substream substreams =>
      simp only [assignEach, outcome_bind_eq_ok, outcome_pure_eq_ok] at h
      obtain ⟨given, hgiven, others, hothers, rfl⟩ := h
      simp only [Substream.assign, outcome_bind_eq_ok, outcome_pure_eq_ok] at hgiven
      obtain ⟨decoderConfig, hconfig, rfl⟩ := hgiven
      simp only [assignEach, outcome_bind_eq_ok, outcome_pure_eq_ok, Substream.assign]
      exact ⟨_, ⟨decoderConfig, hconfig, rfl⟩, others, ih hothers, rfl⟩

theorem assignSubstreams_of_assigned {element assigned : AudioElement} {config : CodecConfig}
    (h : element.assignSubstreams config = .ok assigned) :
    assigned.assignSubstreams config = .ok assigned := by
  simp only [assignSubstreams, outcome_bind_eq_ok, outcome_pure_eq_ok] at h ⊢
  obtain ⟨substreams, hsubstreams, rfl⟩ := h
  exact ⟨substreams, assignEach_of_assigned hsubstreams, rfl⟩

/-- Numbering substreams that have these numbers changes nothing. -/
theorem numberFrom_of_numbered {element : AudioElement} {first : Nat}
    (h : element.substreams.map (·.streamIndex)
      = List.range' first element.substreams.length) : element.numberFrom first = element := by
  have hsubstreams : (element.numberFrom first).substreams = element.substreams := by
    refine List.ext_getElem (numberFrom_length element first) fun place hplace hplace' => ?_
    have hindex := List.getElem_of_eq h (by simpa using hplace')
    simp only [List.getElem_map, List.getElem_range', Nat.one_mul] at hindex
    simp only [numberFrom, List.getElem_map, List.getElem_zipIdx, Nat.zero_add, ← hindex]
  exact congrArg (fun substreams => { element with substreams }) hsubstreams

theorem parameters_linkParameters (element : AudioElement) :
    element.linkParameters.parameters
      = element.parameters.map fun definition =>
        { definition with element := some element.id } := by
  simp only [parameters, linkParameters, List.map_append, Option.toList_map]

end AudioElement

namespace Registry

variable {registry parsed : Registry} {element : AudioElement} {definitions : List Parameter}

/-- An element that was read can be prepared where it was read, if it is well
formed and what it embeds is acceptable. -/
theorem prepareAudioElement_of_readable (h : element.Readable registry)
    (hvalid : element.validate = .ok ())
    (hacceptable : Acceptable registry.parameters element.parameters) :
    registry.prepareAudioElement element = .ok element.linkParameters := by
  obtain ⟨config, hconfig, -, hassigned⟩ := h.assigned
  have hagain := AudioElement.assignSubstreams_of_assigned hassigned
  have hnumbered : element.numberFrom registry.streamCount = element :=
    AudioElement.numberFrom_of_numbered (map_streamIndex_of_assigned hassigned)
  have hcheck : registry.checkParameters [] element.linkParameters.parameters = .ok () := by
    refine checkParameters_of_acceptable (hacceptable.of_agrees fun other hother => ?_)
    rw [AudioElement.parameters_linkParameters, List.mem_map] at hother
    obtain ⟨definition, hmem, rfl⟩ := hother
    exact ⟨definition, hmem, rfl, rfl, rfl, rfl⟩
  rw [prepareAudioElement, ensure_of h.fresh]
  simp only [hconfig, hvalid, hagain]
  show (registry.checkParameters []
      (element.numberFrom registry.streamCount).linkParameters.parameters >>= fun _ =>
        pure (element.numberFrom registry.streamCount).linkParameters) = _
  rw [hnumbered, hcheck]
  rfl

/-- What is merged of an element, all of it linked to the element, is as if it
had been read: where it matters, the registered link is there already. -/
theorem parameter?_linkParameters (hgrounded : registry.Grounded)
    (hnodup : (definitions.map (·.id)).Nodup)
    (hallowed : ∀ definition ∈ definitions, definition.kind ≠ .mixGain
      ∧ Scope.Allows { known := registry.parameters } element.site definition)
    (hperm : definitions.Perm element.parameters) (id : UInt32) :
    (registry.mergeParameters element.linkParameters.parameters).parameter? id
      = (registry.mergeParameters definitions).parameter? id := by
  rw [parameter?_addElement hnodup (fun definition hmem => (hallowed definition hmem).2) hperm]
  refine (find?_merged_eq registry.parameters element.linkParameters.parameters id).trans ?_
  have hlatest : latest? element.linkParameters.parameters id
      = (latest? element.parameters id).map fun definition =>
        { definition with element := some element.id } := by
    rw [AudioElement.parameters_linkParameters, latest?, latest?, ← List.map_reverse,
      List.find?_map]
    rfl
  rw [hlatest, AudioElement.parameters_linkParameters, firstLink_map, parameter?]
  cases hfind : latest? element.parameters id with
  | none => cases registry.parameters.find? (·.id = id) <;> simp
  | some definition =>
    have hid : definition.id = id := Parameter.id_of_find? hfind
    have hmem := List.mem_reverse.1 (List.mem_of_find?_eq_some hfind)
    obtain ⟨hkind, hallows⟩ := hallowed definition (hperm.mem_iff.2 hmem)
    have hlinked := hallows.linked
    have hknown : Scope.find? { known := registry.parameters } definition.id
        = registry.parameters.find? (·.id = id) := by rw [hid, Scope.find?_eq_or]; rfl
    rw [hknown] at hlinked
    suffices hlink : definition.element
        = ((registry.parameters.find? (·.id = id)).bind (·.element)).or (some element.id) by
      simp only [Option.map_some, Option.some_or, ← hlink]
    cases hold : registry.parameters.find? (·.id = id) with
    | none =>
      rw [hold] at hlinked
      exact hlinked
    | some old =>
      rw [hold] at hlinked
      have hagrees := hallows.agrees old (hknown.trans hold)
      have hsome : old.element.isSome :=
        (hgrounded old (List.mem_of_find?_eq_some hold)).linked (hagrees.kind ▸ hkind)
      obtain ⟨link, hlink⟩ := Option.isSome_iff_exists.1 hsome
      rw [hlinked]
      simp [Parameter.linkAt, hlink]


/-- An element by hand, where it was read: it is registered with its own
definitions linked to it, and every parameter as if it had been read. -/
theorem addAudioElement_of_parsed {mode : ReadMode} {body : Bytes} (hgrounded : registry.Grounded)
    (hparsed : AudioElement.parse mode registry body = .ok (some (element, definitions)))
    (hfree : ∀ substream ∈ element.substreams, registry.isTaken element substream = false)
    (hvalid : element.validate = .ok ()) (honce : AudioElement.ListsOnce body) :
    addAudioElement element registry = .ok () {
        registry.mergeParameters element.linkParameters.parameters with
        audioElements := registry.audioElements ++ [element.linkParameters] }
      ∧ ∀ id, (registry.mergeParameters element.linkParameters.parameters).parameter? id
        = (registry.mergeParameters definitions).parameter? id := by
  obtain ⟨hreadable, hbrings⟩ := AudioElement.parse_eq_ok hparsed
  have hperm := hbrings.exact honce
  have hacceptable : Acceptable registry.parameters element.parameters :=
    hbrings.acceptable.of_agrees fun other hother =>
      ⟨other, hperm.mem_iff.2 hother, .refl other⟩
  have hprepared := prepareAudioElement_of_readable hreadable hvalid hacceptable
  refine ⟨?_, parameter?_linkParameters hgrounded hbrings.nodup hbrings.allowed hperm⟩
  rw [addAudioElement, Stateful.get_bind, Stateful.lift_bind, hprepared]
  exact commitAudioElement_eq_ok.2 ⟨hfree, rfl⟩

end Registry

/-! ### Presentations -/

namespace Scope

/-- A definition with its link, or else that of its place. -/
def linkHere (place : Placed) : Parameter :=
  { place.1 with element := place.1.element.or place.2.element }

/-- The latest definition of an id keeps the link of the one before it. -/
theorem link_storeAll {scope : Scope} {placed : List Placed} {id : UInt32} {old : Parameter}
    (hallows : scope.AllowsAll placed) (hold : scope.find? id = some old) :
    ∃ latest, (scope.storeAll placed).find? id = some latest ∧ latest.element = old.element := by
  induction placed generalizing scope old with
  | nil => exact ⟨old, hold, rfl⟩
  | cons first placed ih =>
    rw [storeAll, List.foldl_cons]
    by_cases heq : first.1.id = id
    · have hlink : first.1.element = old.element := by
        rw [hallows.1.linked, heq, hold]
        rfl
      have hfirst := find?_store_self scope first.1
      rw [heq] at hfirst
      obtain ⟨latest, hlatest, helement⟩ := ih hallows.2 hfirst
      exact ⟨latest, hlatest, helement.trans hlink⟩
    · exact ih hallows.2 ((find?_store_ne scope heq).trans hold)

/-- All definitions of an id in one place after the other have one link. -/
theorem link_of_mem {scope : Scope} {placed : List Placed} {place : Placed}
    (hallows : scope.AllowsAll placed) (hmem : place ∈ placed) :
    ∃ latest, (scope.storeAll placed).find? place.1.id = some latest
      ∧ latest.element = place.1.element := by
  induction placed generalizing scope with
  | nil => exact absurd hmem List.not_mem_nil
  | cons first placed ih =>
    rw [storeAll, List.foldl_cons]
    rcases List.mem_cons.1 hmem with rfl | hmem
    · exact link_storeAll hallows.2 (find?_store_self scope place.1)
    · exact ih hallows.2 hmem

/-- Where the definitions of an id have no link, linking them gives that of the first
place that has one. -/
theorem firstLink_linkHere_of_none {placed : List Placed} {id : UInt32}
    (hlinks : ∀ place ∈ placed, place.1.id = id → place.1.element = none) :
    Registry.firstLink (placed.map linkHere) id
      = placed.findSome? fun place => if place.1.id = id then place.2.element else none := by
  induction placed with
  | nil => rfl
  | cons first placed ih =>
    obtain ⟨hfirst, hothers⟩ := List.forall_mem_cons.1 hlinks
    have hlink : (if first.1.id = id then (linkHere first).element else none)
        = if first.1.id = id then first.2.element else none := by
      split
      · rename_i heq
        rw [linkHere, hfirst heq, Option.none_or]
      · rfl
    rw [List.map_cons, Registry.firstLink_cons, ih hothers, List.findSome?_cons]
    refine (congrArg (Option.or · _) hlink).trans ?_
    cases (if first.1.id = id then first.2.element else none) <;> rfl

/-- Where the definitions of an id have a link, linking them keeps it. -/
theorem firstLink_linkHere_of_some {placed : List Placed} {id link : UInt32} {place : Placed}
    (hlinks : ∀ place ∈ placed, place.1.id = id → place.1.element = some link)
    (hmem : place ∈ placed) (hid : place.1.id = id) :
    Registry.firstLink (placed.map linkHere) id = some link := by
  have hlink : ∀ place ∈ placed, place.1.id = id → (linkHere place).element = some link := by
    intro place hplace hid
    rw [linkHere, hlinks place hplace hid, Option.some_or]
  have hsome : (Registry.firstLink (placed.map linkHere) id).isSome := by
    rw [Registry.firstLink, List.findSome?_isSome_iff]
    refine ⟨linkHere place, List.mem_map_of_mem hmem, ?_⟩
    rw [if_pos (show (linkHere place).id = id from hid), hlink place hmem hid]
    rfl
  obtain ⟨found, hfound⟩ := Option.isSome_iff_exists.1 hsome
  obtain ⟨definition, hdefinition, hvalue⟩ := List.exists_of_findSome?_eq_some hfound
  obtain ⟨origin, horigin, rfl⟩ := List.mem_map.1 hdefinition
  split at hvalue
  · rename_i heq
    rw [hfound, ← hvalue, hlink origin horigin heq]
  · cases hvalue

end Scope

namespace MixPresentation

/-- The first element of a presentation whose gain is of an id. -/
def firstElement (mix : MixPresentation) (id : UInt32) : Option UInt32 :=
  (mix.elements.find? (·.gain.id = id)).map (·.element)

/-- Linking a presentation links each of its definitions where it stands. -/
theorem parameters_linkParameters (registry : Registry) (mix : MixPresentation) :
    mix.linkParameters.parameters = (mix.placed registry).map Scope.linkHere := by
  simp only [parameters, linkParameters, placed, Submix.placed, SubmixElement.placed,
    Scope.linkHere, List.map_flatMap, List.flatMap_map, List.map_append, List.map_map,
    Function.comp_def, List.map_cons, List.map_nil, Option.orElse_eq_orElse,
    Option.orElse_eq_or, Option.or_none]

/-- Looking for a first item and looking for its image are the same. -/
theorem findSome?_ite_eq {α β : Type} (test : α → Bool) (f : α → β) (items : List α) :
    (items.findSome? fun item => if test item then some (f item) else none)
      = (items.find? test).map f := by
  induction items with
  | nil => rfl
  | cons item items ih =>
    rw [List.findSome?_cons, List.find?_cons]
    cases test item with
    | true => rfl
    | false => exact ih

theorem firstElement_eq (registry : Registry) (mix : MixPresentation) (id : UInt32) :
    mix.firstElement id = (mix.placed registry).findSome? fun place =>
      if place.1.id = id then place.2.element else none := by
  have hsubmix : ∀ submix : Submix, ((submix.placed registry).findSome? fun place =>
      if place.1.id = id then place.2.element else none)
        = (submix.elements.find? (·.gain.id = id)).map (·.element) := by
    intro submix
    rw [Submix.placed, List.findSome?_append, List.findSome?_map, ← findSome?_ite_eq]
    simp [SubmixElement.placed, Function.comp_def]
  rw [firstElement, elements, placed]
  induction mix.submixes with
  | nil => rfl
  | cons submix submixes ih =>
    rw [List.flatMap_cons, List.flatMap_cons, List.find?_append, List.findSome?_append, hsubmix,
      ← ih]
    cases submix.elements.find? (·.gain.id = id) <;> rfl

end MixPresentation

namespace Registry

variable {registry : Registry} {mix : MixPresentation}

/-- What is merged of a presentation whose gains are linked is as if it had been
read, except that a parameter without a link has that of the first element whose
gain it is. -/
theorem parameter?_linkParameters_mix (hreadable : mix.Readable registry) (id : UInt32) :
    (registry.mergeParameters mix.linkParameters.parameters).parameter? id
      = ((registry.mergeParameters (Scope.storeAll { known := registry.parameters }
          (mix.placed registry)).pending).parameter? id).map fun latest =>
        { latest with element := latest.element.or (mix.firstElement id) } := by
  rw [parameter?_addMix hreadable]
  refine (find?_merged_eq registry.parameters mix.linkParameters.parameters id).trans ?_
  rw [MixPresentation.parameters_linkParameters registry,
    ← MixPresentation.map_fst_placed registry, MixPresentation.firstElement_eq registry]
  have hlatest : ∀ f : Scope.Placed → Parameter, (∀ place, (f place).id = place.1.id) →
      latest? ((mix.placed registry).map f) id
        = ((mix.placed registry).reverse.find? (·.1.id = id)).map f := by
    intro f hid
    rw [latest?, ← List.map_reverse, List.find?_map]
    congr 2
    funext place
    simp [hid]
  rw [hlatest Scope.linkHere fun _ => rfl, hlatest Prod.fst fun _ => rfl, parameter?]
  -- What is in scope behind the presentation has the link of all definitions of its id.
  have hscope := Scope.find?_storeAll { known := registry.parameters } (mix.placed registry) id
  rw [hlatest Prod.fst fun _ => rfl] at hscope
  cases hfind : (mix.placed registry).reverse.find? (·.1.id = id) with
  | none =>
    have hne : ∀ place ∈ mix.placed registry, place.1.id ≠ id := by
      intro place hplace
      simpa using List.find?_eq_none.1 hfind place (List.mem_reverse.2 hplace)
    have hnone : ((mix.placed registry).findSome? fun place =>
        if place.1.id = id then place.2.element else none) = none :=
      List.findSome?_eq_none_iff.2 fun place hplace => if_neg (hne place hplace)
    rw [Scope.firstLink_linkHere_of_none fun place hplace hid => absurd hid (hne place hplace),
      hnone]
    cases registry.parameters.find? (·.id = id) <;> simp
  | some place =>
    have hid : place.1.id = id := by simpa using List.find?_some hfind
    have hmem := List.mem_reverse.1 (List.mem_of_find?_eq_some hfind)
    rw [hfind, Option.map_some, Option.some_or] at hscope
    have hlinks : ∀ other ∈ mix.placed registry, other.1.id = id →
        other.1.element = place.1.element := by
      intro other hother heq
      obtain ⟨latest, hlatest, hlink⟩ := Scope.link_of_mem hreadable.allowed hother
      rw [heq, hscope, Option.some.injEq] at hlatest
      rw [← hlink, hlatest]
    have hold : ∀ old, registry.parameters.find? (·.id = id) = some old →
        old.element = place.1.element := by
      intro old hold
      have hknown : Scope.find? { known := registry.parameters } id = some old := by
        rw [Scope.find?_eq_or]
        exact hold
      obtain ⟨latest, hlatest, hlink⟩ := Scope.link_storeAll hreadable.allowed hknown
      rw [hscope, Option.some.injEq] at hlatest
      rw [← hlink, hlatest]
    have hlink : ((registry.parameters.find? (·.id = id)).bind (·.element)).or
          (firstLink ((mix.placed registry).map Scope.linkHere) id)
        = place.1.element.or ((mix.placed registry).findSome? fun place =>
          if place.1.id = id then place.2.element else none) := by
      cases helement : place.1.element with
      | none =>
        rw [helement] at hlinks hold
        rw [Scope.firstLink_linkHere_of_none hlinks]
        cases hknown : registry.parameters.find? (·.id = id) with
        | none => rfl
        | some old => rw [Option.bind_some, hold old hknown]
      | some link =>
        rw [helement] at hlinks hold
        rw [Scope.firstLink_linkHere_of_some hlinks hmem hid, Option.some_or]
        cases hknown : registry.parameters.find? (·.id = id) with
        | none => rfl
        | some old => rw [Option.bind_some, hold old hknown, Option.some_or]
    simp only [Option.map_some, Option.some_or, hlink]
    rfl

/-- A presentation that was read can be prepared where it was read. -/
theorem prepareMixPresentation_of_readable (h : mix.Readable registry) :
    registry.prepareMixPresentation mix = .ok mix.linkParameters := by
  have hsound := (Scope.sound_of_known registry.parameters).storeAll h.allowed
  have hacceptable := hsound.acceptable
  rw [Scope.known_storeAll] at hacceptable
  have hcheck : registry.checkParameters [] mix.linkParameters.parameters = .ok () := by
    refine checkParameters_of_acceptable (hacceptable.of_agrees fun other hother => ?_)
    rw [MixPresentation.parameters_linkParameters registry, List.mem_map] at hother
    obtain ⟨place, hplace, rfl⟩ := hother
    obtain ⟨latest, hfind, hagrees⟩ := Scope.covers_storeAll h.allowed hplace
    exact ⟨latest, List.mem_of_find?_eq_some hfind,
      hagrees.id, hagrees.kind, hagrees.selfTimed, hagrees.count⟩
  have hresolved : mix.elements.find? (fun member =>
      registry.audioElement? member.element = none) = none := by
    rw [List.find?_eq_none]
    intro member hmem
    obtain ⟨submix, hsubmix, hmember⟩ := List.mem_flatMap.1 hmem
    have hsome := ((h.submixes submix hsubmix).elements member hmember).resolved
    rw [Option.isSome_iff_ne_none] at hsome
    simpa using hsome
  rw [prepareMixPresentation, ensure_of h.fresh, hresolved]
  show (registry.checkParameters [] mix.linkParameters.parameters >>= fun _ =>
    pure mix.linkParameters) = _
  rw [hcheck]
  rfl

/-- A presentation by hand, where it was read: it is registered with its gains
linked, and so are the parameters that had no link. -/
theorem addMixPresentation_of_parsed {mode : ReadMode} {body : Bytes}
    {definitions : List Parameter}
    (hparsed : MixPresentation.parse mode registry body = .ok (mix, definitions)) :
    addMixPresentation mix registry = .ok () {
        registry.mergeParameters mix.linkParameters.parameters with
        mixPresentations := registry.mixPresentations ++ [mix.linkParameters] }
      ∧ ∀ id, (registry.mergeParameters mix.linkParameters.parameters).parameter? id
        = ((registry.mergeParameters definitions).parameter? id).map fun latest =>
          { latest with element := latest.element.or (mix.firstElement id) } := by
  obtain ⟨hreadable, rfl⟩ := MixPresentation.parse_eq_ok hparsed
  refine ⟨?_, parameter?_linkParameters_mix hreadable⟩
  rw [addMixPresentation, Stateful.get_bind, Stateful.lift_bind,
    prepareMixPresentation_of_readable hreadable]
  exact commitMixPresentation_eq_ok.2 rfl

/-! ### Registries that were read -/

/-- A registry that reading descriptors has led to. -/
inductive IsRead : Registry → Prop where
  | empty : IsRead .empty
  | step {registry after : Registry} {mode : ReadMode} {kind : Obu.Kind} {body : Bytes}
      (before : IsRead registry) (parsed : parseDescriptor mode kind body registry = .ok () after) :
      IsRead after

theorem IsRead.grounded (h : registry.IsRead) : registry.Grounded := by
  induction h with
  | empty => exact grounded_empty
  | step _ parsed ih => exact ih.registers (parseDescriptor_eq_ok.1 parsed)

/-- The codec config of elements that share a parameter. -/
def sharedConfig : CodecConfig where
  id := 0
  codec := .pcm { littleEndian := true, depth := .bits16 }
  frameSize := 4
  seekPreroll := 0
  sampleRate := 48000
  decoderConfig := []

/-- The body of the codec config. -/
def sharedConfigBody : Bytes :=
  [0, 0x69, 0x70, 0x63, 0x6D, 4, 0, 0, 1, 16, 0, 0, 0xBB, 0x80]

/-- The shared parameter, linked to the element that came first. -/
def sharedDefinition : Parameter where
  id := 7
  kind := .demixing
  rate := 1
  selfTimed := false
  duration := 4
  constantDuration := 4
  subblocks := []
  element := some 1

/-- An element with the shared parameter, as it is read. -/
def sharedElement (id substream : UInt32) (index : Nat) : AudioElement where
  id
  kind := .channel
  codecConfig := 0
  substreams := [{ Substream.ofConfig substream sharedConfig with
    streamIndex := index, channelLayout := .mono }]
  layers := [.scalable 0 1 0]
  demixing := some sharedDefinition
  reconGain := none
  defaultWeight := 2

/-- The body of such an element. -/
def sharedElementBody (id substream : UInt8) : Bytes :=
  [id, 0x00, 0, 1, substream, 1, 1, 7, 1, 0x80, 0x20, 0x20, 0x00, 1, 0]

/-- A registry with the first such element. -/
def sharedRegistry : Registry where
  codecConfigs := [sharedConfig]
  audioElements := [sharedElement 1 20 0]
  parameters := [sharedDefinition]

/-- A mix gain that is that of a submix first, and then that of an element. -/
def sharedGain (frameSize : UInt32) : Parameter where
  id := 9
  kind := .mixGain
  rate := 1
  selfTimed := false
  duration := frameSize
  constantDuration := frameSize
  subblocks := []
  element := none

/-- A presentation with the shared gain, as it is read. -/
def sharedMix : MixPresentation where
  id := 3
  labels := []
  annotations := {}
  submixes := [
    { elements := [], layouts := [], gain := sharedGain 0, defaultGain := ⟨0, 256⟩ },
    { elements := [{
        element := 1, annotations := {}, headphones := .stereo, gain := sharedGain 4
        defaultGain := ⟨0, 256⟩ }]
      layouts := [], gain := { sharedGain 0 with id := 8 }, defaultGain := ⟨0, 256⟩ }]

/-- The body of the presentation. -/
def sharedMixBody : Bytes :=
  [3, 0, 2, 0, 9, 1, 0x80, 0, 0, 0, 1, 1, 0x00, 0, 9, 1, 0x80, 0, 0, 8, 1, 0x80, 0, 0, 0]

theorem isRead_shared : sharedRegistry.IsRead := by
  have hconfig : parseDescriptor {} .codecConfig sharedConfigBody .empty
      = .ok () { codecConfigs := [sharedConfig] } :=
    parseDescriptor_eq_ok.2 (.codecConfig sharedConfig (by decide +kernel) rfl)
  have helement : parseDescriptor {} .audioElement (sharedElementBody 1 20)
      { codecConfigs := [sharedConfig] } = .ok () sharedRegistry :=
    parseDescriptor_eq_ok.2
      (.audioElement (sharedElement 1 20 0) [sharedDefinition] (by decide +kernel) (by decide))
  exact .step (.step .empty hconfig) helement

/-- The registry after the second element was read. -/
theorem parse_secondElement :
    parseDescriptor {} .audioElement (sharedElementBody 2 21) sharedRegistry
      = .ok () { sharedRegistry with
        audioElements := [sharedElement 1 20 0, sharedElement 2 21 1] } :=
  parseDescriptor_eq_ok.2
    (.audioElement (sharedElement 2 21 1) [sharedDefinition] (by decide +kernel) (by decide))

theorem listsOnce_secondElement : AudioElement.ListsOnce (sharedElementBody 2 21) := by
  have hkinds : AudioElement.readListedKinds.parse "audio element" (sharedElementBody 2 21)
      = .ok [some .demixing] := by
    decide +kernel
  intro kinds h
  rw [hkinds, Except.ok.injEq] at h
  subst h
  decide

/-- The registry after the presentation was read. -/
theorem parse_sharedMix :
    parseDescriptor {} .mixPresentation sharedMixBody sharedRegistry
      = .ok () { sharedRegistry with
        mixPresentations := [sharedMix]
        parameters := [sharedDefinition, sharedGain 4, { sharedGain 0 with id := 8 }] } :=
  parseDescriptor_eq_ok.2 (.mixPresentation sharedMix
    [sharedGain 4, { sharedGain 0 with id := 8 }] (by decide +kernel))

end Registry

end Iamf
