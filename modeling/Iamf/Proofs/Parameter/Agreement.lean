import Iamf.Registry.Update
import Mathlib.Data.List.Nodup

/-!
# `Iamf.Proofs.Parameter.Agreement`: definitions that may follow each other

A parameter may be defined again as long as kind, timing mode and number of
subblocks stay. Two mechanisms watch over that: `Registry.checkParameters` goes
through a finished list, and a `Scope` is asked while an OBU is read. Both end
with a list of definitions that is merged into the registry, and both make sure
of the same thing, `Acceptable`, which is all that merging needs.

* `acceptable_of_checkParameters`, `Scope.Sound.acceptable`: the two mechanisms;
  `checkParameters_of_acceptable`: the first one asks for no more.
* `covers_merged_of_covers`, `covers_merged`: a merge keeps and adds what it must.
-/

set_option autoImplicit false

namespace Iamf.Parameter

/-- Two definitions of one parameter of the same shape. -/
structure Agrees (old latest : Parameter) : Prop where
  id : old.id = latest.id
  kind : old.kind = latest.kind
  selfTimed : old.selfTimed = latest.selfTimed
  count : old.subblocks.length = latest.subblocks.length

namespace Agrees

variable {first second third : Parameter}

theorem refl (definition : Parameter) : definition.Agrees definition :=
  ⟨rfl, rfl, rfl, rfl⟩

theorem symm (h : first.Agrees second) : second.Agrees first :=
  ⟨h.id.symm, h.kind.symm, h.selfTimed.symm, h.count.symm⟩

theorem trans (h : first.Agrees second) (h' : second.Agrees third) : first.Agrees third :=
  ⟨h.id.trans h'.id, h.kind.trans h'.kind, h.selfTimed.trans h'.selfTimed,
    h.count.trans h'.count⟩

end Agrees

/-! ### Putting a definition into a list -/

variable {combine : Parameter → Parameter → Parameter}

/-- A definition that is put into a list is then the one of its id, combined
with the one that was there. -/
theorem find?_putInto_self {definition : Parameter}
    (hid : ∀ old, (combine old definition).id = definition.id) (definitions : List Parameter) :
    (definition.putInto combine definitions).find? (·.id = definition.id)
      = some (((definitions.find? (·.id = definition.id)).map (combine · definition)).getD
          definition) := by
  induction definitions with
  | nil => simp [putInto]
  | cons old others ih =>
    by_cases h : old.id = definition.id
    · simp [putInto, h, hid]
    · simp [putInto, h, ih]

/-- Definitions of other ids stay. -/
theorem find?_putInto_ne {definition : Parameter} {id : UInt32} (hne : definition.id ≠ id)
    (hid : ∀ old, (combine old definition).id = definition.id) (definitions : List Parameter) :
    (definition.putInto combine definitions).find? (·.id = id)
      = definitions.find? (·.id = id) := by
  induction definitions with
  | nil => simp [putInto, hne]
  | cons old others ih =>
    by_cases h : old.id = definition.id
    · simp [putInto, h, hid, hne]
    · simp only [putInto, if_neg h, List.find?_cons, ih]

/-- The ids of a list after a definition was put into it: a new id comes last. -/
theorem map_id_putInto {definition : Parameter}
    (hid : ∀ old, (combine old definition).id = definition.id) (definitions : List Parameter) :
    (definition.putInto combine definitions).map (·.id)
      = if definition.id ∈ definitions.map (·.id) then definitions.map (·.id)
        else definitions.map (·.id) ++ [definition.id] := by
  induction definitions with
  | nil => simp [putInto]
  | cons old others ih =>
    by_cases h : old.id = definition.id
    · simp [putInto, h, hid]
    · have h' : definition.id ≠ old.id := fun heq => h heq.symm
      simp only [putInto, if_neg h, List.map_cons, ih, List.mem_cons, h', false_or]
      split <;> simp

/-- A definition of a new id goes behind all others. -/
theorem putInto_of_fresh {definition : Parameter} {definitions : List Parameter}
    (h : ∀ old ∈ definitions, old.id ≠ definition.id) :
    definition.putInto combine definitions = definitions ++ [definition] := by
  induction definitions with
  | nil => rfl
  | cons old others ih =>
    obtain ⟨hfirst, hothers⟩ := List.forall_mem_cons.1 h
    rw [putInto, if_neg hfirst, ih hothers, List.cons_append]

theorem nodup_putInto {definition : Parameter}
    (hid : ∀ old, (combine old definition).id = definition.id) {definitions : List Parameter}
    (h : (definitions.map (·.id)).Nodup) :
    ((definition.putInto combine definitions).map (·.id)).Nodup := by
  rw [map_id_putInto hid]
  split
  · exact h
  · rename_i hnew
    rw [List.nodup_append]
    refine ⟨h, List.nodup_singleton _, ?_⟩
    intro id hmem last hlast
    rw [List.mem_singleton] at hlast
    rintro rfl
    exact hnew (hlast ▸ hmem)

/-- What is in a list after a definition was put into it. -/
theorem mem_putInto {definition member : Parameter} {definitions : List Parameter}
    (h : member ∈ definition.putInto combine definitions) :
    member ∈ definitions ∨ member = definition ∨ ∃ old ∈ definitions,
      old.id = definition.id ∧ member = combine old definition := by
  induction definitions with
  | nil => exact .inr (.inl (by simpa [putInto] using h))
  | cons old others ih =>
    simp only [putInto] at h
    split at h
    · rename_i hid
      rcases List.mem_cons.1 h with rfl | hmem
      · exact .inr (.inr ⟨old, List.mem_cons_self, hid, rfl⟩)
      · exact .inl (List.mem_cons_of_mem _ hmem)
    · rcases List.mem_cons.1 h with rfl | hmem
      · exact .inl List.mem_cons_self
      · rcases ih hmem with hold | hnew | ⟨former, hformer, hrest⟩
        · exact .inl (List.mem_cons_of_mem _ hold)
        · exact .inr (.inl hnew)
        · exact .inr (.inr ⟨former, List.mem_cons_of_mem _ hformer, hrest⟩)

/-- A definition that is found by an id has that id. -/
theorem id_of_find? {definitions : List Parameter} {id : UInt32} {definition : Parameter}
    (h : definitions.find? (·.id = id) = some definition) : definition.id = id := by
  simpa using List.find?_some h

/-! ### Lists that cover and admit definitions -/

/-- The list has a definition of this id, in this shape. -/
def Covers (definitions : List Parameter) (definition : Parameter) : Prop :=
  ∃ latest, definitions.find? (·.id = definition.id) = some latest ∧ latest.Agrees definition

/-- The list has no definition of this id in another shape. -/
def Admits (definitions : List Parameter) (definition : Parameter) : Prop :=
  ∀ old, definitions.find? (·.id = definition.id) = some old → old.Agrees definition

/-- A definition that was put in is covered. -/
theorem covers_putInto {definition : Parameter}
    (hcombine : ∀ old, (combine old definition).Agrees definition)
    (definitions : List Parameter) :
    Covers (definition.putInto combine definitions) definition := by
  refine ⟨_, find?_putInto_self (fun old => (hcombine old).id) definitions, ?_⟩
  cases definitions.find? (·.id = definition.id) with
  | none => exact .refl definition
  | some old => exact hcombine old

/-- Putting in a definition that is admitted keeps what is covered. -/
theorem Covers.putInto {definition covered : Parameter} {definitions : List Parameter}
    (hcovers : Covers definitions covered) (hadmits : Admits definitions definition)
    (hcombine : ∀ old, (combine old definition).Agrees definition) :
    Covers (definition.putInto combine definitions) covered := by
  obtain ⟨latest, hlatest, hagrees⟩ := hcovers
  by_cases heq : definition.id = covered.id
  · obtain ⟨new, hnew, hnewAgrees⟩ := covers_putInto hcombine definitions
    rw [← heq] at hlatest
    exact ⟨new, heq ▸ hnew, hnewAgrees.trans ((hadmits latest hlatest).symm.trans hagrees)⟩
  · exact ⟨latest, (find?_putInto_ne heq (fun old => (hcombine old).id) _).trans hlatest, hagrees⟩

/-- Definitions that can be merged into those known: none contradicts a known
one, and no two of them contradict each other. -/
structure Acceptable (known definitions : List Parameter) : Prop where
  admitted : ∀ definition ∈ definitions, Admits known definition
  agreeing : ∀ first ∈ definitions, ∀ second ∈ definitions, first.id = second.id →
    first.Agrees second

/-- Definitions of the shapes of acceptable ones are acceptable. -/
theorem Acceptable.of_agrees {known definitions others : List Parameter}
    (h : Acceptable known definitions)
    (hagrees : ∀ other ∈ others, ∃ definition ∈ definitions, definition.Agrees other) :
    Acceptable known others where
  admitted := by
    intro other hother old hold
    obtain ⟨definition, hmem, hsame⟩ := hagrees other hother
    exact (h.admitted definition hmem old (hsame.id ▸ hold)).trans hsame
  agreeing := by
    intro first hfirst second hsecond hid
    obtain ⟨definition, hmem, hsame⟩ := hagrees first hfirst
    obtain ⟨definition', hmem', hsame'⟩ := hagrees second hsecond
    have hids : definition.id = definition'.id := hsame.id.trans (hid.trans hsame'.id.symm)
    exact hsame.symm.trans ((h.agreeing definition hmem definition' hmem' hids).trans hsame')

end Iamf.Parameter

/-! ### Merging into a registry -/

namespace Iamf.Registry

open Parameter (Agrees Admits Covers Acceptable id_of_find?)

/-- How a merge combines a definition with the one that was there. -/
abbrev keepLink (old latest : Parameter) : Parameter :=
  { latest with element := old.element <|> latest.element }

theorem keepLink_agrees (latest old : Parameter) : (keepLink old latest).Agrees latest :=
  ⟨rfl, rfl, rfl, rfl⟩

/-- The parameters after a merge. -/
abbrev merged (known definitions : List Parameter) : List Parameter :=
  definitions.foldl (fun parameters definition => definition.putInto keepLink parameters) known

/-- The first of some acceptable definitions can be put in, and the others are
acceptable then. -/
theorem acceptable_putInto {known definitions : List Parameter} {definition : Parameter}
    (h : Acceptable known (definition :: definitions)) :
    Acceptable (definition.putInto keepLink known) definitions where
  admitted := by
    intro other hother old hold
    by_cases heq : definition.id = other.id
    · obtain ⟨latest, hlatest, hagrees⟩ :=
        Parameter.covers_putInto (keepLink_agrees definition) known
      rw [heq, hold, Option.some.injEq] at hlatest
      exact hlatest ▸ hagrees.trans
        (h.agreeing _ List.mem_cons_self _ (List.mem_cons_of_mem _ hother) heq)
    · rw [Parameter.find?_putInto_ne heq fun _ => rfl] at hold
      exact h.admitted other (List.mem_cons_of_mem _ hother) old hold
  agreeing := fun first hfirst second hsecond =>
    h.agreeing first (List.mem_cons_of_mem _ hfirst) second (List.mem_cons_of_mem _ hsecond)

/-- What was covered stays covered. -/
theorem covers_merged_of_covers {known definitions : List Parameter} {covered : Parameter}
    (h : Acceptable known definitions) (hcovers : Covers known covered) :
    Covers (merged known definitions) covered := by
  induction definitions generalizing known with
  | nil => exact hcovers
  | cons definition definitions ih =>
    exact ih (acceptable_putInto h)
      (hcovers.putInto (h.admitted _ List.mem_cons_self) (keepLink_agrees definition))

/-- Every merged definition is covered. -/
theorem covers_merged {known definitions : List Parameter} {definition : Parameter}
    (h : Acceptable known definitions) (hmem : definition ∈ definitions) :
    Covers (merged known definitions) definition := by
  induction definitions generalizing known with
  | nil => exact absurd hmem List.not_mem_nil
  | cons first definitions ih =>
    rcases List.mem_cons.1 hmem with rfl | hmem
    · rw [merged, List.foldl_cons]
      exact covers_merged_of_covers (acceptable_putInto h)
        (Parameter.covers_putInto (keepLink_agrees definition) known)
    · exact ih (acceptable_putInto h) hmem

theorem nodup_merged {known : List Parameter} (definitions : List Parameter)
    (h : (known.map (·.id)).Nodup) : ((merged known definitions).map (·.id)).Nodup := by
  induction definitions generalizing known with
  | nil => exact h
  | cons definition definitions ih => exact ih (Parameter.nodup_putInto (fun _ => rfl) h)

/-! ### Checking a finished list -/

theorem conflict?_eq_none {old latest : Parameter} (hid : old.id = latest.id)
    (h : conflict? old latest = none) : old.Agrees latest := by
  simp only [conflict?] at h
  split at h
  · exact absurd h (by simp)
  rename_i hkind
  split at h
  · exact absurd h (by simp)
  rename_i htiming
  split at h
  · exact absurd h (by simp)
  rename_i hcount
  exact ⟨hid, not_not.1 hkind, not_not.1 htiming, not_not.1 hcount⟩

/-- One more definition that agrees with the latest of its id, among those seen
or else among those known. -/
theorem acceptable_cons {known seen : List Parameter} {definition : Parameter}
    (h : Acceptable known seen)
    (hlatest : ∀ old, (seen.find? (·.id = definition.id) <|> known.find? (·.id = definition.id))
      = some old → old.Agrees definition) :
    Acceptable known (definition :: seen) := by
  -- Whatever was seen of this id agrees with the latest one, hence with this one.
  have hseen : ∀ other ∈ seen, other.id = definition.id → other.Agrees definition := by
    intro other hother hid
    cases hfind : seen.find? (·.id = definition.id) with
    | none => exact absurd hid (by simpa using List.find?_eq_none.1 hfind other hother)
    | some old =>
      have hold : old.id = definition.id := id_of_find? hfind
      exact (h.agreeing other hother old (List.mem_of_find?_eq_some hfind)
        (hid.trans hold.symm)).trans (hlatest old (by rw [hfind]; rfl))
  refine ⟨?_, ?_⟩
  · intro other hother old hfind
    rcases List.mem_cons.1 hother with rfl | hother
    · cases hfirst : seen.find? (·.id = other.id) with
      | none => exact hlatest old (by rw [hfirst]; exact hfind)
      | some newer =>
        have hnewer : newer.id = other.id := id_of_find? hfirst
        have hmem := List.mem_of_find?_eq_some hfirst
        exact (h.admitted newer hmem old (hnewer ▸ hfind)).trans (hseen newer hmem hnewer)
    · exact h.admitted other hother old hfind
  · intro first hfirst second hsecond hid
    rcases List.mem_cons.1 hfirst with rfl | hseenFirst
    · rcases List.mem_cons.1 hsecond with rfl | hseenSecond
      · exact .refl _
      · exact (hseen second hseenSecond hid.symm).symm
    · rcases List.mem_cons.1 hsecond with rfl | hseenSecond
      · exact hseen first hseenFirst hid
      · exact h.agreeing first hseenFirst second hseenSecond hid

theorem acceptable_of_checkParameters_from {registry : Registry} {definitions : List Parameter} :
    ∀ {seen : List Parameter}, Acceptable registry.parameters seen →
      registry.checkParameters seen definitions = .ok () →
      Acceptable registry.parameters (definitions.reverse ++ seen) := by
  induction definitions with
  | nil => exact fun hseen _ => hseen
  | cons definition definitions ih =>
    intro seen hseen h
    rw [checkParameters] at h
    split at h
    · exact absurd h (by simp [throw, throwThe, MonadExceptOf.throw])
    · rename_i hconflict
      rw [List.reverse_cons, List.append_assoc, List.singleton_append]
      refine ih (acceptable_cons hseen ?_) h
      intro old hold
      have hid : old.id = definition.id := by
        rw [Option.orElse_eq_orElse, Option.orElse_eq_or, Option.or_eq_some_iff] at hold
        rcases hold with hfind | ⟨-, hfind⟩
        · exact id_of_find? hfind
        · exact id_of_find? hfind
      refine conflict?_eq_none hid ?_
      rwa [parameter?, hold, Option.bind_some] at hconflict

/-- A list that passes the check is acceptable. -/
theorem acceptable_of_checkParameters {registry : Registry} {definitions : List Parameter}
    (h : registry.checkParameters [] definitions = .ok ()) :
    Acceptable registry.parameters definitions := by
  have hnil : Acceptable registry.parameters [] := ⟨by simp, by simp⟩
  have hall := acceptable_of_checkParameters_from hnil h
  rw [List.append_nil] at hall
  exact ⟨fun definition hmem => hall.admitted definition (List.mem_reverse.2 hmem),
    fun first hfirst second hsecond =>
      hall.agreeing first (List.mem_reverse.2 hfirst) second (List.mem_reverse.2 hsecond)⟩

theorem conflict?_of_agrees {old latest : Parameter} (h : old.Agrees latest) :
    conflict? old latest = none := by
  rw [conflict?, if_neg (not_not.2 h.kind), if_neg (not_not.2 h.selfTimed),
    if_neg (not_not.2 h.count)]

theorem checkParameters_of_acceptable_from {registry : Registry} {definitions : List Parameter} :
    ∀ {seen : List Parameter}, Acceptable registry.parameters (definitions.reverse ++ seen) →
      registry.checkParameters seen definitions = .ok () := by
  induction definitions with
  | nil => exact fun _ => rfl
  | cons definition definitions ih =>
    intro seen h
    rw [List.reverse_cons, List.append_assoc, List.singleton_append] at h
    have hmem : definition ∈ definitions.reverse ++ definition :: seen :=
      List.mem_append_right _ List.mem_cons_self
    have hagrees : ∀ old, (seen.find? (·.id = definition.id)
        <|> registry.parameter? definition.id) = some old → old.Agrees definition := by
      intro old hold
      rw [Option.orElse_eq_orElse, Option.orElse_eq_or, Option.or_eq_some_iff] at hold
      rcases hold with hfind | ⟨-, hfind⟩
      · have hseen : old ∈ definitions.reverse ++ definition :: seen :=
          List.mem_append_right _ (List.mem_cons_of_mem _ (List.mem_of_find?_eq_some hfind))
        exact h.agreeing old hseen definition hmem (id_of_find? hfind)
      · exact h.admitted definition hmem old hfind
    have hnone : (seen.find? (·.id = definition.id)
        <|> registry.parameter? definition.id).bind (conflict? · definition) = none := by
      rw [Option.bind_eq_none_iff]
      exact fun old hold => conflict?_of_agrees (hagrees old hold)
    rw [checkParameters]
    simp only [hnone]
    exact ih h

/-- An acceptable list passes the check. -/
theorem checkParameters_of_acceptable {registry : Registry} {definitions : List Parameter}
    (h : Acceptable registry.parameters definitions) :
    registry.checkParameters [] definitions = .ok () := by
  refine checkParameters_of_acceptable_from (h.of_agrees fun other hother => ?_)
  rw [List.append_nil, List.mem_reverse] at hother
  exact ⟨other, hother, .refl other⟩

end Iamf.Registry

/-! ### Watching over an OBU while it is read -/

namespace Iamf.Scope

open Parameter (Admits Covers Acceptable)

/-- Every id is pending once, and nothing pending contradicts what is known. -/
structure Sound (scope : Scope) : Prop where
  nodup : (scope.pending.map (·.id)).Nodup
  admitted : ∀ definition ∈ scope.pending, Admits scope.known definition

/-- The scope holds no definition of this id in another shape. -/
def AgreesWith (scope : Scope) (definition : Parameter) : Prop :=
  ∀ old, scope.find? definition.id = some old → old.Agrees definition

theorem find?_eq_or (scope : Scope) (id : UInt32) :
    scope.find? id
      = (scope.pending.find? (·.id = id)).or (scope.known.find? (·.id = id)) := by
  rw [find?, Option.orElse_eq_orElse, Option.orElse_eq_or]

/-- A definition in scope has the id that it is looked up by. -/
theorem id_of_find? {scope : Scope} {id : UInt32} {definition : Parameter}
    (h : scope.find? id = some definition) : definition.id = id := by
  rw [find?_eq_or, Option.or_eq_some_iff] at h
  rcases h with hfind | ⟨-, hfind⟩
  · exact Parameter.id_of_find? hfind
  · exact Parameter.id_of_find? hfind

/-- What is pending once a definition is stored was pending before, or is the
definition. -/
theorem mem_pending_store {scope : Scope} {definition other : Parameter}
    (h : other ∈ (scope.store definition).pending) :
    other ∈ scope.pending ∨ other = definition := by
  rcases Parameter.mem_putInto h with hold | rfl | ⟨_, _, _, rfl⟩
  · exact .inl hold
  · exact .inr rfl
  · exact .inr rfl

theorem find?_store_self (scope : Scope) (definition : Parameter) :
    (scope.store definition).find? definition.id = some definition := by
  have hfind : (scope.store definition).pending.find? (·.id = definition.id)
      = some (((scope.pending.find? (·.id = definition.id)).map fun _ => definition).getD
          definition) :=
    Parameter.find?_putInto_self (fun _ => rfl) scope.pending
  rw [find?, hfind]
  cases scope.pending.find? (·.id = definition.id) <;> rfl

theorem find?_store_ne (scope : Scope) {definition : Parameter} {id : UInt32}
    (h : definition.id ≠ id) : (scope.store definition).find? id = scope.find? id := by
  have hfind : (scope.store definition).pending.find? (·.id = id)
      = scope.pending.find? (·.id = id) :=
    Parameter.find?_putInto_ne h (fun _ => rfl) scope.pending
  rw [find?, hfind]
  rfl

theorem find?_of_pending {scope : Scope} {id : UInt32} {old : Parameter}
    (h : scope.pending.find? (·.id = id) = some old) : scope.find? id = some old := by
  simp [find?, h]

theorem AgreesWith.admits {scope : Scope} {definition : Parameter}
    (h : scope.AgreesWith definition) : Admits scope.pending definition :=
  fun old hold => h old (find?_of_pending hold)

theorem sound_of_known (known : List Parameter) : Sound { known } :=
  ⟨by simp, by simp⟩

/-- Storing a definition that agrees keeps the scope sound. -/
theorem Sound.store {scope : Scope} {definition : Parameter} (h : scope.Sound)
    (hagrees : scope.AgreesWith definition) : (scope.store definition).Sound where
  nodup := Parameter.nodup_putInto (fun _ => rfl) h.nodup
  admitted := by
    -- What is pending of the id agrees with what is known of it, and the new one with that.
    have hknown : Admits scope.known definition := by
      intro old hold
      cases hpending : scope.pending.find? (·.id = definition.id) with
      | none => exact hagrees old (by simp [find?, hpending, hold])
      | some newer =>
        have hid : newer.id = definition.id := Parameter.id_of_find? hpending
        exact (h.admitted newer (List.mem_of_find?_eq_some hpending) old (hid ▸ hold)).trans
          (hagrees newer (find?_of_pending hpending))
    intro other hother
    rcases mem_pending_store hother with hold | rfl
    · exact h.admitted other hold
    · exact hknown

/-- What an OBU has brought can be merged into what is known. -/
theorem Sound.acceptable {scope : Scope} (h : scope.Sound) :
    Acceptable scope.known scope.pending where
  admitted := h.admitted
  agreeing := by
    intro first hfirst second hsecond hid
    rw [List.inj_on_of_nodup_map h.nodup hfirst hsecond hid]
    exact .refl second

theorem covers_store (scope : Scope) (definition : Parameter) :
    Covers (scope.store definition).pending definition :=
  Parameter.covers_putInto (fun _ => .refl definition) scope.pending

theorem covers_store_of_covers {scope : Scope} {definition covered : Parameter}
    (hagrees : scope.AgreesWith definition) (h : Covers scope.pending covered) :
    Covers (scope.store definition).pending covered :=
  h.putInto hagrees.admits fun _ => .refl definition

end Iamf.Scope
