import Iamf.Proofs.Mix.Written
import Iamf.Proofs.Parameter.Sent

/-!
# `Iamf.Proofs.Mix.Openable`: mix presentations that were not read from anywhere

The writer of a mix presentation asks almost all that a reader does: that texts
have no zero in them, that loudspeakers make up a sound system, that the gains
are gains. It does not count the subblocks of a gain, which a reader does
(`MixPresentation.IsOpenable`). Texts of labels that come twice, loudness without
a known anchor and what does not fit into its bits are lost on the way.

* `Scope.Reflects.exists_consumes_mixGain`: the gain of an element or a submix.
* `MixPresentation.exists_parse_encode`: an openable presentation that was written
  is read.
-/

set_option autoImplicit false

namespace Iamf

open Parameter (Consistent Reflect)
open Read (Chain Consumes)

variable {sources : List Parameter} {bytes : Bytes}

/-- Whatever the texts are, there is one for each label. -/
theorem Annotations.exists_consumes {annotations : Annotations} {labels : List String}
    (hencode : annotations.encode labels = .ok bytes) :
    ∃ texts, Consumes (Annotations.read labels) bytes texts := by
  simp only [encode, outcome_bind_eq_ok, outcome_pure_eq_ok] at hencode
  obtain ⟨pieces, hpieces, rfl⟩ := hencode
  exact ⟨_, consumes_go annotations.textOf (outcome_mapM_eq_ok hpieces) {}⟩

/-- A mix gain that was written is read behind other definitions. -/
theorem Scope.Reflects.exists_consumes_mixGain {scope : Scope} {gain : Parameter}
    (h : scope.Reflects sources) (hconsistent : Consistent sources) (hmem : gain ∈ sources)
    (hopenable : gain.IsOpenable) (mode : ReadMode) (site : Site)
    (hencode : gain.encodeMixGain = .ok bytes) :
    ∃ read after, Consumes (Parameter.readDefinition mode .mixGain site scope) bytes (read, after)
      ∧ after.Reflects sources := by
  rw [Parameter.encodeMixGain, outcome_bind_eq_ok] at hencode
  obtain ⟨_, hkind, hencode⟩ := hencode
  rw [outcome_ensure_eq_ok] at hkind
  obtain ⟨hbytes, hallows, hstored⟩ := h.received hconsistent hmem hopenable site hencode
  obtain ⟨written, hwritten, hread⟩ := Parameter.consumes_encodeDefinition mode hallows
  cases hbytes.symm.trans hwritten
  have hreceived : (gain.received scope site).kind = .mixGain := hkind
  rw [hreceived] at hread
  exact ⟨_, _, hread, hstored⟩

/-- Items of a list are read one after the other if each one is in the scope that
those before it have left. -/
theorem Scope.Reflects.exists_chain {α β : Type} {encode : α → Except Error Bytes}
    {read : Scope → Read (β × Scope)} {items : List α} {pieces : List Bytes}
    (hencode : List.Forall₂ (fun item bytes => encode item = .ok bytes) items pieces) :
    ∀ {scope : Scope}, scope.Reflects sources →
      (∀ item ∈ items, ∀ bytes, encode item = .ok bytes → ∀ before : Scope,
        before.Reflects sources → ∃ value after, Consumes (read before) bytes (value, after)
          ∧ after.Reflects sources) →
      ∃ values after, Chain read scope values pieces after ∧ after.Reflects sources := by
  -- Every item leaves another scope behind, and all of them reflect the sources.
  induction hencode with
  | nil => exact fun {scope} hscope _ => ⟨[], scope, .nil scope, hscope⟩
  | @cons item bytes items pieces hfirst _ ih =>
    intro scope hscope hread
    obtain ⟨value, middle, hvalue, hmiddle⟩ :=
      hread item List.mem_cons_self bytes hfirst scope hscope
    obtain ⟨values, after, hvalues, hafter⟩ := ih hmiddle fun item hitem =>
      hread item (List.mem_cons_of_mem _ hitem)
    exact ⟨value :: values, after, .cons hvalue hvalues, hafter⟩

variable {mode : ReadMode} {registry : Registry} {labels : List String} {scope : Scope}

/-- An element of a submix is read where it refers to an element that is there. -/
theorem SubmixElement.exists_consumes {member : SubmixElement} (hscope : scope.Reflects sources)
    (hconsistent : Consistent sources) (hmem : member.gain ∈ sources)
    (hopenable : member.gain.IsOpenable)
    (hresolved : (registry.audioElement? member.element).isSome)
    (hencode : member.encode labels = .ok bytes) :
    ∃ read after, Consumes (SubmixElement.read mode registry labels scope) bytes (read, after)
      ∧ after.Reflects sources := by
  obtain ⟨element, helement⟩ := Option.isSome_iff_exists.1 hresolved
  obtain ⟨annotations, gain, hannotations, hgain, hread⟩ :=
    consumes_of_encode mode helement hencode
  obtain ⟨texts, htexts⟩ := Annotations.exists_consumes hannotations
  obtain ⟨definition, after, hdefinition, hafter⟩ :=
    hscope.exists_consumes_mixGain hconsistent hmem hopenable mode _ hgain
  exact ⟨_, after, hread texts definition after htexts hdefinition, hafter⟩

/-- A submix is read where it refers to elements that are there. -/
theorem Submix.exists_consumes {submix : Submix} (hscope : scope.Reflects sources)
    (hconsistent : Consistent sources)
    (hgains : ∀ gain ∈ submix.elements.map (·.gain) ++ [submix.gain],
      gain ∈ sources ∧ gain.IsOpenable)
    (hresolved : ∀ member ∈ submix.elements, (registry.audioElement? member.element).isSome)
    (hencode : submix.encode labels = .ok bytes) (hsize : bytes.length < 2 ^ 32) :
    ∃ read after, Consumes (Submix.read mode registry labels scope) bytes (read, after)
      ∧ after.Reflects sources := by
  obtain ⟨helements, hlayouts⟩ := length_le_of_encode hencode
  obtain ⟨pieces, gain, hpieces, hgain, hread⟩ := consumes_of_encode mode
    (Nat.lt_of_le_of_lt helements hsize) (Nat.lt_of_le_of_lt hlayouts hsize) hencode
  obtain ⟨members, middle, hmembers, hmiddle⟩ := Scope.Reflects.exists_chain hpieces hscope
    fun member hmember _ hwritten before hbefore =>
      have hlisted : member.gain ∈ submix.elements.map (·.gain) ++ [submix.gain] :=
        List.mem_append_left _ (List.mem_map_of_mem hmember)
      SubmixElement.exists_consumes hbefore hconsistent (hgains _ hlisted).1 (hgains _ hlisted).2
        (hresolved member hmember) hwritten
  obtain ⟨hmem, hopenable⟩ := hgains submix.gain (by simp)
  obtain ⟨definition, after, hdefinition, hafter⟩ :=
    hmiddle.exists_consumes_mixGain hconsistent hmem hopenable mode {} hgain
  exact ⟨_, after, hread members middle definition after hmembers hdefinition, hafter⟩

namespace MixPresentation

/-- A presentation that a writer takes and a reader does too. -/
def IsOpenable (mix : MixPresentation) : Prop :=
  ∀ definition ∈ mix.parameters, definition.IsOpenable

/-- An openable presentation that was written is read where its elements are there
and definitions have the shapes of those that were sent. It keeps its id, and
what it brings has such shapes again. -/
theorem exists_parse_encode {mix : MixPresentation} {body : Bytes} (mode : ReadMode)
    (h : mix.IsOpenable) (hencode : mix.encode = .ok body) (hsize : body.length < 2 ^ 32)
    (hfresh : registry.mixPresentation? mix.id = none)
    (hresolved : ∀ member ∈ mix.elements, (registry.audioElement? member.element).isSome)
    (hconsistent : Consistent sources) (hsources : mix.parameters ⊆ sources)
    (hparameters : Reflect sources registry.parameters) :
    ∃ read definitions, parse mode registry body = .ok (read, definitions) ∧ read.id = mix.id
      ∧ Reflect sources definitions := by
  obtain ⟨hlabels, hsubmixes, hlonger⟩ := length_le_of_encode hencode
  obtain ⟨annotations, pieces, hannotations, hpieces, hparse⟩ := parse_of_encode hfresh
    (Nat.lt_of_le_of_lt hlabels hsize) (Nat.lt_of_le_of_lt hsubmixes hsize) hencode
  obtain ⟨texts, htexts⟩ := Annotations.exists_consumes hannotations
  have hstart : Scope.Reflects sources { known := registry.parameters } :=
    ⟨hparameters, Parameter.reflect_nil sources⟩
  obtain ⟨submixes, after, hchain, hafter⟩ := Scope.Reflects.exists_chain hpieces hstart
    fun submix hsubmix bytes hwritten before hbefore =>
      Submix.exists_consumes hbefore hconsistent
        (fun gain hgain =>
          have hlisted : gain ∈ mix.parameters := List.mem_flatMap.2 ⟨submix, hsubmix, hgain⟩
          ⟨hsources hlisted, h gain hlisted⟩)
        (fun member hmember => hresolved member (List.mem_flatMap.2 ⟨submix, hsubmix, hmember⟩))
        hwritten (Nat.lt_of_le_of_lt (hlonger submix hsubmix bytes hwritten) hsize)
  exact ⟨_, _, hparse texts submixes after htexts hchain, rfl, hafter.pending⟩

end MixPresentation

end Iamf
