import Iamf.Proofs.Registry.Failing
import Iamf.Proofs.Stream.Blamed
import Iamf.Proofs.Stream.Schedules

/-!
# `Iamf.Proofs.Stream.Resolved`: links of definitions lead to elements

The link of a definition is set when the definition is read, in front of the element
that it leads to: the element may still turn out to be malformed, or to list a
substream that is taken. Later definitions of the same parameter take the link over,
also those in other elements. So whether a link leads anywhere is not seen where it
is set. It follows from what a registry keeps. A descriptor that fails leaves no
definition behind, one that succeeds comes with its element, and no element ever
goes away.

The elements and presentations of a registry have definitions of their own, which
need not be the registered ones. `Resolved` is about both.

* `Resolved.registers`, `Resolved.left`: reading a descriptor, which may fail.
* `links_resolve`: links of whatever was read, and why no call of a demuxer fails on one.
-/

set_option autoImplicit false

namespace Iamf

namespace Registry

/-- The definitions that are registered are grounded, and so are those that elements
and presentations embed. -/
structure Resolved (registry : Registry) : Prop where
  registered : registry.Grounded
  embedded : ∀ definition ∈ registry.embedded, registry.Grounds definition

theorem resolved_empty : Resolved .empty where
  registered := grounded_empty
  embedded := fun _ hmem => absurd hmem List.not_mem_nil

/-! ### Steps and runs -/

/-- Reading a descriptor keeps a registry resolved. -/
theorem Resolved.registers {mode : ReadMode} {registry after : Registry} {body : Bytes}
    {kind : Obu.Kind} (h : registry.Resolved)
    (hregisters : Registers mode registry body kind after) : after.Resolved where
  registered := h.registered.registers hregisters
  embedded := by
    intro definition hmem
    -- What was embedded before leads where it did. What is new was held against the registered
    -- definitions, not against the embedded ones.
    cases hregisters with
    | sequenceHeader | codecConfig | unsupported | other =>
      exact (h.embedded definition hmem).mono fun _ hid => hid
    | audioElement element definitions parsed =>
      obtain ⟨hreadable, -⟩ := AudioElement.parse_eq_ok parsed
      rcases mem_embedded_addElement.1 hmem with hold | hnew
      · exact (h.embedded definition hold).mono fun _ hid => isSome_find?_append hid
      · exact h.registered.of_allows (hreadable.allows hnew) rfl
    | mixPresentation mix definitions parsed =>
      obtain ⟨hreadable, -⟩ := MixPresentation.parse_eq_ok parsed
      rcases mem_embedded_addMix.1 hmem with hold | hnew
      · exact (h.embedded definition hold).mono fun _ hid => hid
      · exact ((h.registered.of_readable hreadable).1 definition hnew).mono fun _ hid => hid

/-- So does a descriptor that fails: it leaves no definition behind. -/
theorem Resolved.left {registry : Registry} (h : registry.Resolved) (mode : ReadMode)
    (kind : Obu.Kind) (body : Bytes) :
    (left (parseDescriptor mode kind body) registry).Resolved := by
  rw [Registry.left]
  split
  · rename_i after hparse
    exact h.registers (parseDescriptor_eq_ok.1 hparse)
  · rename_i error after hfailed
    rw [atomic_parseDescriptor mode kind body hfailed]
    exact h

/-- The body of a descriptor, and how it is read. -/
structure Descriptor where
  /-- How strictly. -/
  mode : ReadMode := {}
  /-- What the header says it is. -/
  kind : Obu.Kind
  /-- The bytes. -/
  body : Bytes

/-- Reading it. -/
def Descriptor.operation (descriptor : Descriptor) : Operation :=
  .parseDescriptor descriptor.mode descriptor.kind descriptor.body

/-- The registry after reading some descriptors, each of which may fail. -/
def readAll (descriptors : List Descriptor) : Registry :=
  performAll (descriptors.map Descriptor.operation)

theorem Resolved.foldl_perform {registry : Registry} (h : registry.Resolved)
    (descriptors : List Descriptor) :
    ((descriptors.map Descriptor.operation).foldl perform registry).Resolved := by
  induction descriptors generalizing registry with
  | nil => exact h
  | cons descriptor descriptors ih =>
    exact ih (h.left descriptor.mode descriptor.kind descriptor.body)

/-- Every sequence of descriptors, some of which may fail, leads to a resolved registry. -/
theorem resolved_readAll (descriptors : List Descriptor) : (readAll descriptors).Resolved :=
  resolved_empty.foldl_perform descriptors

/-! ### Links -/

/-- The link of a definition leads to an element of the registry. Demixing and recon gain
have one. -/
structure Resolves (registry : Registry) (definition : Parameter) : Prop where
  linked : definition.kind = .demixing ∨ definition.kind = .reconGain →
    definition.element.isSome
  leads : ∀ id ∈ definition.element, ∃ element ∈ registry.audioElements, element.id = id

theorem Grounds.resolves {registry : Registry} {definition : Parameter}
    (h : registry.Grounds definition) : registry.Resolves definition where
  linked := by
    intro hkind
    refine h.linked fun hmix => ?_
    rw [hmix] at hkind
    simp at hkind
  leads := by
    intro id hid
    obtain ⟨element, hfound⟩ := Option.isSome_iff_exists.1 (h.resolved id hid)
    exact ⟨element, List.mem_of_find?_eq_some hfound, by simpa using List.find?_some hfound⟩

theorem Resolved.resolves {registry : Registry} (h : registry.Resolved) :
    ∀ definition ∈ registry.parameters ++ registry.embedded, registry.Resolves definition := by
  intro definition hmem
  rcases List.mem_append.1 hmem with hregistered | hembedded
  · exact (h.registered definition hregistered).resolves
  · exact (h.embedded definition hembedded).resolves

end Registry

namespace Demuxer

theorem resolved_of_ofInput {config : DemuxerConfig} {input : Input} {opened : Demuxer}
    (h : ofInput config input = .ok opened) : opened.registry.Resolved := by
  obtain ⟨obus, -, hall⟩ := ofInput_eq_ok h
  exact hall.induction Registry.resolved_empty fun hbefore hregisters =>
    hbefore.registers hregisters

end Demuxer

/-- An error of a recon gain block whose definition has no link, or one that leads nowhere. -/
def Error.IsUnresolved (error : Error) : Prop :=
  (∃ parameter, error = .invalidData (.reconGainWithoutElement parameter))
    ∨ ∃ id, error = .unknownReference .audioElement id

theorem Error.IsPlayed.resolved {failure : Option String} {error : Error}
    (h : error.IsPlayed failure) : ¬ error.IsUnresolved := by
  -- Neither error is one of the bytes, of the input, or of a substream.
  rintro (⟨parameter, rfl⟩ | ⟨id, rfl⟩)
  · rcases h with (hbytes | ⟨text, -, htext⟩) | ⟨other, hother⟩
    · cases hbytes
    · cases htext
    · cases hother
  · rcases h with (hbytes | ⟨text, -, htext⟩) | ⟨other, hother⟩
    · cases hbytes
    · cases htext
    · cases hother

/-- All links lead to elements in every registry that reading descriptors can lead to,
those that fail included, and in every one that opening a stream gives. So no call behind
the opening fails on a link, also after other failures. -/
theorem links_resolve :
    (∀ descriptors : List Registry.Descriptor,
      ∀ definition ∈ (Registry.readAll descriptors).parameters
          ++ (Registry.readAll descriptors).embedded,
        (Registry.readAll descriptors).Resolves definition)
    ∧ ∀ (config : DemuxerConfig) (calls : Nat) (input : Input) (seen : Demuxer.Transcript),
      Demuxer.transcript config calls input = .ok seen →
        (∀ definition ∈ seen.registry.parameters ++ seen.registry.embedded,
          seen.registry.Resolves definition)
        ∧ ∀ error, .error error ∈ seen.results → ¬ error.IsUnresolved := by
  refine ⟨fun descriptors => (Registry.resolved_readAll descriptors).resolves, ?_⟩
  intro config calls input seen hseen
  simp only [Demuxer.transcript, outcome_bind_eq_ok, outcome_pure_eq_ok] at hseen
  obtain ⟨opened, hopened, rfl⟩ := hseen
  exact ⟨(Demuxer.resolved_of_ofInput hopened).resolves,
    fun error herror => (Demuxer.played_of_mem_results hopened herror).resolved⟩

/-- A stereo stream with recon gain for its only layer, and values for it. Behind its frame
there is one of a substream that is not there. -/
def reconGainStream : Bytes :=
  [0xF8, 0x06, 0x69, 0x61, 0x6D, 0x66, 0x00, 0x00,
    0x00, 0x0E, 0x00, 0x69, 0x70, 0x63, 0x6D, 0x04, 0x00, 0x00, 0x01, 0x10, 0x00, 0x00, 0xBB,
    0x80,
    0x08, 0x0E, 0x01, 0x00, 0x00, 0x01, 0x14, 0x01, 0x02, 0x07, 0x01, 0x80, 0x20, 0x14, 0x01,
    0x01,
    0x20, 0x00, 0x18, 0x05, 0x07, 0x04, 0x04, 0x01, 0x55,
    0x28, 0x05, 0x14, 0x01, 0x02, 0x03, 0x04, 0x28, 0x02, 0x15, 0x01]

/-- The recon gain of the stream, linked to the only element. -/
def reconGainDefinition : Parameter where
  id := 7
  kind := .reconGain
  rate := 1
  selfTimed := false
  duration := 4
  constantDuration := 4
  subblocks := []
  element := some 1

/-- The block is read, and the one failure is that of the other frame. -/
theorem links_resolve_reconGain :
    ∃ seen, Demuxer.transcript {} 2 { rest := reconGainStream } = .ok seen
      ∧ reconGainDefinition ∈ seen.registry.parameters ++ seen.registry.embedded
      ∧ seen.registry.Resolves reconGainDefinition
      ∧ .error (.unknownReference .substream 21) ∈ seen.results
      ∧ ¬ (Error.unknownReference .substream 21).IsUnresolved := by
  have hread : (Demuxer.transcript {} 2 { rest := reconGainStream }).map
      (fun seen => (seen.registry.parameters, seen.results[1]?))
      = .ok ([reconGainDefinition], some (.error (.unknownReference .substream 21))) := by
    decide +kernel
  obtain ⟨seen, hseen, hfound⟩ := outcome_map_eq_ok.1 hread
  rw [Prod.mk.injEq] at hfound
  obtain ⟨hparameters, hresult⟩ := hfound
  have hmem : reconGainDefinition ∈ seen.registry.parameters ++ seen.registry.embedded :=
    List.mem_append_left _ (hparameters ▸ List.mem_singleton_self _)
  have herror : .error (.unknownReference .substream 21) ∈ seen.results :=
    List.mem_of_getElem? hresult
  obtain ⟨hlinks, herrors⟩ := links_resolve.2 {} 2 { rest := reconGainStream } seen hseen
  exact ⟨seen, hseen, hmem, hlinks _ hmem, herror, herrors _ herror⟩

end Iamf
