import Iamf.Proofs.Registry.Grounded
import Iamf.Proofs.Stream.Steps

/-!
# `Iamf.Proofs.Stream.Opened`: what a stream that was opened has gone through

A stream that could be opened starts with complete OBUs, and its registry is
what their bodies made of an empty one. `Registry.RegistersAll` says so without
the demuxer, and what every descriptor keeps follows by induction on it.

* `Demuxer.ofInput_eq_ok`: the OBUs that a stream that was opened starts with.
* `Demuxer.coherent_of_ofInput`, `Demuxer.grounded_of_ofInput`: its registry.
-/

set_option autoImplicit false

namespace Iamf

/-! ### Bodies one after the other -/

namespace Registry

/-- The bodies of some OBUs go into a registry, one after the other. -/
inductive RegistersAll (mode : ReadMode) : Registry → List Obu.Complete → Registry → Prop where
  | nil (registry : Registry) : RegistersAll mode registry [] registry
  | cons {registry middle after : Registry} {obu : Obu.Complete} {obus : List Obu.Complete}
      (first : Registers mode registry obu.body obu.header.kind middle)
      (others : RegistersAll mode middle obus after) :
      RegistersAll mode registry (obu :: obus) after

variable {mode : ReadMode} {registry after : Registry} {obus : List Obu.Complete}

/-- What is kept by every body is kept by all of them. -/
theorem RegistersAll.induction {keeps : Registry → Prop}
    (h : RegistersAll mode registry obus after) (hstart : keeps registry)
    (hstep : ∀ {before after : Registry} {body : Bytes} {kind : Obu.Kind}, keeps before →
      Registers mode before body kind after → keeps after) : keeps after := by
  induction h with
  | nil => exact hstart
  | cons first _ ih => exact ih (hstep hstart first)

theorem RegistersAll.coherent (h : RegistersAll mode registry obus after)
    (hstart : registry.Coherent) : after.Coherent :=
  h.induction hstart fun hbefore hregisters => hbefore.registers hregisters

theorem RegistersAll.grounded (h : RegistersAll mode registry obus after)
    (hstart : registry.Grounded) : after.Grounded :=
  h.induction hstart fun hbefore hregisters => hbefore.registers hregisters

end Registry

/-! ### Sources that were read from -/

namespace Source

theorem fill_eq_ok_of_isShort {source after : Source} {result : Unit} (hshort : source.IsShort)
    (h : fill Obu.maxHeaderSize source = .ok result after) :
    after.unread = source.unread ∧ after.IsShort ∧ after.lookahead <+: source.unread := by
  obtain ⟨count, hcount, hlookahead, hrest⟩ := fill_eq_ok h
  have hunread : after.unread = source.unread := by
    rw [unread, unread, hlookahead, hrest, List.append_assoc, List.take_append_drop]
  refine ⟨hunread, ?_, ⟨after.input.rest, hunread⟩⟩
  rw [IsShort] at hshort ⊢
  rw [hlookahead, List.length_append, List.length_take]
  omega

theorem consume_eq_ok_of_isShort {program : Nat → Input → Bytes × Outcome × Input}
    (hprogram : Input.Gathers program) {count : Nat} {subject : String}
    {source after : Source} {bytes : Bytes} (hshort : source.IsShort)
    (h : consume program count subject source = .ok bytes after) :
    source.unread = bytes ++ after.unread ∧ bytes.length = count ∧ after.IsShort := by
  obtain ⟨hunread, hlength, -⟩ := consume_eq_ok hprogram h
  refine ⟨hunread, hlength, ?_⟩
  have hlookahead : after.lookahead = source.lookahead.drop count := by
    simp only [consume] at h
    split at h <;> cases h
    rfl
  rw [IsShort] at hshort ⊢
  rw [hlookahead, List.length_drop]
  omega

theorem take_eq_ok_of_isShort {count : Nat} {subject : String} {source after : Source}
    {bytes : Bytes} (hshort : source.IsShort) (h : take count subject source = .ok bytes after) :
    source.unread = bytes ++ after.unread ∧ bytes.length = count ∧ after.IsShort :=
  consume_eq_ok_of_isShort Input.gatherChunks_eq hshort h

theorem skip_eq_ok_of_isShort {count : Nat} {subject : String} {source after : Source}
    {result : Unit} (hshort : source.IsShort) (h : skip count subject source = .ok result after) :
    ∃ bytes, source.unread = bytes ++ after.unread ∧ bytes.length = count ∧ after.IsShort := by
  simp only [skip, Stateful.bind_eq_ok] at h
  obtain ⟨bytes, middle, hconsume, h⟩ := h
  cases h
  exact ⟨bytes, consume_eq_ok_of_isShort Input.gather_eq hshort hconsume⟩

end Source

/-! ### Steps of the first phase -/

namespace Demuxer

variable {demuxer after : Demuxer} {header : Obu.Header}

/-- A header that was seen is that of the bytes to come, all of which still are. -/
theorem peekHeader_eq_some (hshort : demuxer.source.IsShort)
    (h : peekHeader demuxer = .ok (some header) after) :
    ∃ source, after = { demuxer with source } ∧ source.IsShort
      ∧ source.unread = demuxer.source.unread ∧ header.totalLength ≤ demuxer.config.maxObuSize
      ∧ Obu.Header.parse source.lookahead = .ok header
      ∧ source.lookahead <+: demuxer.source.unread := by
  simp only [peekHeader, Stateful.bind_eq_ok, onSource_eq_ok] at h
  obtain ⟨_, _, ⟨source, hfill, rfl⟩, _, _, hget, h⟩ := h
  cases hget
  obtain ⟨hunread, hfilled, hbegins⟩ := Source.fill_eq_ok_of_isShort hshort hfill
  split at h
  · cases h
  · simp only [Stateful.bind_eq_ok, Stateful.liftExcept_eq_ok, Stateful.ensure_eq_ok,
      Stateful.pure_eq_ok, Option.some.injEq] at h
    obtain ⟨_, _, ⟨hparse, rfl⟩, _, _, ⟨hsize, rfl⟩, rfl, rfl⟩ := h
    exact ⟨source, rfl, hfilled, hunread, hsize, hparse, hbegins⟩

/-- There is no header where nothing could be read ahead. -/
theorem peekHeader_eq_none (h : peekHeader demuxer = .ok none after) :
    ∃ source, after = { demuxer with source } ∧ source.lookahead = []
      ∧ Source.fill Obu.maxHeaderSize demuxer.source = .ok () source := by
  simp only [peekHeader, Stateful.bind_eq_ok, onSource_eq_ok] at h
  obtain ⟨_, _, ⟨source, hfill, rfl⟩, _, _, hget, h⟩ := h
  cases hget
  split at h
  · rename_i hnothing
    cases h
    exact ⟨source, rfl, List.isEmpty_iff.1 hnothing, hfill⟩
  · simp only [Stateful.bind_eq_ok, Stateful.liftExcept_eq_ok, Stateful.ensure_eq_ok,
      Stateful.pure_eq_ok] at h
    obtain ⟨_, _, -, _, _, -, hsome, -⟩ := h
    cases hsome

theorem readBody_eq_some {body : Bytes} (hshort : demuxer.source.IsShort)
    (h : readBody header demuxer = .ok body after) :
    ∃ source head, after = { demuxer with source } ∧ source.IsShort
      ∧ demuxer.source.unread = (head ++ body) ++ source.unread
      ∧ head.length = header.headerLength ∧ body.length = header.bodyLength := by
  simp only [readBody, Stateful.bind_eq_ok, onSource_eq_ok] at h
  obtain ⟨_, _, ⟨middle, hskip, rfl⟩, source, htake, rfl⟩ := h
  obtain ⟨head, hhead, hheadLength, hmiddle⟩ := Source.skip_eq_ok_of_isShort hshort hskip
  obtain ⟨hbody, hbodyLength, hsource⟩ := Source.take_eq_ok_of_isShort hmiddle htake
  refine ⟨source, head, rfl, hsource, ?_, hheadLength, hbodyLength⟩
  rw [hhead, hbody, List.append_assoc]

theorem skipObu_eq_some {subject : String} {result : Unit} (hshort : demuxer.source.IsShort)
    (h : skipObu header subject demuxer = .ok result after) :
    ∃ source bytes, after = { demuxer with source } ∧ source.IsShort
      ∧ demuxer.source.unread = bytes ++ source.unread
      ∧ bytes.length = header.totalLength := by
  simp only [skipObu, onSource_eq_ok] at h
  obtain ⟨source, hskip, rfl⟩ := h
  obtain ⟨bytes, hbytes, hlength, hsource⟩ := Source.skip_eq_ok_of_isShort hshort hskip
  exact ⟨source, bytes, rfl, hsource, hbytes, hlength⟩

/-- An OBU after which the first phase goes on was taken whole, and its body went
into the registry. -/
theorem handleDescriptor_eq_true (hshort : demuxer.source.IsShort)
    (h : handleDescriptor header demuxer = .ok true after) :
    ∃ bytes, demuxer.source.unread = bytes ++ after.source.unread
      ∧ bytes.length = header.totalLength ∧ after.source.IsShort
      ∧ after.config = demuxer.config
      ∧ Registry.Registers demuxer.config.mode demuxer.registry
          (bytes.drop header.headerLength) header.kind after.registry := by
  cases hkind : header.kind
  all_goals simp only [handleDescriptor, hkind, Stateful.bind_eq_ok, Stateful.pure_eq_ok] at h
  -- These kinds end the first phase, and the other ones are passed over or registered.
  case parameterBlock | audioFrame | impliedFrame => exact absurd h.1 (by simp)
  case temporalDelimiter =>
    obtain ⟨_, _, hstart, -, rfl⟩ := h
    simp only [startTemporalUnit, Stateful.bind_eq_ok, Stateful.modify_eq_ok] at hstart
    obtain ⟨_, _, hskip, rfl⟩ := hstart
    obtain ⟨source, bytes, rfl, hsource, hbytes, hlength⟩ := skipObu_eq_some hshort hskip
    exact ⟨bytes, hbytes, hlength, hsource, rfl, .other ⟨by simp, rfl⟩⟩
  case reserved =>
    obtain ⟨_, _, hskip, -, rfl⟩ := h
    obtain ⟨source, bytes, rfl, hsource, hbytes, hlength⟩ := skipObu_eq_some hshort hskip
    exact ⟨bytes, hbytes, hlength, hsource, rfl, .other ⟨by simp, rfl⟩⟩
  all_goals
    obtain ⟨_, _, hregister, -, rfl⟩ := h
    simp only [register, Stateful.bind_eq_ok, onRegistry, Stateful.onPart_eq_ok] at hregister
    obtain ⟨body, _, hbody, _, _, hget, registry, hparse, rfl⟩ := hregister
    cases hget
    obtain ⟨source, head, rfl, hsource, hunread, hhead, hlength⟩ :=
      readBody_eq_some hshort hbody
    rw [hkind, Registry.parseDescriptor_eq_ok] at hparse
    refine ⟨head ++ body, hunread, ?_, hsource, rfl, ?_⟩
    · rw [List.length_append, hhead, hlength, Obu.Header.totalLength]
    · rw [← hhead, List.drop_left]
      exact hparse

theorem handleDescriptor_eq_false (h : handleDescriptor header demuxer = .ok false after) :
    after = demuxer := by
  cases hkind : header.kind
  all_goals simp only [handleDescriptor, hkind, Stateful.bind_eq_ok, Stateful.pure_eq_ok] at h
  case parameterBlock | audioFrame | impliedFrame => exact h.2.symm
  all_goals
    obtain ⟨_, _, -, hcontinue, -⟩ := h
    cases hcontinue

theorem descriptorStep_eq_true (hshort : demuxer.source.IsShort)
    (h : descriptorStep demuxer = .ok true after) :
    ∃ obu : Obu.Complete, demuxer.source.unread = obu.bytes ++ after.source.unread
      ∧ obu.header.totalLength ≤ demuxer.config.maxObuSize ∧ after.source.IsShort
      ∧ after.config = demuxer.config
      ∧ Registry.Registers demuxer.config.mode demuxer.registry obu.body obu.header.kind
          after.registry := by
  simp only [descriptorStep, Stateful.bind_eq_ok] at h
  obtain ⟨peeked, middle, hpeek, h⟩ := h
  cases peeked with
  | none => cases h
  | some header =>
    obtain ⟨source, rfl, hsource, hunread, hsize, hparse, hbegins⟩ :=
      peekHeader_eq_some hshort hpeek
    obtain ⟨bytes, hbytes, hlength, hafter, hconfig, hregisters⟩ :=
      handleDescriptor_eq_true hsource h
    have hall : demuxer.source.unread = bytes ++ after.source.unread := hunread ▸ hbytes
    -- The lookahead that the header was parsed from may be shorter or longer than the OBU.
    exact ⟨⟨header, bytes, Obu.Header.parse_take hparse hsource (hall ▸ hbegins) hlength, hlength⟩,
      hall, hsize, hafter, hconfig, hregisters⟩

theorem descriptorStep_eq_false (hshort : demuxer.source.IsShort)
    (h : descriptorStep demuxer = .ok false after) : after.registry = demuxer.registry := by
  simp only [descriptorStep, Stateful.bind_eq_ok] at h
  obtain ⟨peeked, middle, hpeek, h⟩ := h
  cases peeked with
  | none =>
    obtain ⟨-, rfl⟩ := Stateful.pure_eq_ok.1 h
    obtain ⟨source, rfl, -⟩ := peekHeader_eq_none hpeek
    rfl
  | some header =>
    obtain ⟨source, rfl, -⟩ := peekHeader_eq_some hshort hpeek
    rw [handleDescriptor_eq_false h]

/-- A stream that was opened starts with complete OBUs whose bodies have made its
registry. -/
theorem readDescriptors_eq_ok {opened : Demuxer} (hshort : demuxer.source.IsShort)
    (h : demuxer.readDescriptors = .ok opened) :
    ∃ obus : List Obu.Complete, obus.flatMap (·.bytes) <+: demuxer.source.unread
      ∧ Registry.RegistersAll demuxer.config.mode demuxer.registry obus opened.registry := by
  fun_induction readDescriptors demuxer with
  | case1 demuxer after hstep ih =>
    obtain ⟨obu, hunread, hsize, hafter, hconfig, hregisters⟩ :=
      descriptorStep_eq_true hshort hstep
    obtain ⟨obus, hbegins, hothers⟩ := ih hafter h
    refine ⟨obu :: obus, ?_, .cons hregisters (hconfig ▸ hothers)⟩
    rw [List.flatMap_cons, hunread]
    exact (List.prefix_append_right_inj _).2 hbegins
  | case2 demuxer after hstep =>
    cases h
    rw [descriptorStep_eq_false hshort hstep]
    exact ⟨[], List.nil_prefix, .nil _⟩
  | case3 => cases h

theorem ofInput_eq_ok {config : DemuxerConfig} {input : Input} {opened : Demuxer}
    (h : ofInput config input = .ok opened) :
    ∃ obus : List Obu.Complete, obus.flatMap (·.bytes) <+: input.rest
      ∧ Registry.RegistersAll config.mode .empty obus opened.registry :=
  readDescriptors_eq_ok (Nat.zero_le _) h

/-- The registry of a stream that was opened has no contradictions. -/
theorem coherent_of_ofInput {config : DemuxerConfig} {input : Input} {opened : Demuxer}
    (h : ofInput config input = .ok opened) : opened.registry.Coherent := by
  obtain ⟨obus, -, hall⟩ := ofInput_eq_ok h
  exact hall.coherent Registry.coherent_empty

/-- The definitions of a stream that was opened can be used. -/
theorem grounded_of_ofInput {config : DemuxerConfig} {input : Input} {opened : Demuxer}
    (h : ofInput config input = .ok opened) : opened.registry.Grounded := by
  obtain ⟨obus, -, hall⟩ := ofInput_eq_ok h
  exact hall.grounded Registry.grounded_empty

end Demuxer

end Iamf
