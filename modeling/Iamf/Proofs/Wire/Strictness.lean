import Iamf.Proofs.Wire.Consumes
import Iamf.Registry.Update

/-!
# `Iamf.Proofs.Wire.Strictness`: reading strictly and reading leniently

Strict reading asks one thing more: that nothing is left over at the end of a
body. A strict reader asks it at one place, with nothing behind it but to put the
result together, so it gives what the lenient one gives or fails with the bytes
that are left. `Restricts` says so of two outcomes, and it goes along with
`bind`. The test for early ends of counts depends on the mode too, but not on how
strict it is, so up to the end of the body the two readers are one.

* `Read.restricts_finish`: the end of a body.
* `AudioElement.restricts_parse`, `MixPresentation.restricts_parse`,
  `Parameter.restricts_parseBlock`, …: whole bodies.
* `Registry.parseDescriptor_of_tightens`: what comes of a descriptor.
-/

set_option autoImplicit false

namespace Iamf

/-! ### Tighter outcomes -/

/-- What a tighter way of reading objects to, and a looser one does not: bytes
that are left over in an OBU, or its size. -/
inductive Error.IsRestriction : Error → Prop where
  | underread (kind : Obu.Kind) (remaining : Nat) : IsRestriction (.underread kind remaining)
  | obuSize (length : Nat) : IsRestriction (.outOfRange "obu_size" length)

/-- The tight outcome is the loose one, unless it is a restriction. -/
def Restricts {α : Type} (tight loose : Except Error α) : Prop :=
  tight = loose ∨ ∃ error, error.IsRestriction ∧ tight = .error error

/-- A program on a state that goes on from a settled outcome. -/
theorem Restricts.lift_bind {σ α β : Type} {tight loose : Except Error β}
    (h : Restricts tight loose) (next : β → Stateful σ α) (state : σ) :
    (liftExcept tight >>= next) state = (liftExcept loose >>= next) state
      ∨ ∃ error, error.IsRestriction
        ∧ (liftExcept tight >>= next) state = .error error state := by
  rcases h with rfl | ⟨error, hrestriction, rfl⟩
  · exact .inl rfl
  · exact .inr ⟨error, hrestriction, rfl⟩

/-- A mode that is at least as strict as another one, and otherwise the same. -/
structure ReadMode.Tightens (tight loose : ReadMode) : Prop where
  strict : loose.strict = true → tight.strict = true
  earlyCounts : tight.earlyCounts = loose.earlyCounts

/-! ### Tighter programs -/

namespace Read

variable {α β : Type}

/-- From every reader on, the tight program comes out as the loose one does or
with a restriction. -/
def Restricts (tight loose : Read α) : Prop :=
  ∀ reader, Iamf.Restricts (tight reader) (loose reader)

theorem Restricts.refl (program : Read α) : Restricts program program :=
  fun _ => .inl rfl

theorem Restricts.bind {tight loose : Read α} {tightNext looseNext : α → Read β}
    (h : Restricts tight loose) (hnext : ∀ value, Restricts (tightNext value) (looseNext value)) :
    Restricts (tight >>= tightNext) (loose >>= looseNext) := by
  intro reader
  simp only [Bind.bind, StateT.bind, Except.bind]
  rcases h reader with heq | ⟨error, hrestriction, herror⟩
  · rw [heq]
    cases loose reader with
    | ok result => exact hnext result.1 result.2
    | error error => exact .inl rfl
  · rw [herror]
    exact .inr ⟨error, hrestriction, rfl⟩

/-- Behind the same program. -/
theorem restricts_bind {program : Read α} {tightNext looseNext : α → Read β}
    (hnext : ∀ value, Restricts (tightNext value) (looseNext value)) :
    Restricts (program >>= tightNext) (program >>= looseNext) :=
  (Restricts.refl program).bind hnext

theorem Restricts.map {tight loose : Read α} (f : α → β) (h : Restricts tight loose) :
    Restricts (f <$> tight) (f <$> loose) := by
  show Restricts (tight >>= fun value => pure (f value)) (loose >>= fun value => pure (f value))
  exact h.bind fun _ => .refl _

theorem Restricts.parse {tight loose : Read α} (h : Restricts tight loose) (subject : String)
    (bytes : Bytes) : Iamf.Restricts (tight.parse subject bytes) (loose.parse subject bytes) := by
  simp only [Read.parse]
  rcases h (Reader.ofBytes subject bytes) with heq | ⟨error, hrestriction, herror⟩
  · exact .inl (by rw [heq])
  · exact .inr ⟨error, hrestriction, by rw [herror]⟩

/-- The end of a body is where strictness shows. -/
theorem restricts_finish {tight loose : Bool} (kind : Obu.Kind)
    (h : loose = true → tight = true) : Restricts (finish kind tight) (finish kind loose) := by
  refine restricts_bind fun remaining reader => ?_
  simp only [ensure]
  by_cases htight : remaining = 0 ∨ tight = false
  · -- What the tight one lets pass, the loose one does.
    have hloose : remaining = 0 ∨ loose = false :=
      htight.imp_right fun hfalse => by
        cases loose with
        | false => rfl
        | true => exact absurd (h rfl) (by simp [hfalse])
    rw [if_pos htight, if_pos hloose]
    exact .inl rfl
  · rw [if_neg htight]
    exact .inr ⟨.underread kind remaining, .underread kind remaining, rfl⟩

end Read

/-! ### Bodies -/

theorem SequenceHeader.restricts_parse {tight loose : Bool} (h : loose = true → tight = true)
    (body : Bytes) : Restricts (parse tight body) (parse loose body) := by
  refine Read.Restricts.parse ?_ _ _
  refine Read.restricts_bind fun found => Read.restricts_bind fun _ =>
    Read.restricts_bind fun primary => Read.restricts_bind fun additional => ?_
  exact (Read.restricts_finish .sequenceHeader h).bind fun _ => .refl _

theorem CodecConfig.restricts_parse {tight loose : Bool} (h : loose = true → tight = true)
    (body : Bytes) : Restricts (parse tight body) (parse loose body) := by
  refine Read.Restricts.parse ?_ _ _
  refine Read.restricts_bind fun id => Read.restricts_bind fun fourCC =>
    Read.restricts_bind fun frameSize => Read.restricts_bind fun preroll =>
      Read.restricts_bind fun decoder => ?_
  obtain ⟨codec, sampleRate, config⟩ := decoder
  exact (Read.restricts_finish .codecConfig h).bind fun _ => .refl _

variable {tight loose : ReadMode} (h : tight.Tightens loose) (registry : Registry)
include h

/-- A count is held against the bytes that are left in either mode, or in none. -/
theorem ReadMode.checkCount_of_tightens (count : Nat) (subject : String) :
    tight.checkCount count subject = loose.checkCount count subject := by
  simp only [checkCount, h.earlyCounts]

namespace Parameter

theorem readTimeline_of_tightens (selfTimed : Bool) (site : Site) :
    readTimeline tight selfTimed site = readTimeline loose selfTimed site := by
  simp only [readTimeline, ReadMode.checkCount_of_tightens h]

theorem readDefinition_of_tightens (kind : ParameterKind) (site : Site) (scope : Scope) :
    readDefinition tight kind site scope = readDefinition loose kind site scope := by
  simp only [readDefinition, readTimeline_of_tightens h]

theorem restricts_parseBlock (body : Bytes) :
    Restricts (parseBlock tight registry body) (parseBlock loose registry body) := by
  refine Read.Restricts.parse ?_ _ _
  refine Read.restricts_bind fun id => ?_
  cases registry.parameter? id with
  | none => exact .refl _
  | some definition =>
    refine Read.Restricts.map some ?_
    simp only [readBlockOf, ReadMode.checkCount_of_tightens h]
    refine Read.restricts_bind fun timeline => Read.restricts_bind fun _ =>
      Read.restricts_bind fun carrying => ?_
    have hfinish := Read.restricts_finish .parameterBlock h.strict
    -- The number of subblocks is tested first, or is not.
    split
    · exact Read.restricts_bind fun _ => Read.restricts_bind fun _ => hfinish.bind fun _ => .refl _
    · exact Read.restricts_bind fun _ => hfinish.bind fun _ => .refl _

end Parameter

namespace AudioElement

theorem readParameter_of_tightens (element : UInt32) (site : Site) :
    readParameter tight element site = readParameter loose element site := by
  funext parameters
  simp only [readParameter, Parameter.readDefinition_of_tightens h]

theorem restricts_readContents (id : UInt32) (kind : ElementKind) (config : CodecConfig) :
    Read.Restricts (readContents tight registry id kind config)
      (readContents loose registry id kind config) := by
  simp only [readContents, ReadMode.checkCount_of_tightens h, readParameter_of_tightens h]
  refine Read.restricts_bind fun count => Read.restricts_bind fun _ =>
    Read.restricts_bind fun substreams => Read.restricts_bind fun parameterCount =>
      Read.restricts_bind fun _ => Read.restricts_bind fun parameters => ?_
  have hfinish := Read.restricts_finish .audioElement h.strict
  cases kind with
  | channel | scene => exact Read.restricts_bind fun _ => hfinish.bind fun _ => .refl _
  | reserved =>
    exact Read.restricts_bind fun _ => Read.restricts_bind fun _ => hfinish.bind fun _ => .refl _

theorem restricts_parse (body : Bytes) :
    Restricts (parse tight registry body) (parse loose registry body) := by
  refine Read.Restricts.parse ?_ _ _
  refine Read.restricts_bind fun id => Read.restricts_bind fun _ =>
    Read.restricts_bind fun head => Read.restricts_bind fun configId => ?_
  cases registry.codecConfig? configId with
  | none => exact .refl _
  | some config =>
    have hcontents := restricts_readContents h registry id (.ofCode (head >>> 5)) config
    simp only
    cases config.codec with
    -- Of an element of an unsupported codec nothing more is read, nor asked.
    | unknown => exact .refl _
    | _ => exact hcontents.bind fun _ => .refl _

end AudioElement

namespace MixPresentation

theorem readElement_of_tightens (labels : List String) :
    SubmixElement.read tight registry labels = SubmixElement.read loose registry labels := by
  funext scope
  simp only [SubmixElement.read, Parameter.readDefinition_of_tightens h]

theorem readSubmix_of_tightens (labels : List String) :
    Submix.read tight registry labels = Submix.read loose registry labels := by
  funext scope
  simp only [Submix.read, ReadMode.checkCount_of_tightens h, readElement_of_tightens h,
    Parameter.readDefinition_of_tightens h]

theorem restricts_parse (body : Bytes) :
    Restricts (parse tight registry body) (parse loose registry body) := by
  refine Read.Restricts.parse ?_ _ _
  simp only [read, ReadMode.checkCount_of_tightens h, readSubmix_of_tightens h]
  refine Read.restricts_bind fun id => Read.restricts_bind fun _ =>
    Read.restricts_bind fun labelCount => Read.restricts_bind fun _ =>
      Read.restricts_bind fun labels => Read.restricts_bind fun annotations =>
        Read.restricts_bind fun submixCount => Read.restricts_bind fun _ =>
          Read.restricts_bind fun result => ?_
  obtain ⟨submixes, scope⟩ := result
  exact (Read.restricts_finish .mixPresentation h.strict).bind fun _ => .refl _

end MixPresentation

/-! ### Descriptors -/

/-- A body that is read more strictly does to the registry what it does otherwise,
or it is refused and does nothing. -/
theorem Registry.parseDescriptor_of_tightens (kind : Obu.Kind) (body : Bytes) :
    parseDescriptor tight kind body registry = parseDescriptor loose kind body registry
      ∨ ∃ error, error.IsRestriction
        ∧ parseDescriptor tight kind body registry = .error error registry := by
  cases kind with
  | sequenceHeader => exact (SequenceHeader.restricts_parse h.strict body).lift_bind _ _
  | codecConfig => exact (CodecConfig.restricts_parse h.strict body).lift_bind _ _
  | audioElement => exact (AudioElement.restricts_parse h registry body).lift_bind _ _
  | mixPresentation => exact (MixPresentation.restricts_parse h registry body).lift_bind _ _
  | _ => exact .inl rfl

end Iamf
