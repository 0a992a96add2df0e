import Iamf.Proofs.Parameter.Definition
import Iamf.Proofs.Parameter.Carried

/-!
# `Iamf.Proofs.Parameter.Sent`: definitions that were not read from anywhere

A definition that is handed in for writing may say more than its bytes have room
for. Subblocks of a parameter that is not self timed are not written, nor is
what a subblock says beyond a duration and a down-mixing mode. But definitions of
one id that agree have agreeing shapes when they are sent, so a reader that
knows nothing else takes all of them, one after the other and in any order.

* `Parameter.sent`: the shape of a definition that its bytes tell.
* `Parameter.received`: what a reader makes of a definition.
* `Scope.Reflects.received`: a definition is read behind others.
-/

set_option autoImplicit false

namespace Iamf

/-- The subblock of a definition as it is read back. -/
def Subblock.received (constantDuration : UInt32) (subblock : Subblock) : Subblock where
  duration := if constantDuration = 0 then subblock.duration else constantDuration
  value := match subblock.value with
    | .demixing mode => .demixing (mode % 8)
    | value => .empty value.kind

namespace Parameter

variable {definition : Parameter}

/-- The definition without what is not sent: the subblocks of a parameter that is
not self timed. -/
def sent (definition : Parameter) : Parameter :=
  { definition with subblocks := if definition.selfTimed then definition.subblocks else [] }

/-- Definitions that agree do so when they are sent. -/
theorem Agrees.sent {first second : Parameter} (h : first.Agrees second) :
    first.sent.Agrees second.sent where
  id := h.id
  kind := h.kind
  selfTimed := h.selfTimed
  count := by
    simp only [Parameter.sent, h.selfTimed]
    split
    · exact h.count
    · rfl

/-- The definition as it is read back at a site behind those in scope. -/
def received (scope : Scope) (site : Site) (definition : Parameter) : Parameter :=
  let frameSize := site.frameSize.getD 0
  { definition with
    duration := if definition.selfTimed then definition.duration else frameSize
    constantDuration := if definition.selfTimed then definition.constantDuration else frameSize
    subblocks := definition.sent.subblocks.map (·.received definition.constantDuration)
    element := linkAt (scope.find? definition.id) site }

theorem received_agrees_sent (scope : Scope) (site : Site) (definition : Parameter) :
    (definition.received scope site).Agrees definition.sent :=
  ⟨rfl, rfl, rfl, List.length_map _⟩

/-- A definition that a writer takes but a reader may not: the one has no cap on
subblocks, the other does. -/
def IsOpenable (definition : Parameter) : Prop :=
  definition.selfTimed = true → definition.subblocks.length ≤ maxSubblocks

/-! ### Subblocks -/

theorem isDefinedValue_received (constantDuration : UInt32) (subblock : Subblock) :
    IsDefinedValue subblock.kind (subblock.received constantDuration).value := by
  obtain ⟨duration, value⟩ := subblock
  cases value with
  | demixing mode =>
    refine ⟨mode % 8, ?_, rfl⟩
    rw [UInt8.toNat_mod]
    exact Nat.mod_lt _ (by decide)
  | mixGain animation => rfl
  | reconGain table => rfl

theorem encodeDefinedSubblock_received (constantDuration : UInt32) (subblock : Subblock) :
    encodeDefinedSubblock constantDuration (subblock.received constantDuration)
      = encodeDefinedSubblock constantDuration subblock := by
  obtain ⟨duration, value⟩ := subblock
  have hduration : (if constantDuration = 0 then
        Leb128.encode (if constantDuration = 0 then duration else constantDuration) else [])
      = if constantDuration = 0 then Leb128.encode duration else [] := by
    split <;> rfl
  simp only [encodeDefinedSubblock, Subblock.received, hduration]
  cases value with
  | demixing mode => exact congrArg _ (encodeDemixingMode_mod mode)
  | mixGain animation => rfl
  | reconGain table => rfl

/-! ### Definitions -/

/-- The bytes of a definition that was written, and what was tested before. -/
theorem encodeDefinition_eq_ok {bytes : Bytes} (h : definition.encodeDefinition = .ok bytes) :
    (definition.selfTimed = true → definition.checkTimeline = .ok ())
      ∧ bytes = Leb128.encode definition.id ++ (Leb128.encode definition.rate
        ++ ([if definition.selfTimed then 0x00 else 0x80]
          ++ definition.encodeDefinitionTail)) := by
  cases hself : definition.selfTimed with
  | false =>
    simp only [encodeDefinition, hself, Bool.false_eq_true, if_false, outcome_pure_eq_ok] at h
    refine ⟨fun hfalse => absurd hfalse (by decide), ?_⟩
    simp only [← h, encodeDefinitionTail, hself, Bool.false_eq_true, if_false, List.append_nil,
      List.append_assoc]
  | true =>
    simp only [encodeDefinition, hself, if_true, outcome_bind_eq_ok, outcome_pure_eq_ok] at h
    obtain ⟨_, hcheck, rfl⟩ := h
    refine ⟨fun _ => hcheck, ?_⟩
    simp only [encodeDefinitionTail, hself, if_true, List.append_assoc]

/-- What is read back of a definition that was written has a timeline that a
reader takes. -/
theorem wellTimed_received (scope : Scope) (site : Site) (hopenable : definition.IsOpenable)
    (hcheck : definition.selfTimed = true → definition.checkTimeline = .ok ()) :
    (definition.received scope site).WellTimed (site.frameSize.getD 0) := by
  cases hself : definition.selfTimed with
  | false =>
    have hnone : (definition.received scope site).subblocks = [] := by
      simp [received, sent, hself]
    refine ⟨fun _ => ?_, fun htrue => ?_, ?_, ?_⟩
    · simp [received, sent, hself]
    · exact absurd (hself.symm.trans htrue) (by decide)
    · rw [hnone]
      exact Nat.zero_le _
    · simp [hnone]
  | true =>
    -- The writer has tested what the durations imply and the kinds, but no cap.
    obtain ⟨hcount, hkinds⟩ := checkTimeline_eq_ok.1 (hcheck hself)
    have hall : (definition.received scope site).subblocks
        = definition.subblocks.map (·.received definition.constantDuration) := by
      simp only [received, sent, hself, if_true]
    have hlength : (definition.received scope site).subblocks.length
        = definition.subblocks.length := by
      rw [hall, List.length_map]
    have hdurations : (definition.received scope site).duration = definition.duration
        ∧ (definition.received scope site).constantDuration = definition.constantDuration := by
      simp only [received, hself, if_true, and_self]
    refine ⟨fun hfalse => ?_, fun _ hne => ⟨?_, ?_⟩, ?_, ?_⟩
    · exact absurd (hself.symm.trans hfalse) (by decide)
    · rw [hlength, hdurations.1, hdurations.2]
      exact hcount (hdurations.2 ▸ hne)
    · intro subblock hmem
      obtain ⟨source, -, rfl⟩ := List.mem_map.1 (hall ▸ hmem)
      rw [hdurations.2] at hne ⊢
      exact if_neg hne
    · exact hlength ▸ hopenable hself
    · intro subblock hmem
      obtain ⟨source, hsource, rfl⟩ := List.mem_map.1 (hall ▸ hmem)
      exact hkinds source hsource ▸ isDefinedValue_received _ source

/-- It is written alike. -/
theorem encodeDefinitionTail_received (scope : Scope) (site : Site) :
    (definition.received scope site).encodeDefinitionTail = definition.encodeDefinitionTail := by
  cases hself : definition.selfTimed with
  | false => simp only [encodeDefinitionTail, received, hself, Bool.false_eq_true, if_false]
  | true =>
    simp only [encodeDefinitionTail, encodeTimeline, received, sent, hself, if_true,
      List.length_map, List.flatMap_map, encodeDefinedSubblock_received]

/-- A definition that was written has the bytes of what is read back of it, and that
is allowed behind definitions that agree with what was sent. -/
theorem allows_received {scope : Scope} {bytes : Bytes} (site : Site)
    (hopenable : definition.IsOpenable) (hagrees : scope.AgreesWith definition.sent)
    (hencode : definition.encodeDefinition = .ok bytes) :
    (definition.received scope site).encodeDefinition = .ok bytes
      ∧ scope.Allows site (definition.received scope site) := by
  obtain ⟨hcheck, rfl⟩ := encodeDefinition_eq_ok hencode
  have htimed := wellTimed_received scope site hopenable hcheck
  refine ⟨?_, ?_, htimed, rfl⟩
  · rw [encodeDefinition_eq htimed, encodeDefinitionTail_received]
    rfl
  · exact fun old hold => (hagrees old hold).trans (received_agrees_sent scope site definition).symm

/-! ### Definitions behind others -/

/-- Definitions of one id agree with each other. -/
def Consistent (sources : List Parameter) : Prop :=
  ∀ first ∈ sources, ∀ second ∈ sources, first.id = second.id → first.Agrees second

/-- Definitions have the shapes in which these sources are sent, as far as these
define them. -/
def Reflect (sources definitions : List Parameter) : Prop :=
  ∀ definition ∈ definitions, ∀ source ∈ sources, definition.id = source.id →
    definition.Agrees source.sent

variable {sources : List Parameter}

theorem reflect_nil (sources : List Parameter) : Reflect sources [] :=
  fun _ hmem => absurd hmem List.not_mem_nil

theorem Reflect.putInto {combine : Parameter → Parameter → Parameter}
    (hcombine : ∀ old, (combine old definition).Agrees definition) {definitions : List Parameter}
    (h : Reflect sources definitions) (hnew : Reflect sources [definition]) :
    Reflect sources (definition.putInto combine definitions) := by
  intro member hmem source hsource hid
  rcases mem_putInto hmem with hold | rfl | ⟨old, -, -, rfl⟩
  · exact h member hold source hsource hid
  · exact hnew _ (List.mem_singleton_self _) source hsource hid
  · exact (hcombine old).trans (hnew _ (List.mem_singleton_self _) source hsource
      ((hcombine old).id.symm.trans hid))

theorem Reflect.merged {known definitions : List Parameter} (h : Reflect sources known)
    (hnew : Reflect sources definitions) : Reflect sources (Registry.merged known definitions) := by
  induction definitions generalizing known with
  | nil => exact h
  | cons definition definitions ih =>
    have hfirst : Reflect sources [definition] := fun member hmem =>
      List.mem_singleton.1 hmem ▸ hnew definition List.mem_cons_self
    exact ih (h.putInto (Registry.keepLink_agrees definition) hfirst)
      fun member hmem => hnew member (List.mem_cons_of_mem _ hmem)

theorem reflect_received (hconsistent : Consistent sources) (hmem : definition ∈ sources)
    (scope : Scope) (site : Site) : Reflect sources [definition.received scope site] := by
  intro member hmember source hsource hid
  cases List.mem_singleton.1 hmember
  exact (received_agrees_sent scope site definition).trans
    (hconsistent definition hmem source hsource hid).sent

end Parameter

/-- Everything in scope has the shapes in which these sources are sent. -/
structure Scope.Reflects (sources : List Parameter) (scope : Scope) : Prop where
  known : Parameter.Reflect sources scope.known
  pending : Parameter.Reflect sources scope.pending

namespace Scope.Reflects

variable {sources : List Parameter} {scope : Scope} {definition : Parameter}

theorem agreesWith (h : scope.Reflects sources) (hmem : definition ∈ sources) :
    scope.AgreesWith definition.sent := by
  intro old hold
  have hid : old.id = definition.id := id_of_find? hold
  -- Wherever the old definition is found, it has the shape in which a source is sent.
  rw [find?_eq_or, Option.or_eq_some_iff] at hold
  rcases hold with hfind | ⟨-, hfind⟩
  · exact h.pending old (List.mem_of_find?_eq_some hfind) definition hmem hid
  · exact h.known old (List.mem_of_find?_eq_some hfind) definition hmem hid

/-- One of the sources that was written is read behind what is in scope, in a shape
that it has been sent in. -/
theorem received (h : scope.Reflects sources) (hconsistent : Parameter.Consistent sources)
    (hmem : definition ∈ sources) (hopenable : definition.IsOpenable) (site : Site)
    {bytes : Bytes} (hencode : definition.encodeDefinition = .ok bytes) :
    (definition.received scope site).encodeDefinition = .ok bytes
      ∧ scope.Allows site (definition.received scope site)
      ∧ (scope.store (definition.received scope site)).Reflects sources := by
  obtain ⟨hbytes, hallows⟩ :=
    Parameter.allows_received site hopenable (h.agreesWith hmem) hencode
  refine ⟨hbytes, hallows, h.known, ?_⟩
  exact h.pending.putInto (fun _ => .refl _)
    (Parameter.reflect_received hconsistent hmem scope site)

end Scope.Reflects

end Iamf
