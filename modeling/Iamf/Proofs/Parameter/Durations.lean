import Iamf.Proofs.Parameter.Sent

/-!
# `Iamf.Proofs.Parameter.Durations`: which durations of subblocks come back

A timeline either has a constant duration, and then its bytes say no other, or every
subblock has its own. The test of a timeline that goes before its bytes are written
counts the subblocks and compares their kinds, but it does not look at the durations.
So a constant stands for all of them, also where subblocks were given others.

* `sentDurations_eq_iff`: the durations are kept if none contradicts the constant.
* `durations_returned`: what is read back of a definition and of a block.
-/

set_option autoImplicit false

namespace Iamf

open Read (Consumes)

namespace Parameter

variable {definition values : Parameter}

/-- The durations that the bytes of a timeline stand for. -/
def sentDurations (parameter : Parameter) : List UInt32 :=
  parameter.subblocks.map fun subblock =>
    if parameter.constantDuration = 0 then subblock.duration else parameter.constantDuration

/-- They are those of the subblocks unless one differs from the constant. -/
theorem sentDurations_eq_iff (parameter : Parameter) :
    parameter.sentDurations = parameter.subblocks.map (·.duration)
      ↔ parameter.constantDuration = 0
        ∨ ∀ subblock ∈ parameter.subblocks, subblock.duration = parameter.constantDuration := by
  rw [sentDurations, List.map_inj_left]
  by_cases hzero : parameter.constantDuration = 0
  · simp only [hzero, if_true, implies_true, true_or]
  · simp only [hzero, if_false, false_or, eq_comm]

/-- A self timed definition is received with the durations it was sent with. -/
theorem map_duration_received (scope : Scope) (site : Site)
    (hself : definition.selfTimed = true) :
    (definition.received scope site).subblocks.map (·.duration) = definition.sentDurations := by
  simp only [received, sent, hself, if_true, List.map_map]
  rfl

/-- A block with a timeline of its own carries the durations of that. -/
theorem map_duration_carried (carrying : List Nat) (hself : definition.selfTimed = false) :
    (values.carried definition carrying).subblocks.map (·.duration) = values.sentDurations := by
  simp only [carried, carriedSubblocks, hself, Bool.false_eq_true, if_false, List.map_map]
  rfl

/-- A parameter with no more subblocks than a parameter may have, if it is self timed and
was written as a definition, is read back with its id, rate and durations; if it is not and
was written as a block, the values of the block are. Their subblocks last as long as they
were given just if none contradicts the constant duration, which else takes the place
of all. -/
theorem durations_returned (parameter : Parameter)
    (hbounded : parameter.subblocks.length ≤ maxSubblocks) :
    (parameter.selfTimed = true → ∀ bytes, parameter.encodeDefinition = .ok bytes →
      ∀ (mode : ReadMode) (site : Site), ∃ read after,
        Consumes (readDefinition mode parameter.kind site { known := [] }) bytes (read, after)
        ∧ read.id = parameter.id ∧ read.rate = parameter.rate
        ∧ read.duration = parameter.duration
        ∧ read.constantDuration = parameter.constantDuration
        ∧ read.subblocks.map (·.duration) = parameter.sentDurations)
    ∧ (parameter.selfTimed = false → ∀ (definition : Parameter) (registry : Registry) body,
      registry.parameter? parameter.id = some definition →
      parameter.encodeBlock definition registry = .ok body →
      ∀ mode : ReadMode, ∃ read, parseBlock mode registry body = .ok (some read)
        ∧ read.subblocks.map (·.duration) = parameter.sentDurations)
    ∧ (parameter.sentDurations = parameter.subblocks.map (·.duration)
      ↔ parameter.constantDuration = 0
        ∨ ∀ subblock ∈ parameter.subblocks,
          subblock.duration = parameter.constantDuration) := by
  refine ⟨?definition, ?block, sentDurations_eq_iff parameter⟩
  case definition =>
    intro hself bytes hencode mode site
    have hempty : Scope.AgreesWith { known := [] } parameter.sent := fun _ hold => by cases hold
    obtain ⟨hreceived, hallows⟩ := allows_received site (fun _ => hbounded) hempty hencode
    obtain ⟨written, hwritten, hread⟩ := consumes_encodeDefinition mode hallows
    cases hreceived.symm.trans hwritten
    refine ⟨_, _, hread, rfl, rfl, if_pos hself, if_pos hself, ?_⟩
    exact map_duration_received _ site hself
  case block =>
    intro hself definition registry body hfind hencode mode
    have hid : parameter.id = definition.id := by
      simpa [eq_comm] using List.find?_some hfind
    have hexternal : definition.selfTimed = false := (encodeBlock_eq_ok hencode).2.1 ▸ hself
    have hreadable : parameter.IsReadable :=
      ⟨fun htrue => absurd (hself.symm.trans htrue) (by decide), fun _ => hbounded⟩
    -- The timeline of the definition does not matter, so it may be anything.
    have hnot : definition.selfTimed ≠ true := by simp [hexternal]
    obtain ⟨carrying, hcarrying, hconforms, hkept⟩ :=
      encodeBlock_carried hencode hid (fun htrue => absurd htrue hnot) hreadable
    obtain ⟨written, hwritten, hread⟩ :=
      hconforms.exists_encodeBlock (fun htrue => absurd htrue hnot) hcarrying
    cases hkept.symm.trans hwritten
    have hfound : registry.parameter? (parameter.carried definition carrying).id
        = some definition := by
      rw [hconforms.id, ← hid, hfind]
    exact ⟨_, hread mode registry hfound hcarrying, map_duration_carried carrying hexternal⟩

/-- A self timed definition with two subblocks, the second three times as long as the first,
and this constant duration. -/
def unevenDefinition (constantDuration : UInt32) : Parameter where
  id := 7
  kind := .demixing
  rate := 1
  selfTimed := true
  duration := 4
  constantDuration
  subblocks := [{ duration := 1, value := .demixing 2 }, { duration := 3, value := .demixing 5 }]
  element := none

/-- Values with that timeline, for a block. -/
def unevenValues (constantDuration : UInt32) : Parameter :=
  { unevenDefinition constantDuration with selfTimed := false }

/-- What they are defined as. -/
def externalDefinition : Parameter :=
  { unevenValues 4 with subblocks := [] }

/-- A registry with that definition. -/
def externalRegistry : Registry where
  parameters := [externalDefinition]

theorem externalRegistry_parameter? :
    externalRegistry.parameter? 7 = some externalDefinition := by
  decide +kernel

/-- Without a constant both durations come back. -/
theorem durations_returned_own :
    (∃ bytes, (unevenDefinition 0).encodeDefinition = .ok bytes
      ∧ ∀ (mode : ReadMode) (site : Site), ∃ read after,
        Consumes (readDefinition mode .demixing site { known := [] }) bytes (read, after)
        ∧ read.id = 7 ∧ read.rate = 1 ∧ read.duration = 4 ∧ read.constantDuration = 0
        ∧ read.subblocks.map (·.duration) = [1, 3])
    ∧ ∃ body, (unevenValues 0).encodeBlock externalDefinition externalRegistry = .ok body
      ∧ ∀ mode : ReadMode, ∃ read, parseBlock mode externalRegistry body = .ok (some read)
        ∧ read.subblocks.map (·.duration) = [1, 3] := by
  have hencode : (unevenDefinition 0).encodeDefinition
      = .ok [0x07, 0x01, 0x00, 0x04, 0x00, 0x02, 0x01, 0x40, 0x03, 0xA0] := by decide +kernel
  have hbody : (unevenValues 0).encodeBlock externalDefinition externalRegistry
      = .ok [0x07, 0x04, 0x00, 0x02, 0x01, 0x40, 0x03, 0xA0] := by decide +kernel
  have hfirst := (durations_returned (unevenDefinition 0) (by decide)).1 rfl _ hencode
  have hsecond := (durations_returned (unevenValues 0) (by decide)).2.1 rfl
    externalDefinition externalRegistry _ externalRegistry_parameter? hbody
  simp only [show (unevenDefinition 0).sentDurations = [1, 3] by decide +kernel] at hfirst
  simp only [show (unevenValues 0).sentDurations = [1, 3] by decide +kernel] at hsecond
  exact ⟨⟨_, hencode, hfirst⟩, _, hbody, hsecond⟩

/-- With a constant of two both are written all the same, but what comes back are two
subblocks of equal length. -/
theorem durations_returned_equal :
    (∃ bytes, (unevenDefinition 2).encodeDefinition = .ok bytes
      ∧ ((readDefinition {} .demixing {} { known := [] }).parse "parameter definition" bytes).map
          (fun read => read.1.subblocks.map (·.duration)) = .ok [2, 2])
    ∧ (∃ body, (unevenValues 2).encodeBlock externalDefinition externalRegistry = .ok body
      ∧ (parseBlock {} externalRegistry body).map
          (·.map fun read => read.subblocks.map (·.duration)) = .ok (some [2, 2]))
    ∧ (unevenDefinition 2).subblocks.map (·.duration) = [1, 3]
    ∧ (unevenValues 2).subblocks.map (·.duration) = [1, 3] := by
  have hencode : (unevenDefinition 2).encodeDefinition
      = .ok [0x07, 0x01, 0x00, 0x04, 0x02, 0x40, 0xA0] := by decide +kernel
  have hbody : (unevenValues 2).encodeBlock externalDefinition externalRegistry
      = .ok [0x07, 0x04, 0x02, 0x40, 0xA0] := by decide +kernel
  exact ⟨⟨_, hencode, by decide +kernel⟩, ⟨_, hbody, by decide +kernel⟩, rfl, rfl⟩

end Parameter

end Iamf
