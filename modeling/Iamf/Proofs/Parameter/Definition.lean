import Iamf.Proofs.Parameter.Agreement
import Iamf.Proofs.Parameter.Value

/-!
# `Iamf.Proofs.Parameter.Definition`: definitions are read back as they were

What a reader can give as a definition is said once, by `Scope.Allows`: it
agrees with the definitions in scope, its link follows from them and its site,
and its timeline is one that durations and kind leave open. A definition that
is allowed can be written, and its bytes read it back.

* `readDefinition_eq_ok`: a definition that was read is allowed.
* `consumes_encodeDefinition`: an allowed definition comes back from its bytes.
-/

set_option autoImplicit false

namespace Iamf

open Read (Consumes Takes)

namespace Parameter

/-- A value that a subblock of a definition can have: only down-mixing says
anything there. -/
def IsDefinedValue (kind : ParameterKind) (value : SubblockValue) : Prop :=
  match kind with
  | .demixing => ∃ mode : UInt8, mode.toNat < 8 ∧ value = .demixing mode
  | kind => value = .empty kind

/-- The timeline of a definition that was read where frames have this size. -/
structure WellTimed (frameSize : UInt32) (definition : Parameter) : Prop where
  external : definition.selfTimed = false → definition.duration = frameSize
    ∧ definition.constantDuration = frameSize ∧ definition.subblocks = []
  constant : definition.selfTimed = true → definition.constantDuration ≠ 0 →
    (impliedSubblocks definition.duration definition.constantDuration).toNat
        = definition.subblocks.length
      ∧ ∀ subblock ∈ definition.subblocks, subblock.duration = definition.constantDuration
  bounded : definition.subblocks.length ≤ maxSubblocks
  defined : ∀ subblock ∈ definition.subblocks, IsDefinedValue definition.kind subblock.value

theorem IsDefinedValue.kind_eq {kind : ParameterKind} {value : SubblockValue}
    (h : IsDefinedValue kind value) : value.kind = kind := by
  cases kind with
  | demixing =>
    obtain ⟨_, -, rfl⟩ := h
    rfl
  | mixGain => exact h ▸ rfl
  | reconGain => exact h ▸ rfl

/-- The link of a definition: that of the one before it, or else its site's. -/
def linkAt (old : Option Parameter) (site : Site) : Option UInt32 :=
  match old with
  | some old => old.element
  | none => site.element

end Parameter

/-- A definition that can be read at a site with these definitions in scope. -/
structure Scope.Allows (scope : Scope) (site : Site) (definition : Parameter) : Prop where
  agrees : scope.AgreesWith definition
  timed : definition.WellTimed (site.frameSize.getD 0)
  linked : definition.element = Parameter.linkAt (scope.find? definition.id) site

/-- Only the latest definition of its id matters to a definition. -/
theorem Scope.Allows.of_find?_eq {scope other : Scope} {site : Site} {definition : Parameter}
    (h : scope.Allows site definition)
    (heq : other.find? definition.id = scope.find? definition.id) :
    other.Allows site definition where
  agrees := fun old hold => h.agrees old (heq ▸ hold)
  timed := h.timed
  linked := heq ▸ h.linked

namespace Parameter

/-! ### Subblocks -/

/-- The part of a subblock of a definition behind its duration. -/
def readDefinedValue (kind : ParameterKind) (duration : UInt32) : Read Subblock :=
  match kind with
  | .demixing => do
    let mode ← readDemixingMode
    return { duration, value := .demixing mode }
  | kind => return .empty kind duration

theorem readDefinedSubblock_eq (kind : ParameterKind) (constantDuration : UInt32) :
    readDefinedSubblock kind constantDuration
      = if constantDuration = 0 then Leb128.read >>= readDefinedValue kind
        else readDefinedValue kind constantDuration := by
  cases kind <;> rfl

theorem readDefinedValue_eq_ok {kind : ParameterKind} {duration : UInt32}
    {reader after : Reader} {subblock : Subblock}
    (h : readDefinedValue kind duration reader = .ok (subblock, after)) :
    subblock.duration = duration ∧ IsDefinedValue kind subblock.value := by
  cases kind with
  | demixing =>
    simp only [readDefinedValue, Read.bind_eq_ok, Read.pure_eq_ok, Prod.mk.injEq] at h
    obtain ⟨mode, _, hmode, rfl, -⟩ := h
    exact ⟨rfl, mode, readDemixingMode_eq_ok hmode, rfl⟩
  | mixGain =>
    simp only [readDefinedValue, Read.pure_eq_ok, Prod.mk.injEq] at h
    obtain ⟨rfl, -⟩ := h
    exact ⟨rfl, rfl⟩
  | reconGain =>
    simp only [readDefinedValue, Read.pure_eq_ok, Prod.mk.injEq] at h
    obtain ⟨rfl, -⟩ := h
    exact ⟨rfl, rfl⟩

theorem readDefinedSubblock_eq_ok {kind : ParameterKind} {constantDuration : UInt32}
    {reader after : Reader} {subblock : Subblock}
    (h : readDefinedSubblock kind constantDuration reader = .ok (subblock, after)) :
    (constantDuration ≠ 0 → subblock.duration = constantDuration)
      ∧ IsDefinedValue kind subblock.value := by
  rw [readDefinedSubblock_eq] at h
  split at h
  · rename_i hzero
    rw [Read.bind_eq_ok] at h
    obtain ⟨duration, _, -, h⟩ := h
    exact ⟨fun hne => absurd hzero hne, (readDefinedValue_eq_ok h).2⟩
  · exact ⟨fun _ => (readDefinedValue_eq_ok h).1, (readDefinedValue_eq_ok h).2⟩

theorem consumes_definedValue {kind : ParameterKind} {subblock : Subblock}
    (h : IsDefinedValue kind subblock.value) :
    Consumes (readDefinedValue kind subblock.duration)
      (match subblock.value with
        | .demixing mode => encodeDemixingMode mode
        | _ => [])
      subblock := by
  obtain ⟨duration, value⟩ := subblock
  cases kind with
  | demixing =>
    obtain ⟨mode, hmode, rfl⟩ := h
    exact (consumes_encodeDemixingMode hmode).bind_pure
      fun mode => ({ duration, value := .demixing mode } : Subblock)
  | mixGain =>
    cases h
    exact Takes.pure _
  | reconGain =>
    cases h
    exact Takes.pure _

theorem consumes_encodeDefinedSubblock {kind : ParameterKind} {constantDuration : UInt32}
    {subblock : Subblock} (hconstant : constantDuration ≠ 0 → subblock.duration = constantDuration)
    (h : IsDefinedValue kind subblock.value) :
    Consumes (readDefinedSubblock kind constantDuration)
      (encodeDefinedSubblock constantDuration subblock) subblock := by
  rw [readDefinedSubblock_eq, encodeDefinedSubblock]
  by_cases hzero : constantDuration = 0
  · rw [if_pos hzero, if_pos hzero]
    exact (Leb128.consumes_encode subblock.duration).bind (consumes_definedValue h)
  · rw [if_neg hzero, if_neg hzero, List.nil_append, ← hconstant hzero]
    exact consumes_definedValue h

/-! ### Timelines -/

theorem readTimeline_eq_ok {mode : ReadMode} {selfTimed : Bool} {site : Site}
    {reader after : Reader} {timeline : Timeline}
    (h : readTimeline mode selfTimed site reader = .ok (timeline, after)) :
    timeline.count.toNat ≤ maxSubblocks
      ∧ (selfTimed = false → timeline.duration = site.frameSize.getD 0
        ∧ timeline.constantDuration = site.frameSize.getD 0 ∧ timeline.count = 0)
      ∧ (selfTimed = true → timeline.constantDuration ≠ 0 →
        timeline.count = impliedSubblocks timeline.duration timeline.constantDuration) := by
  cases selfTimed with
  | false =>
    simp only [readTimeline, Bool.false_eq_true, if_false, Read.pure_eq_ok, Prod.mk.injEq] at h
    obtain ⟨rfl, -⟩ := h
    exact ⟨Nat.zero_le _, fun _ => ⟨rfl, rfl, rfl⟩, fun hfalse => absurd hfalse (by decide)⟩
  | true =>
    simp only [readTimeline, if_true, Read.bind_eq_ok] at h
    obtain ⟨duration, _, -, constantDuration, middle, -, h⟩ := h
    split at h <;>
      simp only [Read.bind_eq_ok, Read.pure_eq_ok, checkSubblockCount, Read.ensure_eq_ok,
        Prod.mk.injEq] at h
    · rename_i hzero
      obtain ⟨count, _, -, _, _, -, _, _, ⟨rfl, rfl⟩, _, _, ⟨hle, -⟩, rfl, -⟩ := h
      exact ⟨hle, fun hfalse => absurd hfalse (by decide), fun _ hne => absurd hzero hne⟩
    · obtain ⟨_, _, ⟨rfl, rfl⟩, _, _, ⟨hle, -⟩, rfl, -⟩ := h
      exact ⟨hle, fun hfalse => absurd hfalse (by decide), fun _ _ => rfl⟩

/-- How many subblocks the bytes of a timeline stand for. -/
theorem ofNat_length_toNat {definition : Parameter}
    (h : definition.subblocks.length ≤ maxSubblocks) :
    (UInt32.ofNat definition.subblocks.length).toNat = definition.subblocks.length := by
  rw [UInt32.toNat_ofNat']
  rw [maxSubblocks] at h
  omega

/-- The timeline that a self timed definition is written with is read back,
as long as the subblocks are behind it. -/
theorem takes_encodeTimeline {mode : ReadMode} {site : Site} {frameSize : UInt32}
    {definition : Parameter} (h : definition.WellTimed frameSize)
    (hself : definition.selfTimed = true) :
    Takes (fun rest => definition.constantDuration = 0 →
        definition.subblocks.length ≤ rest.length)
      (readTimeline mode true site) definition.encodeTimeline
      { duration := definition.duration, constantDuration := definition.constantDuration,
        count := UInt32.ofNat definition.subblocks.length } := by
  have hcount := ofNat_length_toNat h.bounded
  rw [readTimeline, if_pos rfl, encodeTimeline, List.append_assoc]
  refine (Leb128.consumes_encode _).bind ((Leb128.consumes_encode _).bind ?_)
  have hbound : (UInt32.ofNat definition.subblocks.length).toNat ≤ maxSubblocks := by
    rw [hcount]
    exact h.bounded
  by_cases hzero : definition.constantDuration = 0
  · rw [if_pos hzero, if_pos hzero]
    have hread := Leb128.consumes_encode (UInt32.ofNat definition.subblocks.length)
    rw [← List.append_nil (Leb128.encode (UInt32.ofNat definition.subblocks.length))]
    refine hread.bind (Takes.checkCount_bind_of (fun rest hrest => ?_) ?_)
    · rw [hcount]
      exact hrest hzero
    · exact Takes.bind_of_nil (Takes.pure _) (Takes.ensure_bind hbound (Takes.pure _))
  · rw [if_neg hzero, if_neg hzero]
    have himplied : impliedSubblocks definition.duration definition.constantDuration
        = UInt32.ofNat definition.subblocks.length := by
      rw [← (h.constant hself hzero).1, UInt32.ofNat_toNat]
    rw [himplied]
    exact Takes.bind_of_nil (Takes.pure _) (Takes.ensure_bind hbound (Takes.pure _))

/-- A timeline passes its test if a constant duration implies the number of
subblocks, and all of them are of the kind of the parameter. -/
theorem checkTimeline_eq_ok {parameter : Parameter} :
    parameter.checkTimeline = .ok ()
      ↔ (parameter.constantDuration ≠ 0 →
          (impliedSubblocks parameter.duration parameter.constantDuration).toNat
            = parameter.subblocks.length)
        ∧ ∀ subblock ∈ parameter.subblocks, subblock.kind = parameter.kind := by
  have hkinds : (∀ subblock ∈ parameter.subblocks, subblock.kind = parameter.kind)
      ↔ parameter.subblocks.find? (·.kind ≠ parameter.kind) = none := by
    simp only [List.find?_eq_none, decide_eq_true_eq, not_not]
  rw [checkTimeline, hkinds]
  cases parameter.subblocks.find? (·.kind ≠ parameter.kind) with
  | some other =>
    -- A subblock of another kind is refused, whatever the count is.
    by_cases hne : parameter.constantDuration ≠ 0
    · simp only [if_pos hne, outcome_bind_eq_ok, outcome_throw_eq_ok, and_false, exists_false,
        reduceCtorEq]
    · simp only [if_neg hne, outcome_throw_eq_ok, and_false, reduceCtorEq]
  | none =>
    by_cases hne : parameter.constantDuration ≠ 0
    · simp only [if_pos hne, outcome_bind_eq_ok, outcome_ensure_eq_ok, outcome_pure_eq_ok,
        exists_const, and_true]
      exact ⟨fun hcount _ => hcount, fun hcount => hcount hne⟩
    · exact ⟨fun _ => ⟨fun h => absurd h hne, rfl⟩, fun _ => by rw [if_neg hne]; rfl⟩

theorem checkTimeline_of_wellTimed {frameSize : UInt32} {definition : Parameter}
    (h : definition.WellTimed frameSize) (hself : definition.selfTimed = true) :
    definition.checkTimeline = .ok () :=
  checkTimeline_eq_ok.2 ⟨fun hne => (h.constant hself hne).1,
    fun subblock hmem => (h.defined subblock hmem).kind_eq⟩

/-- A subblock without a constant duration has at least the byte of its own. -/
theorem length_le_flatMap_encodeDefinedSubblock (subblocks : List Subblock) :
    subblocks.length ≤ (subblocks.flatMap (encodeDefinedSubblock 0)).length := by
  refine Read.length_le_flatMap fun subblock _ => ?_
  rw [encodeDefinedSubblock, if_pos rfl, List.length_append, Leb128.length_encode]
  exact Nat.le_add_right_of_le (Leb128.size_le subblock.duration).1

/-! ### Definitions -/

/-- A definition that was read is one that its scope and site allow, and it is
in scope from then on. -/
theorem readDefinition_eq_ok {mode : ReadMode} {kind : ParameterKind} {site : Site}
    {scope after : Scope} {reader rest : Reader} {definition : Parameter}
    (h : readDefinition mode kind site scope reader = .ok ((definition, after), rest)) :
    definition.kind = kind ∧ after = scope.store definition
      ∧ scope.Allows site definition := by
  simp only [readDefinition, Read.bind_eq_ok, Read.ensure_eq_ok, Read.pure_eq_ok,
    Prod.mk.injEq] at h
  obtain ⟨id, _, -, rate, _, -, flags, _, -, _, _, ⟨hkind, -⟩, _, _, ⟨htiming, -⟩, timeline, _,
    htimeline, _, _, ⟨hcount, -⟩, subblocks, _, hsubblocks, ⟨rfl, rfl⟩, -⟩ := h
  obtain ⟨hbounded, hexternal, hconstant⟩ := readTimeline_eq_ok htimeline
  obtain ⟨hlength, hitems⟩ := Read.times_eq_ok hsubblocks
  refine ⟨rfl, rfl, ?_, ?_, rfl⟩
  -- The three tests were made of the latest definition of the id.
  · intro old hold
    simp only at hold
    have hid : old.id = id := Scope.id_of_find? hold
    simp only [hold, Option.all_some, decide_eq_true_eq] at hkind htiming hcount
    exact ⟨hid, hkind, htiming, hcount.trans hlength.symm⟩
  · refine ⟨?_, ?_, hlength ▸ hbounded, ?_⟩
    · intro hself
      obtain ⟨hduration, hconstantDuration, hzero⟩ := hexternal hself
      refine ⟨hduration, hconstantDuration, ?_⟩
      rw [← List.length_eq_zero_iff, hlength, hzero]
      rfl
    · intro hself hne
      refine ⟨?_, ?_⟩
      · rw [← hconstant hself hne, hlength]
      · intro subblock hmem
        obtain ⟨_, _, hread⟩ := hitems subblock hmem
        exact (readDefinedSubblock_eq_ok hread).1 hne
    · intro subblock hmem
      obtain ⟨_, _, hread⟩ := hitems subblock hmem
      exact (readDefinedSubblock_eq_ok hread).2

/-- The byte of the timing mode tells it. -/
theorem testBit_timing (selfTimed : Bool) :
    (!(if selfTimed then 0x00 else 0x80 : UInt8).toNat.testBit 7) = selfTimed := by
  cases selfTimed <;> decide

/-- The subblocks of a self timed definition, behind its timeline. -/
theorem consumes_definedSubblocks {frameSize : UInt32} {definition : Parameter}
    (h : definition.WellTimed frameSize) (hself : definition.selfTimed = true) :
    Consumes (Read.times (UInt32.ofNat definition.subblocks.length).toNat
        (readDefinedSubblock definition.kind definition.constantDuration))
      (definition.subblocks.flatMap (encodeDefinedSubblock definition.constantDuration))
      definition.subblocks := by
  rw [ofNat_length_toNat h.bounded]
  refine Consumes.times_flatMap _ fun subblock hmem => ?_
  exact consumes_encodeDefinedSubblock (fun hne => (h.constant hself hne).2 subblock hmem)
    (h.defined subblock hmem)

/-- The part of a definition behind its id, rate and timing mode. -/
def readDefinitionFrom (mode : ReadMode) (kind : ParameterKind) (site : Site) (scope : Scope)
    (id rate : UInt32) (selfTimed : Bool) : Read (Parameter × Scope) := do
  let old := scope.find? id
  ensure (old.all (·.kind = kind)) (.inconsistentParameter id .kind)
  ensure (old.all (·.selfTimed = selfTimed)) (.inconsistentParameter id .timing)
  let timeline ← readTimeline mode selfTimed site
  ensure (old.all (·.subblocks.length = timeline.count.toNat))
    (.inconsistentParameter id .subblockCount)
  let subblocks ← Read.times timeline.count.toNat
    (readDefinedSubblock kind timeline.constantDuration)
  let definition := {
    id, kind, rate, selfTimed
    duration := timeline.duration
    constantDuration := timeline.constantDuration
    subblocks
    element := linkAt old site }
  return (definition, scope.store definition)

theorem readDefinition_eq (mode : ReadMode) (kind : ParameterKind) (site : Site)
    (scope : Scope) :
    readDefinition mode kind site scope = (do
      let id ← Leb128.read
      let rate ← Leb128.read
      let flags ← Read.byte
      readDefinitionFrom mode kind site scope id rate (!flags.toNat.testBit 7)) :=
  rfl

/-- What a definition is written with behind its timing mode. -/
def encodeDefinitionTail (definition : Parameter) : Bytes :=
  if definition.selfTimed then
    definition.encodeTimeline
      ++ definition.subblocks.flatMap (encodeDefinedSubblock definition.constantDuration)
  else []

theorem encodeDefinition_eq {frameSize : UInt32} {definition : Parameter}
    (h : definition.WellTimed frameSize) :
    definition.encodeDefinition = .ok (Leb128.encode definition.id
      ++ (Leb128.encode definition.rate
        ++ ([if definition.selfTimed then 0x00 else 0x80]
          ++ definition.encodeDefinitionTail))) := by
  cases hself : definition.selfTimed with
  | false =>
    simp only [encodeDefinition, encodeDefinitionTail, hself, Bool.false_eq_true, if_false,
      List.append_nil, List.append_assoc]
    rfl
  | true =>
    simp only [encodeDefinition, encodeDefinitionTail, hself, if_true,
      checkTimeline_of_wellTimed h hself, List.append_assoc]
    rfl

/-- What follows the timing mode of a definition that is allowed. -/
theorem consumes_definitionFrom (mode : ReadMode) {site : Site} {scope : Scope}
    {definition : Parameter} (h : scope.Allows site definition) :
    Consumes
      (readDefinitionFrom mode definition.kind site scope definition.id definition.rate
        definition.selfTimed)
      definition.encodeDefinitionTail (definition, scope.store definition) := by
  -- The latest definition of the id passes all three tests.
  have hall : ∀ test : Parameter → Bool, (∀ old, old.Agrees definition → test old = true) →
      (scope.find? definition.id).all test = true := by
    intro test htest
    rw [Option.all_eq_true]
    exact fun old hold => htest old (h.agrees old hold)
  have hkind := hall (·.kind = definition.kind) fun old hagrees => by simpa using hagrees.kind
  have htiming := hall (·.selfTimed = definition.selfTimed) fun old hagrees => by
    simpa using hagrees.selfTimed
  have hlinked := h.linked
  refine Takes.ensure_bind hkind (Takes.ensure_bind htiming ?_)
  rw [encodeDefinitionTail]
  cases hself : definition.selfTimed with
  -- Nothing more is written: an external timeline comes from the site, without subblocks.
  | false =>
    obtain ⟨hduration, hconstant, hsubblocks⟩ := h.timed.external hself
    have hcount := hall (·.subblocks.length = (0 : UInt32).toNat) fun old hagrees => by
      simpa [hsubblocks] using hagrees.count
    refine Takes.bind_of_nil (Takes.pure _) (Takes.ensure_bind hcount ?_)
    refine Takes.bind_of_nil (Takes.pure []) ?_
    obtain ⟨id, kind, rate, selfTimed, duration, constantDuration, subblocks, element⟩ := definition
    simp only at hself hduration hconstant hsubblocks hlinked
    subst hself hduration hconstant hsubblocks hlinked
    exact Takes.pure _
  | true =>
    have hcount := hall
      (·.subblocks.length = (UInt32.ofNat definition.subblocks.length).toNat)
      fun old hagrees => by
        simpa [ofNat_length_toNat h.timed.bounded] using hagrees.count
    refine Takes.bind_of (takes_encodeTimeline h.timed hself) ?_ ?_
    -- The count is tested against the bytes behind it, where the subblocks stand.
    · intro rest _ hzero
      rw [List.length_append, hzero]
      exact Nat.le_add_right_of_le (length_le_flatMap_encodeDefinedSubblock _)
    · have hread := (consumes_definedSubblocks h.timed hself).bind_pure fun subblocks =>
        let read : Parameter := { definition with subblocks }
        (read, scope.store read)
      refine Takes.ensure_bind hcount ?_
      simp only [← hlinked, ← hself]
      exact hread

/-- A definition that a scope and a site allow can be written, and is read back
from its bytes in that place. -/
theorem consumes_encodeDefinition (mode : ReadMode) {site : Site} {scope : Scope}
    {definition : Parameter} (h : scope.Allows site definition) :
    ∃ bytes, definition.encodeDefinition = .ok bytes
      ∧ Consumes (readDefinition mode definition.kind site scope) bytes
        (definition, scope.store definition) := by
  refine ⟨_, encodeDefinition_eq h.timed, ?_⟩
  rw [readDefinition_eq]
  refine (Leb128.consumes_encode _).bind ((Leb128.consumes_encode _).bind ?_)
  refine (Consumes.byte _).bind ?_
  rw [testBit_timing]
  exact consumes_definitionFrom mode h

end Parameter

/-! ### Definitions one after the other -/

namespace Scope

/-- A definition with the place where it stands. -/
abbrev Placed := Parameter × Site

/-- The scope behind some definitions. -/
def storeAll (scope : Scope) (placed : List Placed) : Scope :=
  placed.foldl (fun scope definition => scope.store definition.1) scope

/-- Each definition is allowed behind those before it. -/
def AllowsAll : Scope → List Placed → Prop
  | _, [] => True
  | scope, (definition, site) :: others =>
    scope.Allows site definition ∧ (scope.store definition).AllowsAll others

theorem storeAll_append (scope : Scope) (first second : List Placed) :
    scope.storeAll (first ++ second) = (scope.storeAll first).storeAll second :=
  List.foldl_append

theorem allowsAll_append {scope : Scope} {first second : List Placed} :
    scope.AllowsAll (first ++ second)
      ↔ scope.AllowsAll first ∧ (scope.storeAll first).AllowsAll second := by
  induction first generalizing scope with
  | nil => exact ⟨fun h => ⟨trivial, h⟩, fun h => h.2⟩
  | cons definition first ih =>
    rw [List.cons_append]
    show _ ∧ _ ↔ (_ ∧ _) ∧ _
    rw [ih, and_assoc]
    rfl

theorem known_storeAll (scope : Scope) (placed : List Placed) :
    (scope.storeAll placed).known = scope.known := by
  induction placed generalizing scope with
  | nil => rfl
  | cons definition placed ih => exact ih (scope.store definition.1)

/-- A sound scope stays sound behind definitions that are allowed. -/
theorem Sound.storeAll {scope : Scope} {placed : List Placed} (h : scope.Sound)
    (hallows : scope.AllowsAll placed) : (scope.storeAll placed).Sound := by
  induction placed generalizing scope with
  | nil => exact h
  | cons definition placed ih => exact ih (h.store hallows.1.agrees) hallows.2

theorem covers_storeAll_of_covers {scope : Scope} {placed : List Placed} {covered : Parameter}
    (hallows : scope.AllowsAll placed) (h : Parameter.Covers scope.pending covered) :
    Parameter.Covers (scope.storeAll placed).pending covered := by
  induction placed generalizing scope with
  | nil => exact h
  | cons definition placed ih =>
    exact ih hallows.2 (covers_store_of_covers hallows.1.agrees h)

/-- Every definition is pending in its shape behind all of them. -/
theorem covers_storeAll {scope : Scope} {placed : List Placed} {definition : Placed}
    (hallows : scope.AllowsAll placed) (hmem : definition ∈ placed) :
    Parameter.Covers (scope.storeAll placed).pending definition.1 := by
  induction placed generalizing scope with
  | nil => exact absurd hmem List.not_mem_nil
  | cons first placed ih =>
    rcases List.mem_cons.1 hmem with rfl | hmem
    · rw [storeAll, List.foldl_cons]
      exact covers_storeAll_of_covers hallows.2 (covers_store scope definition.1)
    · exact ih hallows.2 hmem

end Scope

end Iamf
