import Iamf.Element.Wire
import Iamf.Proofs.Parameter.Definition

/-!
# `Iamf.Proofs.Element.Parameters`: the parameters that an element lists

While the parameters of an element are read, a list keeps the last one of
either kind, and a scope keeps all of them. The two are the same thing as long
as no kind is listed twice; otherwise the scope has a definition that the
element does not embed. How often a kind is listed can be told from the bytes
alone, since no definition takes more or fewer bytes for what came before it.

* `AudioElement.ListsOnce`: no kind is listed twice.
* `ParameterList.Fits`: what holds of the list, however often a kind is listed.
* `ParameterList.IsExact.addsAll`: what holds of it when no kind is listed twice.
-/

set_option autoImplicit false

namespace Iamf

open Parameter (Covers)

/-! ### Listed kinds -/

namespace AudioElement

/-- Reads one listed parameter, by itself, and gives its kind if it is a known
one. -/
def readListedKind : Read (Option ParameterKind) := do
  let code ← Leb128.read
  match ParameterKind.ofCode? code with
  | some .demixing => do
    let _ ← Parameter.readDefinition { earlyCounts := false } .demixing {} { known := [] }
    -- The weight.
    let _ ← Read.byte
    return some .demixing
  | some kind => do
    let _ ← Parameter.readDefinition { earlyCounts := false } kind {} { known := [] }
    return some kind
  | none => do
    skipConfig
    return none

/-- Reads the kinds of the listed parameters, which are behind the substream ids. -/
def readListing : Read (List (Option ParameterKind)) := do
  let count ← Leb128.read
  let _ ← Read.times count.toNat Leb128.read
  let parameterCount ← Leb128.read
  Read.times parameterCount.toNat readListedKind

/-- Reads the kinds of the parameters that an element body lists. -/
def readListedKinds : Read (List (Option ParameterKind)) := do
  let _id ← Leb128.read
  let _head ← Read.byte
  let _configId ← Leb128.read
  readListing

/-- An element body does not list two down-mixing or two recon gain parameters. -/
def ListsOnce (body : Bytes) : Prop :=
  ∀ kinds, readListedKinds.parse "audio element" body = .ok kinds →
    kinds.count (some .demixing) ≤ 1 ∧ kinds.count (some .reconGain) ≤ 1

end AudioElement

namespace Parameter

theorem checkCount_eq_ok {mode : ReadMode} {count : Nat} {subject : String}
    {reader : Reader} {result : Unit × Reader}
    (h : mode.checkCount count subject reader = .ok result) : result = ((), reader) := by
  simp only [ReadMode.checkCount, Read.bytesLeft, Read.bind_eq_ok, Read.pure_eq_ok,
    Read.ensure_eq_ok, Prod.mk.injEq] at h
  obtain ⟨_, _, ⟨_, _, hget, rfl, rfl⟩, -, rfl⟩ := h
  cases hget
  rfl

/-- Without early tests every count goes. -/
theorem checkCount_late (count : Nat) (subject : String) (reader : Reader) :
    ReadMode.checkCount { earlyCounts := false } count subject reader = .ok ((), reader) := by
  simp only [ReadMode.checkCount, Read.bind_eq_ok, Read.ensure_eq_ok]
  exact ⟨_, reader, rfl, fun hearly => absurd hearly (by decide), rfl⟩

/-- A timeline takes the same bytes wherever it stands. -/
theorem readTimeline_alone {mode : ReadMode} {selfTimed : Bool} {site : Site}
    {reader after : Reader} {timeline : Timeline}
    (h : readTimeline mode selfTimed site reader = .ok (timeline, after)) :
    ∃ alone, readTimeline { earlyCounts := false } selfTimed {} reader = .ok (alone, after)
      ∧ alone.count = timeline.count
      ∧ (timeline.count ≠ 0 → alone.constantDuration = timeline.constantDuration) := by
  cases selfTimed with
  | false =>
    simp only [readTimeline, Bool.false_eq_true, if_false, Read.pure_eq_ok, Prod.mk.injEq] at h
    obtain ⟨rfl, rfl⟩ := h
    exact ⟨_, rfl, rfl, fun hne => absurd rfl hne⟩
  | true =>
    refine ⟨timeline, ?_, rfl, fun _ => rfl⟩
    simp only [readTimeline, if_true, Read.bind_eq_ok] at h ⊢
    obtain ⟨duration, _, hduration, constantDuration, middle, hconstant, h⟩ := h
    refine ⟨duration, _, hduration, constantDuration, middle, hconstant, ?_⟩
    by_cases hzero : constantDuration = 0
    · rw [if_pos hzero] at h ⊢
      simp only [Read.bind_eq_ok] at h ⊢
      obtain ⟨count, _, hcount, _, _, hcheck, h⟩ := h
      cases checkCount_eq_ok hcheck
      exact ⟨count, _, hcount, (), _, checkCount_late _ _ _, h⟩
    · rw [if_neg hzero] at h ⊢
      exact h

/-- A definition takes the same bytes wherever it stands. -/
theorem readDefinition_alone {mode : ReadMode} {kind : ParameterKind} {site : Site}
    {scope : Scope} {reader after : Reader} {result : Parameter × Scope}
    (h : readDefinition mode kind site scope reader = .ok (result, after)) :
    ∃ alone, readDefinition { earlyCounts := false } kind {} { known := [] } reader
      = .ok (alone, after) := by
  simp only [readDefinition, Read.bind_eq_ok, Read.ensure_eq_ok, Read.pure_eq_ok,
    Prod.mk.injEq] at h
  obtain ⟨id, _, hid, rate, _, hrate, flags, _, hflags, _, _, ⟨-, -, rfl⟩, _, _, ⟨-, -, rfl⟩,
    timeline, _, htimeline, _, behind, ⟨-, -, rfl⟩, subblocks, _, hsubblocks, -, rfl⟩ := h
  obtain ⟨alone, halone, hcount, hconstant⟩ := readTimeline_alone htimeline
  -- Only where there are subblocks does it matter whether their durations are listed.
  have hsubblocks' : Read.times alone.count.toNat
      (readDefinedSubblock kind alone.constantDuration) behind = .ok (subblocks, after) := by
    by_cases hzero : timeline.count = 0
    · rw [hcount]
      rw [hzero] at hsubblocks ⊢
      exact hsubblocks
    · rw [hcount, hconstant hzero]
      exact hsubblocks
  rw [readDefinition]
  exact ⟨_, Read.bind_eq_ok.2 ⟨id, _, hid, Read.bind_eq_ok.2 ⟨rate, _, hrate,
    Read.bind_eq_ok.2 ⟨flags, _, hflags, Read.bind_eq_ok.2 ⟨(), _, rfl,
    Read.bind_eq_ok.2 ⟨(), _, rfl, Read.bind_eq_ok.2 ⟨alone, _, halone,
    Read.bind_eq_ok.2 ⟨(), _, rfl, Read.bind_eq_ok.2 ⟨subblocks, _, hsubblocks', rfl⟩⟩⟩⟩⟩⟩⟩⟩⟩

end Parameter

/-! ### What a list holds -/

namespace AudioElement

/-- Where the parameters of an element stand. -/
def site (element : AudioElement) : Site where
  element := some element.id
  frameSize := element.frameSize?

/-- A parameter that the list holds is one of this kind, allowed by what was
known, and its id is pending in its shape. -/
structure Holds (known : List Parameter) (site : Site) (pending : List Parameter)
    (kind : ParameterKind) (parameter : Option Parameter) : Prop where
  kind : ∀ definition ∈ parameter, definition.kind = kind
  allowed : ∀ definition ∈ parameter, Scope.Allows { known } site definition
  covered : ∀ definition ∈ parameter, Covers pending definition

/-- What is known of the parameters of an element while they are read. -/
structure ParameterList.Fits (known : List Parameter) (site : Site) (list : ParameterList) :
    Prop where
  base : list.scope.known = known
  sound : list.scope.Sound
  pending : ∀ definition ∈ list.scope.pending,
    definition.kind ≠ .mixGain ∧ Scope.Allows { known } site definition
  demixing : Holds known site list.scope.pending .demixing list.demixing
  reconGain : Holds known site list.scope.pending .reconGain list.reconGain
  weight : list.defaultWeight.toNat < 16 ∧ (list.demixing = none → list.defaultWeight = 0)

end AudioElement

/-- What the definitions of one place allow is allowed by those known before,
since each of them takes over shape and link of the one before it. -/
theorem Scope.Allows.of_pending {scope : Scope} {site : Site} {definition : Parameter}
    (hpending : ∀ old ∈ scope.pending, Scope.Allows { known := scope.known } site old)
    (h : scope.Allows site definition) :
    Scope.Allows { known := scope.known } site definition := by
  cases hfind : scope.pending.find? (·.id = definition.id) with
  | none =>
    refine h.of_find?_eq ?_
    simp [Scope.find?, hfind]
  -- The definition takes over from a pending one, which took over from a known one.
  | some old =>
    have hid : old.id = definition.id := Parameter.id_of_find? hfind
    have hold := hpending old (List.mem_of_find?_eq_some hfind)
    have hlatest := Scope.find?_of_pending hfind
    refine ⟨?_, h.timed, ?_⟩
    · intro known hknown
      exact (hold.agrees known (hid ▸ hknown)).trans (h.agrees old hlatest)
    · rw [h.linked, hlatest, ← hid, ← hold.linked]
      rfl

namespace AudioElement

theorem Holds.none (known : List Parameter) (site : Site) (pending : List Parameter)
    (kind : ParameterKind) : Holds known site pending kind none :=
  ⟨by simp, by simp, by simp⟩

/-- A list keeps what it holds when one more definition is stored. -/
theorem Holds.store {site : Site} {scope : Scope} {kind : ParameterKind}
    {parameter : Option Parameter} {definition : Parameter}
    (h : Holds scope.known site scope.pending kind parameter)
    (hallows : scope.Allows site definition) :
    Holds scope.known site (scope.store definition).pending kind parameter :=
  ⟨h.kind, h.allowed, fun held hheld =>
    Scope.covers_store_of_covers hallows.agrees (h.covered held hheld)⟩

/-- What one listed parameter adds to a list: a definition of either kind, or
nothing. -/
inductive Adds (site : Site) (list : ParameterList) :
    Option ParameterKind → ParameterList → Prop where
  | demixing {definition : Parameter} {weight : UInt8} (kind : definition.kind = .demixing)
      (allows : list.scope.Allows site definition) (small : weight.toNat < 16) :
      Adds site list (some .demixing) { list with
        demixing := some definition
        defaultWeight := weight
        scope := list.scope.store definition }
  | reconGain {definition : Parameter} (kind : definition.kind = .reconGain)
      (allows : list.scope.Allows site definition) :
      Adds site list (some .reconGain) { list with
        reconGain := some definition
        scope := list.scope.store definition }
  | nothing : Adds site list none list

/-- What some listed parameters add, one after the other. -/
inductive AddsAll (site : Site) :
    ParameterList → List (Option ParameterKind) → ParameterList → Prop where
  | nil (list : ParameterList) : AddsAll site list [] list
  | cons {list middle final : ParameterList} {kind : Option ParameterKind}
      {kinds : List (Option ParameterKind)} (first : Adds site list kind middle)
      (others : AddsAll site middle kinds final) : AddsAll site list (kind :: kinds) final

/-- One parameter of an element is one of the listed kinds, and adds that. -/
theorem readParameter_eq_ok {mode : ReadMode} {element : UInt32} {site : Site}
    {list next : ParameterList} {reader after : Reader}
    (h : readParameter mode element site list reader = .ok (next, after)) :
    ∃ kind, readListedKind reader = .ok (kind, after) ∧ Adds site list kind next := by
  rw [readParameter, Read.bind_eq_ok] at h
  obtain ⟨code, middle, hread, h⟩ := h
  cases hcode : ParameterKind.ofCode? code with
  | none =>
    simp only [hcode, Read.bind_eq_ok, Read.pure_eq_ok, Prod.mk.injEq] at h
    obtain ⟨_, _, hskip, rfl, rfl⟩ := h
    refine ⟨none, Read.bind_eq_ok.2 ⟨code, middle, hread, ?_⟩, .nothing⟩
    rw [hcode]
    exact Read.bind_eq_ok.2 ⟨(), _, hskip, rfl⟩
  | some kind =>
    cases kind with
    | mixGain => exact absurd h (by simp [hcode, Read.throw_eq_ok])
    | demixing =>
      simp only [hcode, Read.bind_eq_ok, Read.pure_eq_ok, Prod.mk.injEq] at h
      obtain ⟨⟨definition, scope⟩, _, hdefinition, weight, _, hweight, rfl, rfl⟩ := h
      obtain ⟨hkind, rfl, hallows⟩ := Parameter.readDefinition_eq_ok hdefinition
      obtain ⟨alone, halone⟩ := Parameter.readDefinition_alone hdefinition
      refine ⟨some .demixing, Read.bind_eq_ok.2 ⟨code, middle, hread, ?_⟩,
        .demixing hkind hallows (Read.toNat_shiftRight_lt weight (by decide))⟩
      rw [hcode]
      exact Read.bind_eq_ok.2 ⟨alone, _, halone, Read.bind_eq_ok.2 ⟨weight, _, hweight, rfl⟩⟩
    | reconGain =>
      simp only [hcode, Read.bind_eq_ok, Read.pure_eq_ok, Prod.mk.injEq] at h
      obtain ⟨⟨definition, scope⟩, _, hdefinition, rfl, rfl⟩ := h
      obtain ⟨hkind, rfl, hallows⟩ := Parameter.readDefinition_eq_ok hdefinition
      obtain ⟨alone, halone⟩ := Parameter.readDefinition_alone hdefinition
      refine ⟨some .reconGain, Read.bind_eq_ok.2 ⟨code, middle, hread, ?_⟩,
        .reconGain hkind hallows⟩
      rw [hcode]
      exact Read.bind_eq_ok.2 ⟨alone, _, halone, rfl⟩

/-- The parameters of an element are those of the listed kinds. -/
theorem iterate_readParameter_eq_ok {mode : ReadMode} {element : UInt32} {site : Site}
    {count : Nat} :
    ∀ {list final : ParameterList} {reader after : Reader},
      Read.iterate (readParameter mode element site) count list reader = .ok (final, after) →
      ∃ kinds, Read.times count readListedKind reader = .ok (kinds, after)
        ∧ AddsAll site list kinds final := by
  induction count with
  | zero =>
    intro list final reader after h
    simp only [Read.iterate, Except.ok.injEq, Prod.mk.injEq] at h
    obtain ⟨rfl, rfl⟩ := h
    exact ⟨[], rfl, .nil list⟩
  | succ count ih =>
    intro list final reader after h
    rw [Read.iterate_succ, Read.bind_eq_ok] at h
    obtain ⟨next, middle, hfirst, h⟩ := h
    obtain ⟨kind, hkind, hadds⟩ := readParameter_eq_ok hfirst
    obtain ⟨kinds, hkinds, hothers⟩ := ih h
    refine ⟨kind :: kinds, ?_, .cons hadds hothers⟩
    rw [Read.times_succ, hkind]
    simp only [hkinds, Except.map]

/-! ### However often a kind is listed -/

/-- Storing a definition keeps what is known of the pending ones. -/
theorem ParameterList.Fits.store {known : List Parameter} {site : Site} {list : ParameterList}
    {definition : Parameter} (h : list.Fits known site) (hkind : definition.kind ≠ .mixGain)
    (hallows : list.scope.Allows site definition) :
    Scope.Allows { known } site definition
      ∧ ∀ other ∈ (list.scope.store definition).pending,
        other.kind ≠ .mixGain ∧ Scope.Allows { known } site other := by
  have hknown : Scope.Allows { known } site definition := by
    have hpending : ∀ old ∈ list.scope.pending,
        Scope.Allows { known := list.scope.known } site old :=
      fun old hold => h.base ▸ (h.pending old hold).2
    exact h.base ▸ hallows.of_pending hpending
  refine ⟨hknown, fun other hother => ?_⟩
  rcases Scope.mem_pending_store hother with hold | rfl
  · exact h.pending other hold
  · exact ⟨hkind, hknown⟩

/-- No parameter has been read yet. -/
theorem ParameterList.Fits.start (known : List Parameter) (site : Site) :
    ParameterList.Fits known site { scope := { known } } :=
  ⟨rfl, Scope.sound_of_known known, by simp, .none _ _ _ _, .none _ _ _ _,
    Nat.zero_lt_succ 15, fun _ => rfl⟩

theorem ParameterList.Fits.adds {known : List Parameter} {site : Site}
    {list next : ParameterList} {kind : Option ParameterKind} (hlist : list.Fits known site)
    (h : Adds site list kind next) : next.Fits known site := by
  have hdemixing := hlist.base ▸ hlist.demixing
  have hreconGain := hlist.base ▸ hlist.reconGain
  cases h with
  | demixing hkind hallows hweight =>
    obtain ⟨hknown, hpending⟩ := hlist.store (by simp [hkind]) hallows
    refine ⟨hlist.base, hlist.sound.store hallows.agrees, hpending, ⟨?_, ?_, ?_⟩,
      hlist.base ▸ hreconGain.store hallows, hweight, by simp⟩
    · rintro _ ⟨⟩
      exact hkind
    · rintro _ ⟨⟩
      exact hknown
    · rintro _ ⟨⟩
      exact Scope.covers_store _ _
  | reconGain hkind hallows =>
    obtain ⟨hknown, hpending⟩ := hlist.store (by simp [hkind]) hallows
    refine ⟨hlist.base, hlist.sound.store hallows.agrees, hpending,
      hlist.base ▸ hdemixing.store hallows, ⟨?_, ?_, ?_⟩, hlist.weight⟩
    · rintro _ ⟨⟩
      exact hkind
    · rintro _ ⟨⟩
      exact hknown
    · rintro _ ⟨⟩
      exact Scope.covers_store _ _
  | nothing => exact hlist

theorem ParameterList.Fits.addsAll {known : List Parameter} {site : Site}
    {list final : ParameterList} {kinds : List (Option ParameterKind)}
    (h : list.Fits known site) (hadds : AddsAll site list kinds final) :
    final.Fits known site := by
  induction hadds with
  | nil => exact h
  | cons first _ ih => exact ih (h.adds first)

/-! ### When no kind is listed twice -/

/-- A definition that no pending one is of a kind with is of a new id. -/
theorem fresh_of_kind {scope : Scope} {site : Site} {definition : Parameter}
    (hallows : scope.Allows site definition)
    (h : ∀ old ∈ scope.pending, old.kind ≠ definition.kind) :
    ∀ old ∈ scope.pending, old.id ≠ definition.id := by
  intro old hold hid
  cases hfind : scope.pending.find? (·.id = definition.id) with
  | none => exact absurd hid (by simpa using List.find?_eq_none.1 hfind old hold)
  | some latest =>
    exact h latest (List.mem_of_find?_eq_some hfind)
      (hallows.agrees latest (Scope.find?_of_pending hfind)).kind

/-- The scope has what the list keeps, and nothing else. -/
def ParameterList.IsExact (list : ParameterList) : Prop :=
  list.scope.pending.Perm (list.demixing.toList ++ list.reconGain.toList)

theorem ParameterList.IsExact.addsAll {known : List Parameter} {site : Site}
    {list final : ParameterList} {kinds : List (Option ParameterKind)} (h : list.IsExact)
    (hfits : list.Fits known site) (hadds : AddsAll site list kinds final)
    (hdemixing : kinds.count (some .demixing) + list.demixing.toList.length ≤ 1)
    (hreconGain : kinds.count (some .reconGain) + list.reconGain.toList.length ≤ 1) :
    final.IsExact := by
  induction hadds with
  | nil => exact h
  | @cons list middle final kind kinds first _ ih =>
    have hmiddle := hfits.adds first
    rw [IsExact] at h
    cases first with
    | @demixing definition weight hkind hallows hweight =>
      rw [List.count_cons_self] at hdemixing
      rw [List.count_cons_of_ne (by decide)] at hreconGain
      -- A kind that is still to be listed has not been kept yet.
      have hnone : list.demixing = none := by
        rw [← Option.toList_eq_nil_iff, ← List.length_eq_zero_iff]
        omega
      rw [hnone, Option.toList_none, List.nil_append] at h
      refine ih ?_ hmiddle (by simpa using by omega) hreconGain
      -- All that is pending is of the other kind, and so of another id.
      have hfresh := fresh_of_kind hallows fun old hold => by
        rw [hfits.reconGain.kind old (Option.mem_toList.1 (h.subset hold)), hkind]
        decide
      rw [IsExact, Scope.store, Parameter.putInto_of_fresh hfresh]
      exact List.perm_append_comm.trans (h.append_left [definition])
    | @reconGain definition hkind hallows =>
      rw [List.count_cons_self] at hreconGain
      rw [List.count_cons_of_ne (by decide)] at hdemixing
      have hnone : list.reconGain = none := by
        rw [← Option.toList_eq_nil_iff, ← List.length_eq_zero_iff]
        omega
      rw [hnone, Option.toList_none, List.append_nil] at h
      refine ih ?_ hmiddle hdemixing (by simpa using by omega)
      have hfresh := fresh_of_kind hallows fun old hold => by
        rw [hfits.demixing.kind old (Option.mem_toList.1 (h.subset hold)), hkind]
        decide
      rw [IsExact, Scope.store, Parameter.putInto_of_fresh hfresh]
      exact h.append_right [definition]
    | nothing =>
      rw [List.count_cons_of_ne (by decide)] at hdemixing hreconGain
      exact ih h hmiddle hdemixing hreconGain

end AudioElement

end Iamf
