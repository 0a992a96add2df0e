import Iamf.Proofs.Registry.Grounded

/-!
# `Iamf.Proofs.Parameter.Parsed`: blocks that were read conform

The converse of `Parameter.Conforms.exists_encodeBlock`: what comes out of a
parameter block is a set of values that conforms to the definition of its id.
The definition has to be one that was read itself, since a self timed block takes
its timeline from there.

* `SubblockValue.read_eq_ok`: a value that was read fits its kind.
* `parseBlock_eq_ok`: values that were read conform.
* `Conforms.isRegular`: and their timeline is regular, wherever it came from.
-/

set_option autoImplicit false

namespace Iamf

/-! ### Values -/

theorem Animation.read_eq_ok {reader after : Reader} {animation : Animation}
    (h : read reader = .ok (animation, after)) : animation.IsQ8 := by
  simp only [read, Read.bind_eq_ok] at h
  obtain ⟨shape, _, -, _, _, -, start, _, hstart, h⟩ := h
  have hfirst := Ratio.read_eq_ok hstart
  -- One case for each shape: a step, a ramp, a curve.
  split at h
  · simp only [Read.pure_eq_ok, Prod.mk.injEq] at h
    rw [h.1]
    exact hfirst
  simp only [Read.bind_eq_ok] at h
  obtain ⟨finish, _, hfinish, h⟩ := h
  have hsecond := Ratio.read_eq_ok hfinish
  split at h
  · simp only [Read.pure_eq_ok, Prod.mk.injEq] at h
    rw [h.1]
    exact ⟨hfirst, hsecond⟩
  simp only [Read.bind_eq_ok, Read.pure_eq_ok, Prod.mk.injEq] at h
  obtain ⟨control, _, hcontrol, _, _, -, rfl, -⟩ := h
  exact ⟨hfirst, hsecond, Ratio.read_eq_ok hcontrol⟩

namespace GainTable

/-- Layer by layer, a row that is read for a layer without recon gain is zero. -/
theorem readRows_eq_ok {carrying layers : List Nat} :
    ∀ {reader after : Reader} {rows : List GainRow},
      readRows carrying layers reader = .ok (rows, after) →
      List.Forall₂ (fun layer row => layer ∉ carrying → row = .zero) layers rows := by
  induction layers with
  | nil =>
    intro reader after rows h
    simp only [readRows, Read.pure_eq_ok, Prod.mk.injEq] at h
    exact h.1 ▸ .nil
  | cons layer layers ih =>
    intro reader after rows h
    rw [readRows] at h
    split at h
    · rename_i hmem
      simp only [Read.bind_eq_ok, Read.pure_eq_ok, Prod.mk.injEq] at h
      obtain ⟨row, _, -, others, _, hothers, rfl, -⟩ := h
      exact .cons (fun hnot => absurd hmem hnot) (ih hothers)
    · simp only [Read.bind_eq_ok, Read.pure_eq_ok, Prod.mk.injEq] at h
      obtain ⟨_, _, ⟨rfl, -⟩, others, _, hothers, rfl, -⟩ := h
      exact .cons (fun _ => rfl) (ih hothers)

theorem read_eq_ok {carrying : List Nat} {reader after : Reader} {table : GainTable}
    (h : read carrying reader = .ok (table, after)) : table.IsZeroOutside carrying := by
  simp only [read, Read.bind_eq_ok, Read.pure_eq_ok, Prod.mk.injEq] at h
  obtain ⟨rows, _, hrows, rfl, -⟩ := h
  have hzero := readRows_eq_ok hrows
  intro layer hlayer hmem
  have hlength : rows.length = maxLayers := by
    rw [← hzero.length_eq, List.length_range]
  have hrow := (List.forall₂_iff_get.1 hzero).2 layer (by simpa using hlayer) (by omega)
  simp only [List.get_eq_getElem, List.getElem_range] at hrow
  have hget : rows[layer]? = some rows[layer] := List.getElem?_eq_getElem (by omega)
  simp only [row, dif_pos hlayer, ofList, Vector.getElem_ofFn, List.getD, hget, Option.getD_some]
  exact hrow hmem

end GainTable

/-- A value that was read fits its kind. -/
theorem SubblockValue.read_eq_ok {kind : ParameterKind} {carrying : List Nat}
    {reader after : Reader} {value : SubblockValue}
    (h : read kind carrying reader = .ok (value, after)) : value.Fits kind carrying := by
  cases kind <;> simp only [read, Read.map_eq_ok, Prod.mk.injEq] at h
  case mixGain =>
    obtain ⟨animation, _, hread, rfl, -⟩ := h
    exact Animation.read_eq_ok hread
  case demixing =>
    obtain ⟨mode, _, hread, rfl, -⟩ := h
    exact readDemixingMode_eq_ok hread
  case reconGain =>
    obtain ⟨table, _, hread, rfl, -⟩ := h
    exact GainTable.read_eq_ok hread

namespace Parameter

variable {definition values : Parameter} {carrying : List Nat}

/-! ### The timeline of a block -/

/-- The timeline that was read for a block: the definition's own, or one whose
count its durations imply. -/
theorem readBlockTimeline_eq_ok (htimed : definition.IsTimed)
    (hbounded : definition.subblocks.length ≤ maxSubblocks) {timeline : Timeline}
    {reader after : Reader} (h : readBlockTimeline definition reader = .ok (timeline, after)) :
    (definition.selfTimed = true → timeline.duration = definition.duration
        ∧ timeline.constantDuration = definition.constantDuration
        ∧ timeline.count.toNat = definition.subblocks.length)
      ∧ (definition.selfTimed = false → timeline.constantDuration ≠ 0 →
        timeline.count = impliedSubblocks timeline.duration timeline.constantDuration) := by
  rw [readBlockTimeline] at h
  cases hself : definition.selfTimed with
  | true =>
    rw [if_pos hself, Read.pure_eq_ok, Prod.mk.injEq] at h
    obtain ⟨rfl, -⟩ := h
    refine ⟨fun _ => ⟨rfl, rfl, ?_⟩, fun hfalse => by cases hfalse⟩
    -- Without subblocks their number is implied, and a regular definition implies zero.
    show (if _ then _ else _ : UInt32).toNat = _
    split
    · rename_i hempty
      exact (htimed hself hempty.2).1
    · exact ofNat_length_toNat hbounded
  | false =>
    rw [if_neg (by simp [hself])] at h
    simp only [Read.bind_eq_ok] at h
    obtain ⟨duration, _, -, constant, _, -, h⟩ := h
    split at h
    · rename_i hzero
      simp only [Read.bind_eq_ok, Read.pure_eq_ok, Prod.mk.injEq] at h
      obtain ⟨count, _, -, rfl, -⟩ := h
      exact ⟨fun htrue => (by cases htrue), fun _ hne => absurd hzero hne⟩
    · simp only [Read.bind_eq_ok, Read.pure_eq_ok, Prod.mk.injEq] at h
      obtain ⟨_, _, ⟨rfl, -⟩, rfl, -⟩ := h
      exact ⟨fun htrue => (by cases htrue), fun _ _ => rfl⟩

/-! ### The subblocks of a block -/

theorem readBlockDuration_eq_ok {selfTimed : Bool} {constant duration : UInt32}
    {defined : Option Subblock} {reader after : Reader}
    (h : readBlockDuration selfTimed constant defined reader = .ok (duration, after)) :
    (constant ≠ 0 → duration = constant)
      ∧ (selfTimed = true → constant = 0 → duration = (defined.map (·.duration)).getD 0) := by
  rw [readBlockDuration] at h
  split at h
  · rename_i hown
    refine ⟨fun hne => absurd hown.2 hne, fun hself => ?_⟩
    rw [hown.1] at hself
    cases hself
  split at h
  · rename_i hne
    exact ⟨fun _ => congrArg Prod.fst (Read.pure_eq_ok.1 h), fun _ hzero => absurd hzero hne⟩
  · rename_i hzero
    exact ⟨fun hne => absurd hne hzero, fun _ _ => congrArg Prod.fst (Read.pure_eq_ok.1 h)⟩

/-- The subblocks that are read along those of a definition: as many as asked for,
each of which fits, with the constant duration if there is one; where there is
none and the definition says the durations, they are the definition's. -/
theorem readBlockSubblocks_eq_ok {constant : UInt32} {count : Nat} {defined left : List Subblock}
    {subblocks : List Subblock} {reader after : Reader}
    (h : Read.timesWith count defined (readBlockSubblock definition constant carrying) reader
      = .ok ((subblocks, left), after)) :
    subblocks.length = count
      ∧ (∀ subblock ∈ subblocks, subblock.value.Fits definition.kind carrying)
      ∧ (constant ≠ 0 → ∀ subblock ∈ subblocks, subblock.duration = constant)
      ∧ (definition.selfTimed = true → constant = 0 → subblocks.length = defined.length →
        subblocks.map (·.duration) = defined.map (·.duration)) := by
  refine Read.timesWith_induction (motive := fun defined subblocks _ =>
    (∀ subblock ∈ subblocks, subblock.value.Fits definition.kind carrying)
      ∧ (constant ≠ 0 → ∀ subblock ∈ subblocks, subblock.duration = constant)
      ∧ (definition.selfTimed = true → constant = 0 → subblocks.length = defined.length →
        subblocks.map (·.duration) = defined.map (·.duration))) ?_ ?_ h
  · intro defined
    refine ⟨by simp, by simp, fun _ _ hlength => ?_⟩
    rw [List.length_eq_zero_iff.1 hlength.symm]
  · intro defined reader first middle after others final hfirst hothers
    simp only [readBlockSubblock, Read.bind_eq_ok, Read.pure_eq_ok, Prod.mk.injEq] at hfirst
    obtain ⟨duration, _, hduration, value, _, hvalue, ⟨rfl, rfl⟩, -⟩ := hfirst
    obtain ⟨hfits, hconstant, hcopied⟩ := hothers
    obtain ⟨hregular, hown⟩ := readBlockDuration_eq_ok hduration
    refine ⟨List.forall_mem_cons.2 ⟨SubblockValue.read_eq_ok hvalue, hfits⟩,
      fun hne => List.forall_mem_cons.2 ⟨hregular hne, hconstant hne⟩,
      fun hself hzero hlength => ?_⟩
    -- There is one subblock of the definition for each of these.
    cases defined with
    | nil => cases hlength
    | cons head tail =>
      rw [List.map_cons, List.map_cons,
        hcopied hself hzero (Nat.succ.inj hlength), hown hself hzero]
      rfl

/-! ### Blocks -/

/-- The subblocks of a block that was read are regular. -/
theorem Conforms.isRegular (h : Conforms definition carrying values)
    (htimed : definition.IsTimed) : values.IsRegular := by
  cases hself : definition.selfTimed with
  | false => exact h.regular hself
  | true =>
    obtain ⟨hduration, hconstant, hdurations⟩ := h.copied hself
    intro hne
    obtain ⟨himplied, hall⟩ := htimed hself (hconstant ▸ hne)
    have hlength : values.subblocks.length = definition.subblocks.length := by
      simpa using congrArg List.length hdurations
    rw [hduration, hconstant, himplied, hlength]
    refine ⟨rfl, fun subblock hmem => ?_⟩
    -- Its duration is one of the definition's, all of which are the same.
    have hcopied := List.mem_map_of_mem (f := (·.duration)) hmem
    rw [hdurations] at hcopied
    obtain ⟨defined, hdefined, heq⟩ := List.mem_map.1 hcopied
    rw [← heq, hall defined hdefined]

/-- The steps of reading a block. The early test of the count leaves nothing behind. -/
theorem readBlockOf_cases {mode : ReadMode} {registry : Registry} {reader after : Reader}
    (h : readBlockOf mode registry definition reader = .ok (values, after)) :
    ∃ timeline carrying subblocks left first before behind,
      readBlockTimeline definition reader = .ok (timeline, first)
      ∧ timeline.count.toNat ≤ maxSubblocks
      ∧ definition.carryingLayers registry = .ok carrying
      ∧ Read.timesWith timeline.count.toNat definition.subblocks
          (readBlockSubblock definition timeline.constantDuration carrying) before
        = .ok ((subblocks, left), behind)
      ∧ values = { definition with
          duration := timeline.duration
          constantDuration := timeline.constantDuration
          subblocks } := by
  simp only [readBlockOf, checkSubblockCount, Read.bind_eq_ok, Read.ensure_eq_ok,
    Read.liftExcept_eq_ok, Prod.mk.injEq] at h
  obtain ⟨timeline, first, htimeline, _, _, ⟨hcount, -⟩, carrying, _, ⟨_, hcarrying, rfl, -⟩, h⟩ :=
    h
  refine ⟨timeline, carrying, ?_⟩
  split at h
  · simp only [Read.bind_eq_ok, Read.pure_eq_ok, Prod.mk.injEq] at h
    obtain ⟨_, _, -, ⟨subblocks, left⟩, _, hsubblocks, _, _, -, rfl, -⟩ := h
    exact ⟨subblocks, left, first, _, _, htimeline, hcount, hcarrying, hsubblocks, rfl⟩
  · simp only [Read.bind_eq_ok, Read.pure_eq_ok, Prod.mk.injEq] at h
    obtain ⟨⟨subblocks, left⟩, _, hsubblocks, _, _, -, rfl, -⟩ := h
    exact ⟨subblocks, left, first, _, _, htimeline, hcount, hcarrying, hsubblocks, rfl⟩

theorem readBlockOf_eq_ok {mode : ReadMode} {registry : Registry} (htimed : definition.IsTimed)
    (hbounded : definition.subblocks.length ≤ maxSubblocks) {reader after : Reader}
    (h : readBlockOf mode registry definition reader = .ok (values, after)) :
    ∃ carrying, definition.carryingLayers registry = .ok carrying
      ∧ Conforms definition carrying values := by
  obtain ⟨timeline, carrying, subblocks, left, _, _, _, htimeline, hcount, hcarrying, hsubblocks,
    rfl⟩ := readBlockOf_cases h
  obtain ⟨hself, hother⟩ := readBlockTimeline_eq_ok htimed hbounded htimeline
  obtain ⟨hlength, hfits, hconstant, hcopied⟩ := readBlockSubblocks_eq_ok hsubblocks
  refine ⟨carrying, hcarrying, ?_⟩
  exact {
    id := rfl
    kind := rfl
    rate := rfl
    selfTimed := rfl
    element := rfl
    copied := by
      intro htrue
      obtain ⟨hduration, hsame, hdefined⟩ := hself htrue
      refine ⟨hduration, hsame, ?_⟩
      show subblocks.map (·.duration) = _
      rw [hdefined] at hlength
      by_cases hzero : timeline.constantDuration = 0
      · exact hcopied htrue hzero hlength
      · -- Both have the constant duration throughout.
        have hregular := (htimed htrue (hsame ▸ hzero)).2
        rw [List.map_congr_left (g := fun _ => timeline.constantDuration) (hconstant hzero),
          List.map_congr_left (g := fun _ => timeline.constantDuration)
            (fun subblock hmem => (hregular subblock hmem).trans hsame.symm),
          List.map_const', List.map_const', hlength]
    regular := by
      intro hfalse hne
      refine ⟨?_, hconstant hne⟩
      show (impliedSubblocks timeline.duration timeline.constantDuration).toNat = subblocks.length
      rw [← hother hfalse hne, hlength]
    bounded := by
      show subblocks.length ≤ maxSubblocks
      rw [hlength]
      exact hcount
    fits := hfits }

/-- Values that were read against a registry that was read itself conform to the
definition of their id there. -/
theorem parseBlock_eq_ok {mode : ReadMode} {registry : Registry} {body : Bytes}
    (hgrounded : registry.Grounded) (h : parseBlock mode registry body = .ok (some values)) :
    ∃ definition carrying, registry.parameter? values.id = some definition
      ∧ definition.carryingLayers registry = .ok carrying
      ∧ Conforms definition carrying values := by
  rw [parseBlock, Read.parse_eq_ok] at h
  obtain ⟨after, h⟩ := h
  simp only [readBlock, Read.bind_eq_ok] at h
  obtain ⟨id, middle, -, h⟩ := h
  cases hfind : registry.parameter? id with
  | none =>
    simp only [hfind, Read.pure_eq_ok, Prod.mk.injEq] at h
    cases h.1
  | some definition =>
    simp only [hfind, Read.map_eq_ok, Prod.mk.injEq, Option.some.injEq] at h
    obtain ⟨_, _, hread, rfl, -⟩ := h
    have hground := hgrounded definition (List.mem_of_find?_eq_some hfind)
    obtain ⟨carrying, hcarrying, hconforms⟩ :=
      readBlockOf_eq_ok hground.timed_isTimed (hground.timed.elim fun _ h => h.bounded) hread
    have hid : definition.id = id := by simpa using List.find?_some hfind
    refine ⟨definition, carrying, ?_, hcarrying, hconforms⟩
    rw [hconforms.id, hid]
    exact hfind

end Parameter

end Iamf
