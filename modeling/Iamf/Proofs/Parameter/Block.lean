import Iamf.Parameter.Block
import Iamf.Proofs.Parameter.Definition

/-!
# `Iamf.Proofs.Parameter.Block`: blocks are read back as they were written

A parameter block says only what its definition leaves open. `Conforms` says
which values a block can stand for: whatever it does not carry is what the
definition says. Such values can be written, and a reader with the same
definition in its registry makes them out of the bytes.

* `Conforms.exists_encodeBlock`: the bytes of a block give its values back.
-/

set_option autoImplicit false

namespace Iamf

open Read (Consumes Exhausts Takes Chain)

namespace Parameter

/-- A timeline whose subblocks are as many and as long as a constant duration
implies. -/
def IsRegular (parameter : Parameter) : Prop :=
  parameter.constantDuration ≠ 0 →
    (impliedSubblocks parameter.duration parameter.constantDuration).toNat
        = parameter.subblocks.length
      ∧ ∀ subblock ∈ parameter.subblocks, subblock.duration = parameter.constantDuration

/-- Values that a block of a definition can stand for, with recon gain on the
given layers only. -/
structure Conforms (definition : Parameter) (carrying : List Nat) (values : Parameter) :
    Prop where
  id : values.id = definition.id
  kind : values.kind = definition.kind
  rate : values.rate = definition.rate
  selfTimed : values.selfTimed = definition.selfTimed
  element : values.element = definition.element
  copied : definition.selfTimed = true → values.duration = definition.duration
    ∧ values.constantDuration = definition.constantDuration
    ∧ values.subblocks.map (·.duration) = definition.subblocks.map (·.duration)
  regular : definition.selfTimed = false → values.IsRegular
  bounded : values.subblocks.length ≤ maxSubblocks
  fits : ∀ subblock ∈ values.subblocks, subblock.value.Fits definition.kind carrying

/-! ### Which layers carry recon gain -/

theorem sublist_reconGainLayers (element : AudioElement) :
    element.reconGainLayers.Sublist (List.range maxLayers) := by
  have hindex : (element.layers.zipIdx.take maxLayers).map (·.2)
      = (List.range element.layers.length).take maxLayers := by
    rw [List.map_take, List.zipIdx_map_snd, List.range_eq_range']
  refine (List.filter_sublist.map _).trans ?_
  rw [hindex, List.take_range]
  exact List.range_sublist.2 (Nat.min_le_left _ _)

/-- The carrying layers are among those of a table, in order. -/
theorem sublist_carryingLayers {definition : Parameter} {registry : Registry}
    {carrying : List Nat} (h : definition.carryingLayers registry = .ok carrying) :
    carrying.Sublist (List.range maxLayers) := by
  rw [carryingLayers] at h
  split at h
  · rw [Registry.reconGainLayers] at h
    cases hlink : definition.element with
    | none => exact absurd h (by simp [hlink, outcome_throw_eq_ok])
    | some id =>
      cases helement : registry.audioElement? id with
      | none => exact absurd h (by simp [hlink, helement, outcome_throw_eq_ok])
      | some element =>
        simp only [hlink, helement, outcome_pure_eq_ok] at h
        exact h ▸ sublist_reconGainLayers element
  · rw [outcome_pure_eq_ok] at h
    exact h ▸ List.nil_sublist _

/-! ### Values take space -/

/-- Only recon gain that no layer carries takes no bytes. -/
theorem one_le_length_encode {kind : ParameterKind} {carrying : List Nat}
    {value : SubblockValue} (h : value.Fits kind carrying)
    (hcarrying : kind ≠ .reconGain ∨ carrying ≠ []) :
    1 ≤ (value.encode carrying).length := by
  cases kind <;> cases value
  case mixGain.mixGain animation =>
    have hshape : ∀ shape : UInt32, 1 ≤ (Leb128.encode shape).length := by
      intro shape
      rw [Leb128.length_encode]
      exact (Leb128.size_le shape).1
    cases animation <;> simp only [SubblockValue.encode, Animation.encode, List.append_assoc]
    all_goals
      rw [List.length_append]
      exact Nat.le_add_right_of_le (hshape _)
  case demixing.demixing => exact Nat.le_refl 1
  case reconGain.reconGain table =>
    obtain ⟨layer, others, rfl⟩ :=
      List.exists_cons_of_ne_nil (hcarrying.resolve_left (fun hne => hne rfl))
    simp only [SubblockValue.encode, GainTable.encode, GainRow.encode, List.flatMap_cons,
      List.length_append, Leb128.length_encode]
    have := (Leb128.size_le (UInt32.ofNat (table.row layer).flags)).1
    omega
  all_goals exact h.elim

variable {definition values : Parameter} {carrying : List Nat}

/-- The subblocks of a block are at least as many bytes. -/
theorem Conforms.length_le (h : Conforms definition carrying values)
    (hcarrying : definition.kind ≠ .reconGain ∨ carrying ≠ []) :
    values.subblocks.length
      ≤ (values.subblocks.flatMap (encodeBlockSubblock values carrying)).length := by
  have hpieces : ∀ subblocks : List Subblock,
      (∀ subblock ∈ subblocks, subblock.value.Fits definition.kind carrying) →
      subblocks.length ≤ (subblocks.flatMap (encodeBlockSubblock values carrying)).length := by
    intro subblocks hfits
    induction subblocks with
    | nil => exact Nat.le_refl 0
    | cons subblock subblocks ih =>
      have hothers := ih fun other hother => hfits other (List.mem_cons_of_mem _ hother)
      have hbyte := one_le_length_encode (hfits subblock List.mem_cons_self) hcarrying
      rw [List.flatMap_cons, List.length_append, List.length_cons, encodeBlockSubblock,
        List.length_append]
      omega
  exact hpieces _ h.fits

/-! ### The timeline of a block -/

/-- The definition's own timeline is regular, if it has one. -/
def IsTimed (definition : Parameter) : Prop :=
  definition.selfTimed = true → definition.IsRegular

theorem WellTimed.isTimed {frameSize : UInt32} (h : definition.WellTimed frameSize) :
    definition.IsTimed :=
  h.constant

/-- The timeline that a block brings along is read back. -/
theorem consumes_blockTimeline (hself : definition.selfTimed = false)
    (hcount : values.constantDuration ≠ 0 →
      (impliedSubblocks values.duration values.constantDuration).toNat
        = values.subblocks.length) :
    Consumes (readBlockTimeline definition) values.encodeTimeline
      { duration := values.duration, constantDuration := values.constantDuration,
        count := UInt32.ofNat values.subblocks.length } := by
  rw [readBlockTimeline, if_neg (by simp [hself]), encodeTimeline, List.append_assoc]
  refine (Leb128.consumes_encode _).bind ((Leb128.consumes_encode _).bind ?_)
  by_cases hzero : values.constantDuration = 0
  · rw [if_pos hzero, if_pos hzero]
    exact (Leb128.consumes_encode _).bind_pure fun count =>
      ({ duration := values.duration, constantDuration := values.constantDuration,
         count } : Timeline)
  · rw [if_neg hzero, if_neg hzero, ← hcount hzero, UInt32.ofNat_toNat]
    exact Takes.bind_of_nil (Takes.pure _) (Takes.pure _)

/-- The timeline of the values is read back, from the block or the definition. -/
theorem Conforms.consumes_timeline (h : Conforms definition carrying values)
    (htimed : definition.IsTimed) :
    Consumes (readBlockTimeline definition)
      (if values.selfTimed then [] else values.encodeTimeline)
      { duration := values.duration, constantDuration := values.constantDuration,
        count := UInt32.ofNat values.subblocks.length } := by
  rw [h.selfTimed]
  cases hself : definition.selfTimed with
  | true =>
    obtain ⟨hduration, hconstant, hdurations⟩ := h.copied hself
    have hlength : values.subblocks.length = definition.subblocks.length := by
      simpa using congrArg List.length hdurations
    -- Without subblocks their number is implied, and a regular definition implies zero.
    have hcount : (if UInt32.ofNat definition.subblocks.length = 0
          ∧ definition.constantDuration ≠ 0 then
          impliedSubblocks definition.duration definition.constantDuration
        else UInt32.ofNat definition.subblocks.length)
        = UInt32.ofNat definition.subblocks.length := by
      split
      · rename_i hempty
        rw [← (htimed hself hempty.2).1, UInt32.ofNat_toNat]
      · rfl
    simp only [readBlockTimeline, hself, if_true, hduration, hconstant, hlength, hcount]
    exact Takes.pure _
  | false =>
    rw [if_neg (by simp)]
    exact consumes_blockTimeline hself fun hne => (h.regular hself hne).1

/-! ### The subblocks of a block -/

/-- Whether the duration of a subblock can be told where the definition has
these subblocks to come. -/
def HasDuration (values : Parameter) (defined : Option Subblock) (subblock : Subblock) :
    Prop :=
  if values.constantDuration = 0 then
    values.selfTimed = true → (defined.map (·.duration)).getD 0 = subblock.duration
  else subblock.duration = values.constantDuration

theorem consumes_blockSubblock (hsub : carrying.Sublist (List.range maxLayers))
    (h : Conforms definition carrying values) {subblock : Subblock} {defined : List Subblock}
    (hfits : subblock.value.Fits definition.kind carrying)
    (hduration : values.HasDuration defined.head? subblock) :
    Consumes (readBlockSubblock definition values.constantDuration carrying defined)
      (encodeBlockSubblock values carrying subblock) (subblock, defined.tail) := by
  have hread : Consumes
      (readBlockDuration definition.selfTimed values.constantDuration defined.head?)
      (if values.selfTimed = false ∧ values.constantDuration = 0 then
        Leb128.encode subblock.duration else []) subblock.duration := by
    rw [readBlockDuration, h.selfTimed]
    rw [HasDuration, h.selfTimed] at hduration
    by_cases hzero : values.constantDuration = 0
    · rw [if_pos hzero] at hduration
      cases hself : definition.selfTimed with
      | false =>
        rw [if_pos ⟨rfl, hzero⟩, if_pos ⟨rfl, hzero⟩]
        exact Leb128.consumes_encode _
      | true =>
        simp only [hzero, ne_eq, not_true_eq_false, Bool.true_eq_false, false_and, if_false,
          hduration hself]
        exact Takes.pure _
    · rw [if_neg hzero] at hduration
      simp only [hzero, ne_eq, not_false_eq_true, and_false, if_true, if_false, hduration]
      exact Takes.pure _
  have hvalue := (SubblockValue.consumes_encode hsub hfits).bind_pure fun value =>
    (({ duration := subblock.duration, value } : Subblock), defined.tail)
  exact hread.bind hvalue

/-- The subblocks are read one after the other, along those of the definition. -/
theorem chain_blockSubblocks (hsub : carrying.Sublist (List.range maxLayers))
    (h : Conforms definition carrying values) {subblocks : List Subblock} :
    ∀ {defined : List Subblock},
      (∀ subblock ∈ subblocks, subblock.value.Fits definition.kind carrying) →
      (∀ place (hplace : place < subblocks.length),
        values.HasDuration defined[place]? subblocks[place]) →
      ∃ after, Chain (readBlockSubblock definition values.constantDuration carrying) defined
        subblocks (subblocks.map (encodeBlockSubblock values carrying)) after := by
  induction subblocks with
  | nil => exact fun _ _ => ⟨_, .nil _⟩
  | cons subblock subblocks ih =>
    intro defined hfits hdurations
    have hnow : values.HasDuration defined.head? subblock :=
      List.head?_eq_getElem? ▸ hdurations 0 (by simp)
    have hfirst := consumes_blockSubblock hsub h (hfits subblock List.mem_cons_self) hnow
    have hlater : ∀ place (hplace : place < subblocks.length),
        values.HasDuration defined.tail[place]? subblocks[place] := fun place hplace =>
      List.getElem?_tail ▸ hdurations (place + 1) (Nat.succ_lt_succ hplace)
    obtain ⟨after, hothers⟩ :=
      ih (fun other hother => hfits other (List.mem_cons_of_mem _ hother)) hlater
    exact ⟨after, .cons hfirst hothers⟩

/-- Every subblock has the duration that values or definition say. -/
theorem Conforms.hasDuration (h : Conforms definition carrying values)
    (htimed : definition.IsTimed) (place : Nat) (hplace : place < values.subblocks.length) :
    values.HasDuration definition.subblocks[place]? values.subblocks[place] := by
  have hmem := List.getElem_mem hplace
  rw [HasDuration]
  cases hself : definition.selfTimed with
  | false =>
    split
    · intro htrue
      rw [h.selfTimed, hself] at htrue
      cases htrue
    · rename_i hne
      exact (h.regular hself hne).2 _ hmem
  | true =>
    obtain ⟨-, hconstant, hdurations⟩ := h.copied hself
    -- The values have copied the durations of the definition, place by place.
    have hcopied : definition.subblocks[place]?.map (·.duration)
        = some values.subblocks[place].duration := by
      rw [← List.getElem?_map, ← hdurations, List.getElem?_map, List.getElem?_eq_getElem hplace]
      rfl
    split
    · intro _
      rw [hcopied]
      rfl
    · rename_i hne
      obtain ⟨defined, hdefined, heq⟩ := Option.map_eq_some_iff.1 hcopied
      rw [← heq, hconstant]
      exact (htimed hself (hconstant ▸ hne)).2 defined (List.mem_of_getElem? hdefined)

/-! ### Blocks -/

/-- The bytes of a block behind the id. -/
def encodeBlockTail (values : Parameter) (carrying : List Nat) : Bytes :=
  (if values.selfTimed then [] else values.encodeTimeline)
    ++ values.subblocks.flatMap (encodeBlockSubblock values carrying)

theorem Conforms.checkTimeline_eq (h : Conforms definition carrying values)
    (hself : definition.selfTimed = false) : values.checkTimeline = .ok () :=
  checkTimeline_eq_ok.2 ⟨fun hne => (h.regular hself hne).1,
    fun subblock hmem => (h.fits subblock hmem).kind_eq.trans h.kind.symm⟩

/-- Values that conform can be written. -/
theorem Conforms.encodeBlock_eq (h : Conforms definition carrying values)
    {registry : Registry} (hcarrying : definition.carryingLayers registry = .ok carrying) :
    values.encodeBlock definition registry
      = .ok (Leb128.encode values.id ++ values.encodeBlockTail carrying) := by
  have hmatch : values.kind = definition.kind ∧ values.selfTimed = definition.selfTimed :=
    ⟨h.kind, h.selfTimed⟩
  rw [encodeBlock, ensure_of hmatch, encodeBlockTail, ← List.append_assoc]
  cases hself : definition.selfTimed with
  | true =>
    have hlength : values.subblocks.length = definition.subblocks.length := by
      simpa using congrArg List.length (h.copied hself).2.2
    simp only [h.selfTimed, hself, if_true, ensure_of hlength, hcarrying]
    rfl
  | false =>
    simp only [h.selfTimed, hself, Bool.false_eq_true, if_false, h.checkTimeline_eq hself,
      hcarrying]
    rfl

/-- What is behind the id of a block that was written. -/
theorem Conforms.exhausts_blockTail (h : Conforms definition carrying values)
    (htimed : definition.IsTimed) (mode : ReadMode) {registry : Registry}
    (hcarrying : definition.carryingLayers registry = .ok carrying) :
    Exhausts (readBlockOf mode registry definition) (values.encodeBlockTail carrying)
      values := by
  have hcount := ofNat_length_toNat h.bounded
  have hsub := sublist_carryingLayers hcarrying
  obtain ⟨after, hchain⟩ := chain_blockSubblocks hsub h h.fits (h.hasDuration htimed)
  -- All other fields of the values are those of the definition.
  have hvalues : ({ definition with
      duration := values.duration
      constantDuration := values.constantDuration
      subblocks := values.subblocks } : Parameter) = values := by
    obtain ⟨hid, hkind, hrate, hself, helement, -⟩ := h
    rw [← hid, ← hkind, ← hrate, ← hself, ← helement]
  have hsubblocks : Exhausts (Read.timesWith values.subblocks.length definition.subblocks
        (readBlockSubblock definition values.constantDuration carrying))
      (values.subblocks.flatMap (encodeBlockSubblock values carrying))
      (values.subblocks, after) := by
    rw [List.flatMap_def]
    exact (Consumes.timesWith hchain).weaken fun _ _ => trivial
  rw [readBlockOf, encodeBlockTail]
  refine (h.consumes_timeline htimed).bind ?_
  refine Takes.ensure_bind (by rw [hcount]; exact h.bounded) ?_
  refine Takes.bind_of_nil (Takes.lift hcarrying) ?_
  rw [hcount]
  split
  · rename_i hspace
    refine Takes.checkCount_bind (h.length_le hspace) (hsubblocks.bind_nil ?_)
    refine Exhausts.finish_bind ?_
    rw [hvalues]
    exact Takes.pure _
  · refine hsubblocks.bind_nil (Exhausts.finish_bind ?_)
    rw [hvalues]
    exact Takes.pure _

/-- Values that conform to a definition can be written, and wherever the
definition and the layers that carry recon gain are the same the bytes give them
back. -/
theorem Conforms.exists_encodeBlock (h : Conforms definition carrying values)
    (htimed : definition.IsTimed) {registry : Registry}
    (hcarrying : definition.carryingLayers registry = .ok carrying) :
    ∃ body, values.encodeBlock definition registry = .ok body
      ∧ ∀ (mode : ReadMode) (other : Registry), other.parameter? values.id = some definition →
        definition.carryingLayers other = .ok carrying →
        parseBlock mode other body = .ok (some values) := by
  refine ⟨_, h.encodeBlock_eq hcarrying, fun mode other hfind hother => ?_⟩
  have hread : Exhausts (readBlock mode other)
      (Leb128.encode values.id ++ values.encodeBlockTail carrying) (some values) := by
    refine (Leb128.consumes_encode values.id).bind ?_
    simp only [hfind]
    exact (h.exhausts_blockTail htimed mode hother).map some
  exact hread.parse _

end Parameter

end Iamf
