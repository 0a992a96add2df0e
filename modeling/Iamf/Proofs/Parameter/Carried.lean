import Iamf.Proofs.Parameter.Block

/-!
# `Iamf.Proofs.Parameter.Carried`: what a block keeps of the values it is made from

Values that are handed in for writing need not be ones that a block can stand
for. A gain may lie between two Q7.8 numbers, a down-mixing mode may have more
than three bits, a table may have gains on layers that carry none, and the
fields that a block leaves to the definition may contradict it. The bytes have
no room for any of that. So they are also the bytes of the values that are left,
and these do conform to the definition.

* `conforms_carried`: what is left can be read back.
* `encodeBlock_carried`: a block carries no more than `carried` keeps.
-/

set_option autoImplicit false

namespace Iamf

/-! ### Gains -/

namespace Animation

/-- The course with the nearest Q7.8 number for every gain. -/
def nearest : Animation → Animation
  | step start => step start.nearest
  | linear start finish => linear start.nearest finish.nearest
  | bezier start finish control controlTime =>
    bezier start.nearest finish.nearest control.nearest controlTime

theorem isQ8_nearest (animation : Animation) : animation.nearest.IsQ8 := by
  cases animation with
  | step => exact Ratio.isQ8_nearest _
  | linear => exact ⟨Ratio.isQ8_nearest _, Ratio.isQ8_nearest _⟩
  | bezier => exact ⟨Ratio.isQ8_nearest _, Ratio.isQ8_nearest _, Ratio.isQ8_nearest _⟩

@[simp] theorem encode_nearest (animation : Animation) :
    animation.nearest.encode = animation.encode := by
  cases animation <;> simp only [nearest, encode, Ratio.encode_nearest]

end Animation

/-! ### Values -/

/-- Only three bits of a mode are written. -/
theorem encodeDemixingMode_mod (mode : UInt8) :
    encodeDemixingMode (mode % 8) = encodeDemixingMode mode := by
  rw [encodeDemixingMode, encodeDemixingMode, List.singleton_inj, ← UInt8.toNat_inj]
  have hmode := mode.toNat_lt
  have hbits : (5 : UInt8).toNat % 8 = 5 := rfl
  simp only [UInt8.toNat_shiftLeft, UInt8.toNat_mod, hbits, Nat.shiftLeft_eq]
  show mode.toNat % 8 * 2 ^ 5 % 2 ^ 8 = mode.toNat * 2 ^ 5 % 2 ^ 8
  omega

namespace GainTable

/-- The table without what is on other layers. -/
def within (carrying : List Nat) (table : GainTable) : GainTable :=
  Vector.ofFn fun layer => if layer.val ∈ carrying then table.row layer else .zero

theorem row_within (carrying : List Nat) (table : GainTable) {layer : Nat}
    (h : layer < maxLayers) :
    (table.within carrying).row layer = if layer ∈ carrying then table.row layer else .zero := by
  rw [row, dif_pos h, within, Vector.getElem_ofFn]

theorem isZeroOutside_within (carrying : List Nat) (table : GainTable) :
    (table.within carrying).IsZeroOutside carrying := by
  intro layer hlayer hother
  rw [row_within carrying table hlayer, if_neg hother]

theorem encode_within {carrying : List Nat} (h : carrying.Sublist (List.range maxLayers))
    (table : GainTable) : (table.within carrying).encode carrying = table.encode carrying := by
  rw [encode, encode, List.flatMap_def, List.flatMap_def]
  congr 1
  refine List.map_congr_left fun layer hmem => ?_
  rw [row_within carrying table (List.mem_range.1 (h.subset hmem)), if_pos hmem]

end GainTable

namespace SubblockValue

/-- What a block has room for, with recon gain on the given layers. -/
def carried (carrying : List Nat) : SubblockValue → SubblockValue
  | mixGain animation => mixGain animation.nearest
  | demixing mode => demixing (mode % 8)
  | reconGain table => reconGain (table.within carrying)

theorem fits_carried (carrying : List Nat) (value : SubblockValue) :
    (value.carried carrying).Fits value.kind carrying := by
  cases value with
  | mixGain animation => exact animation.isQ8_nearest
  | demixing mode =>
    show (mode % 8).toNat < 8
    rw [UInt8.toNat_mod]
    exact Nat.mod_lt _ (by decide)
  | reconGain table => exact table.isZeroOutside_within carrying

theorem encode_carried {carrying : List Nat} (h : carrying.Sublist (List.range maxLayers))
    (value : SubblockValue) : (value.carried carrying).encode carrying = value.encode carrying := by
  cases value with
  | mixGain animation => exact animation.encode_nearest
  | demixing mode => exact encodeDemixingMode_mod mode
  | reconGain table => exact table.encode_within h

end SubblockValue

/-! ### Blocks -/

namespace Parameter

variable {values definition : Parameter} {registry : Registry} {carrying : List Nat}

/-- A subblock as a block carries it, where its duration is this. -/
def carriedSubblock (carrying : List Nat) (duration : UInt32) (subblock : Subblock) : Subblock :=
  { duration, value := subblock.value.carried carrying }

/-- The subblocks that a block keeps. Those of a self timed parameter last as long
as the definition says, others as long as the block says. -/
def carriedSubblocks (values definition : Parameter) (carrying : List Nat) : List Subblock :=
  if definition.selfTimed then
    List.zipWith (fun defined => carriedSubblock carrying defined.duration)
      definition.subblocks values.subblocks
  else values.subblocks.map fun subblock =>
    carriedSubblock carrying
      (if values.constantDuration = 0 then subblock.duration else values.constantDuration) subblock

/-- The values that a block keeps; all else is as the definition says. -/
def carried (values definition : Parameter) (carrying : List Nat) : Parameter :=
  { definition with
    duration := if definition.selfTimed then definition.duration else values.duration
    constantDuration :=
      if definition.selfTimed then definition.constantDuration else values.constantDuration
    subblocks := values.carriedSubblocks definition carrying }

/-- Values that are written and can be read back: the subblocks of a self timed
parameter are of its kind, and others are not too many. -/
structure IsReadable (values : Parameter) : Prop where
  kinds : values.selfTimed = true → ∀ subblock ∈ values.subblocks, subblock.kind = values.kind
  bounded : values.selfTimed = false → values.subblocks.length ≤ maxSubblocks

/-- What has been tested of values that were written, and what their block is. -/
theorem encodeBlock_eq_ok {body : Bytes} (h : values.encodeBlock definition registry = .ok body) :
    values.kind = definition.kind ∧ values.selfTimed = definition.selfTimed
      ∧ (definition.selfTimed = true → values.subblocks.length = definition.subblocks.length)
      ∧ (definition.selfTimed = false → values.checkTimeline = .ok ())
      ∧ ∃ carrying, definition.carryingLayers registry = .ok carrying
        ∧ body = Leb128.encode values.id ++ values.encodeBlockTail carrying := by
  rw [encodeBlock, outcome_bind_eq_ok] at h
  obtain ⟨_, hmatch, h⟩ := h
  obtain ⟨hkind, hself⟩ := outcome_ensure_eq_ok.1 hmatch
  split at h
  · rename_i htrue
    simp only [outcome_bind_eq_ok, outcome_ensure_eq_ok, outcome_pure_eq_ok] at h
    obtain ⟨_, hcount, carrying, hcarrying, rfl⟩ := h
    refine ⟨hkind, hself, fun _ => hcount, fun hfalse => ?_, carrying, hcarrying, ?_⟩
    · exact absurd (hself.symm.trans htrue) (by simp [hfalse])
    · rw [encodeBlockTail, if_pos htrue, List.append_assoc]
  · rename_i hfalse
    simp only [outcome_bind_eq_ok, outcome_pure_eq_ok] at h
    obtain ⟨_, hchecked, carrying, hcarrying, rfl⟩ := h
    refine ⟨hkind, hself, fun htrue => absurd (hself.trans htrue) hfalse, fun _ => hchecked,
      carrying, hcarrying, ?_⟩
    rw [encodeBlockTail, if_neg hfalse, List.append_assoc]

/-- The values that are kept are what is carried of those that were given. -/
theorem map_value_carriedSubblocks
    (hcount : definition.selfTimed = true →
      values.subblocks.length = definition.subblocks.length) :
    (values.carriedSubblocks definition carrying).map (·.value)
      = values.subblocks.map fun subblock => subblock.value.carried carrying := by
  rw [carriedSubblocks]
  split
  · rename_i hself
    rw [List.map_zipWith, ← List.map_uncurry_zip_eq_zipWith]
    show (definition.subblocks.zip values.subblocks).map
      ((fun subblock => subblock.value.carried carrying) ∘ Prod.snd) = _
    rw [← List.map_map, List.map_snd_zip (Nat.le_of_eq (hcount hself))]
  · rw [List.map_map]
    rfl

/-- In a self timed parameter the durations that are kept are the definition's. -/
theorem map_duration_carriedSubblocks (hself : definition.selfTimed = true)
    (hcount : values.subblocks.length = definition.subblocks.length) :
    (values.carriedSubblocks definition carrying).map (·.duration)
      = definition.subblocks.map (·.duration) := by
  rw [carriedSubblocks, if_pos hself, List.map_zipWith, ← List.map_uncurry_zip_eq_zipWith]
  show (definition.subblocks.zip values.subblocks).map ((·.duration) ∘ Prod.fst) = _
  rw [← List.map_map, List.map_fst_zip (Nat.le_of_eq hcount.symm)]

theorem length_carriedSubblocks
    (hcount : definition.selfTimed = true →
      values.subblocks.length = definition.subblocks.length) :
    (values.carriedSubblocks definition carrying).length = values.subblocks.length := by
  have hvalues : (values.carriedSubblocks definition carrying).map (·.value)
      = values.subblocks.map fun subblock => subblock.value.carried carrying :=
    map_value_carriedSubblocks hcount
  simpa using congrArg List.length hvalues

/-- What is left of values that passed all tests conforms to the definition. -/
theorem conforms_carried {body : Bytes} (h : values.encodeBlock definition registry = .ok body)
    (hbounded : definition.selfTimed = true → definition.subblocks.length ≤ maxSubblocks)
    (hreadable : values.IsReadable) :
    Conforms definition carrying (values.carried definition carrying) := by
  obtain ⟨hkind, hself, hcount, hchecked, -⟩ := encodeBlock_eq_ok h
  have hlength : (values.carriedSubblocks definition carrying).length = values.subblocks.length :=
    length_carriedSubblocks hcount
  -- The test of a timeline looks at the kinds, but that of a self timed block does not.
  have hkinds : ∀ subblock ∈ values.subblocks, subblock.value.kind = definition.kind := by
    intro subblock hmem
    rw [← hkind]
    cases hcase : definition.selfTimed with
    | true => exact hreadable.kinds (hself.trans hcase) subblock hmem
    | false => exact (checkTimeline_eq_ok.1 (hchecked hcase)).2 subblock hmem
  refine ⟨rfl, rfl, rfl, rfl, rfl, fun htrue => ?copied, fun hfalse hne => ?regular, ?bounded,
    fun subblock hmem => ?fits⟩
  case copied =>
    refine ⟨if_pos htrue, if_pos htrue, ?_⟩
    exact map_duration_carriedSubblocks htrue (hcount htrue)
  case regular =>
    simp only [carried, hfalse, Bool.false_eq_true, if_false] at hne ⊢
    refine ⟨?_, fun subblock hmem => ?_⟩
    · rw [hlength]
      exact (checkTimeline_eq_ok.1 (hchecked hfalse)).1 hne
    · simp only [carriedSubblocks, hfalse, Bool.false_eq_true, if_false, if_neg hne,
        List.mem_map] at hmem
      obtain ⟨given, -, rfl⟩ := hmem
      rfl
  case bounded =>
    show (values.carriedSubblocks definition carrying).length ≤ maxSubblocks
    rw [hlength]
    cases hcase : definition.selfTimed with
    | true => exact hcount hcase ▸ hbounded hcase
    | false => exact hreadable.bounded (hself.trans hcase)
  case fits =>
    have hvalue := List.mem_map_of_mem (f := (·.value)) hmem
    rw [show (values.carried definition carrying).subblocks
      = values.carriedSubblocks definition carrying from rfl,
      map_value_carriedSubblocks hcount, List.mem_map] at hvalue
    obtain ⟨given, hgiven, hvalue⟩ := hvalue
    rw [← hvalue, ← hkinds given hgiven]
    exact given.value.fits_carried carrying

/-- The block of what is left is the block of the values. -/
theorem encodeBlockTail_carried (hsub : carrying.Sublist (List.range maxLayers))
    (hself : values.selfTimed = definition.selfTimed)
    (hcount : definition.selfTimed = true →
      values.subblocks.length = definition.subblocks.length) :
    (values.carried definition carrying).encodeBlockTail carrying
      = values.encodeBlockTail carrying := by
  rw [encodeBlockTail, encodeBlockTail, hself]
  show (if definition.selfTimed then _ else _) ++ _ = _
  cases hcase : definition.selfTimed with
  | true =>
    -- No durations are written, so nothing but the values counts.
    have hpieces : ∀ {parameter : Parameter} {subblocks : List Subblock},
        parameter.selfTimed = true → subblocks.flatMap (encodeBlockSubblock parameter carrying)
          = (subblocks.map (·.value)).flatMap (·.encode carrying) := by
      intro parameter subblocks htrue
      rw [List.flatMap_map]
      congr 1
      funext subblock
      rw [encodeBlockSubblock, if_neg (by simp [htrue]), List.nil_append]
    have hkept : (values.carried definition carrying).selfTimed = true := hcase
    rw [hpieces hkept, hpieces (hself.trans hcase)]
    show _ ++ ((values.carriedSubblocks definition carrying).map (·.value)).flatMap _ = _
    rw [map_value_carriedSubblocks hcount, List.flatMap_map, List.flatMap_map]
    simp only [SubblockValue.encode_carried hsub, if_true]
  | false =>
    have hlength : (values.carriedSubblocks definition carrying).length
        = values.subblocks.length := length_carriedSubblocks hcount
    have htimeline : (values.carried definition carrying).encodeTimeline
        = values.encodeTimeline := by
      simp only [encodeTimeline, carried, hcase, Bool.false_eq_true, if_false, hlength]
    have hpieces : ∀ subblock : Subblock,
        encodeBlockSubblock (values.carried definition carrying) carrying
            (carriedSubblock carrying (if values.constantDuration = 0 then subblock.duration
              else values.constantDuration) subblock)
          = encodeBlockSubblock values carrying subblock := by
      intro subblock
      simp only [encodeBlockSubblock, carriedSubblock, carried, hself, hcase, Bool.false_eq_true,
        if_false, true_and, SubblockValue.encode_carried hsub]
      split <;> rfl
    simp only [Bool.false_eq_true, if_false, htimeline]
    congr 1
    show (values.carriedSubblocks definition carrying).flatMap _ = _
    rw [carriedSubblocks, if_neg (by simp [hcase]), List.flatMap_map]
    simp only [hpieces]

/-- A block that was written is that of what it keeps of the values, and that conforms. -/
theorem encodeBlock_carried {body : Bytes}
    (h : values.encodeBlock definition registry = .ok body) (hid : values.id = definition.id)
    (hbounded : definition.selfTimed = true → definition.subblocks.length ≤ maxSubblocks)
    (hreadable : values.IsReadable) :
    ∃ carrying, definition.carryingLayers registry = .ok carrying
      ∧ Conforms definition carrying (values.carried definition carrying)
      ∧ (values.carried definition carrying).encodeBlock definition registry = .ok body := by
  obtain ⟨-, hself, hcount, -, carrying, hcarrying, rfl⟩ := encodeBlock_eq_ok h
  have hconforms : Conforms definition carrying (values.carried definition carrying) :=
    conforms_carried h hbounded hreadable
  refine ⟨carrying, hcarrying, hconforms, ?_⟩
  rw [hconforms.encodeBlock_eq hcarrying, hconforms.id, ← hid,
    encodeBlockTail_carried (sublist_carryingLayers hcarrying) hself hcount]

/-- A block with more subblocks than a parameter may have is refused, although it
could be written. -/
theorem parseBlock_of_many (hself : definition.selfTimed = false)
    (hvalues : values.selfTimed = false) (hchecked : values.checkTimeline = .ok ())
    (hmany : maxSubblocks < values.subblocks.length)
    (hword : values.subblocks.length < UInt32.size) (mode : ReadMode) {other : Registry}
    (hfind : other.parameter? values.id = some definition) (carrying : List Nat) :
    parseBlock mode other (Leb128.encode values.id ++ values.encodeBlockTail carrying)
      = .error (.outOfRange "num_subblocks" values.subblocks.length) := by
  have hcount : (UInt32.ofNat values.subblocks.length).toNat = values.subblocks.length :=
    UInt32.toNat_ofNat_of_lt' hword
  have htimeline := consumes_blockTimeline hself (checkTimeline_eq_ok.1 hchecked).1
  have hread : readBlock mode other (Reader.ofBytes "parameter block"
        (Leb128.encode values.id ++ values.encodeBlockTail carrying))
      = .error (.outOfRange "num_subblocks" values.subblocks.length) := by
    rw [readBlock, Reader.ofBytes, Read.Takes.run_bind (Leb128.consumes_encode values.id)]
    simp only [hfind, encodeBlockTail, hvalues, Bool.false_eq_true, if_false]
    show Except.map _ (readBlockOf mode other definition _) = _
    rw [readBlockOf, Read.Takes.run_bind htimeline]
    -- The number of subblocks is looked at before anything else is read.
    simp only [checkSubblockCount, hcount, ensure, if_neg (Nat.not_le.2 hmany)]
    rfl
  rw [parseBlock, Read.parse, hread]

end Parameter

end Iamf
