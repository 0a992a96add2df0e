import Iamf.Parameter.Block
import Iamf.Proofs.Checked.Refinement
import Iamf.Proofs.Parameter.Definition

/-!
# `Iamf.Proofs.Checked.Parameter`: parameter definitions and parameter blocks

The readers of parameters with checked arithmetic. Durations are divided, the flags of
recon gains are shifted and tested bit by bit, and a row of recon gains is put into its
table by the index of its layer.

* `refines_readGainRow`, `refines_readGainTable`: recon gains.
* `refines_readDefinition`: a definition inside an element or a mix presentation.
* `parseParameterBlock_eq`: what comes of a whole parameter block.
-/

set_option autoImplicit false

namespace Iamf.Checked

/-! ### Gains -/

/-- Reads a Q7.8 number. -/
def readRatio : Parse Ratio :=
  Ratio.ofQ8 <$> int16

theorem refines_readRatio : Refines readRatio Ratio.read :=
  refines_int16.map fun _ _ _ h => h

/-- Reads the course of a gain. -/
def readAnimation : Parse Animation := do
  let shape ← number
  require (shape ≤ 2) (.outOfRange "animation_type" shape.toNat)
  let start ← readRatio
  if shape = 0 then return .step start
  else do
    let finish ← readRatio
    if shape = 1 then return .linear start finish
    else do
      let control ← readRatio
      let controlTime ← uint8
      return .bezier start finish control controlTime

theorem refines_readAnimation : Refines readAnimation Animation.read := by
  refine refines_number.bind fun shape => RefinesFrom.require Iff.rfl fun _ =>
    refines_readRatio.bind fun start => ?_
  split
  · exact refines_pure _
  refine refines_readRatio.bind fun finish => ?_
  split
  · exact refines_pure _
  · exact refines_readRatio.bind fun _ => refines_uint8.bind fun _ => refines_pure _

/-- Reads a down-mixing mode. -/
def readDemixingMode : Parse UInt8 := do
  let byte ← uint8
  let mode ← shiftRight 8 byte.toNat 5
  return UInt8.ofNat mode

theorem refines_readDemixingMode : Refines readDemixingMode Iamf.readDemixingMode := by
  refine refines_uint8.bind fun byte => ?_
  rw [shiftRight_of (by decide), pure_bind,
    ofNat_shiftRight byte 5 5 rfl (by decide)]
  exact refines_pure _

/-! ### Rows of recon gains -/

/-- Reads the gains of the flagged ones among some slots; the others are zero. -/
def readGains (flags : Nat) : List Nat → Parse (List UInt8)
  | [] => return []
  | slot :: slots => do
    let place ← shiftLeft 32 1 slot
    let gain ← if flags &&& place ≠ 0 then uint8 else pure 0
    let gains ← readGains flags slots
    return gain :: gains

/-- Reads a row. The flags are moved together before the slots are counted off. -/
def readGainRow : Parse GainRow := do
  let raw ← number
  let count := if raw.toNat &&& 0x80 ≠ 0 then 12 else 7
  let upper ← shiftRight 32 (raw.toNat &&& 0xFF00) 1
  let gains ← readGains (raw.toNat &&& 0x7F ||| upper) (List.range count)
  return GainRow.ofList gains

/-- The flags of the slots, moved together. -/
theorem testBit_flags (raw : UInt32) {slot : Nat} (hslot : slot < 12) :
    (raw.toNat &&& 0x7F ||| (raw.toNat &&& 0xFF00) >>> 1).testBit slot
      = if slot < 7 then raw.toNat.testBit slot else raw.toNat.testBit (slot + 1) := by
  have hmasks : ∀ slot < 12, (0x7F : Nat).testBit slot = decide (slot < 7)
      ∧ (0xFF00 : Nat).testBit (1 + slot) = decide (7 ≤ slot) := by decide
  obtain ⟨hlower, hupper⟩ := hmasks slot hslot
  rw [Nat.testBit_or, Nat.testBit_and, Nat.testBit_shiftRight, Nat.testBit_and, hlower, hupper,
    Nat.add_comm 1]
  split
  · rename_i hlt
    simp [hlt]
  · rename_i hge
    simp [hge]
    omega

theorem and_shiftLeft_ne_zero (flags slot : Nat) :
    flags &&& 1 <<< slot ≠ 0 ↔ flags.testBit slot = true := by
  rw [Nat.one_shiftLeft, Nat.and_two_pow]
  cases flags.testBit slot <;> simp

/-- Slots are flagged alike, whichever way the flags are kept. -/
theorem refines_readGains {raw : UInt32} {flags : Nat} {slots : List Nat}
    (hslots : ∀ slot ∈ slots, slot < 32 ∧ flags.testBit slot = GainRow.isFlagged raw slot) :
    Refines (readGains flags slots) (GainRow.readGains raw slots) := by
  induction slots with
  | nil => exact refines_pure []
  | cons slot slots ih =>
    obtain ⟨hslot, hflag⟩ := hslots slot List.mem_cons_self
    have hothers := ih fun slot hmem => hslots slot (List.mem_cons_of_mem _ hmem)
    have hplace : 1 <<< slot < 2 ^ 32 := by
      rw [Nat.one_shiftLeft]
      exact Nat.pow_lt_pow_right (by decide) hslot
    rw [readGains, GainRow.readGains, shiftLeft_of hslot hplace, pure_bind]
    simp only [and_shiftLeft_ne_zero, hflag]
    split
    · exact refines_uint8.bind fun _ => hothers.bind fun _ => refines_pure _
    · exact (refines_pure _).bind fun _ => hothers.bind fun _ => refines_pure _

/-- Slots that are not flagged have no gain. -/
theorem readGains_append_of_unflagged {flags : UInt32} (slots : List Nat) {others : List Nat}
    (h : ∀ slot ∈ others, GainRow.isFlagged flags slot = false) :
    GainRow.readGains flags (slots ++ others)
      = (· ++ List.replicate others.length 0) <$> GainRow.readGains flags slots := by
  induction slots with
  | nil =>
    induction others with
    | nil => rfl
    | cons slot others ih =>
      have hothers := ih fun slot hmem => h slot (List.mem_cons_of_mem _ hmem)
      rw [List.nil_append] at hothers
      simp only [List.nil_append, GainRow.readGains, hothers, h slot List.mem_cons_self]
      rfl
  | cons slot slots ih =>
    rw [List.cons_append, GainRow.readGains, GainRow.readGains, ih]
    split <;> simp only [map_eq_pure_bind, bind_assoc, pure_bind, List.cons_append]

/-- Zeros at the end of a row need not be written out. -/
theorem ofList_append_replicate (gains : List UInt8) (count : Nat) :
    GainRow.ofList (gains ++ List.replicate count 0) = GainRow.ofList gains := by
  rw [GainRow.ofList, GainRow.ofList]
  congr 1
  funext slot
  rw [List.getD_eq_getElem?_getD, List.getD_eq_getElem?_getD, List.getElem?_append]
  split
  · rfl
  · rename_i hge
    rw [List.getElem?_eq_none (by omega : gains.length ≤ slot.val), List.getElem?_replicate]
    split <;> rfl

theorem refines_readGainRow : Refines readGainRow GainRow.read := by
  refine refines_number.bind fun raw => ?_
  rw [shiftRight_of (by decide), pure_bind]
  have hlast : raw.toNat &&& 0x80 ≠ 0 ↔ raw.toNat.testBit 7 = true :=
    and_shiftLeft_ne_zero raw.toNat 7
  by_cases hbit : raw.toNat.testBit 7 = true
  · -- All slots are counted off.
    rw [if_pos (hlast.2 hbit)]
    refine (refines_readGains fun slot hmem => ?_).bind fun gains => refines_pure _
    have hslot : slot < 12 := List.mem_range.1 hmem
    refine ⟨by omega, ?_⟩
    rw [testBit_flags raw hslot, GainRow.isFlagged, hbit, Bool.true_and]
  · -- Only the first ones are, and the others are not flagged.
    rw [if_neg fun h => hbit (hlast.1 h)]
    have hunflagged : ∀ slot ∈ [7, 8, 9, 10, 11], GainRow.isFlagged raw slot = false := by
      intro slot hmem
      have hge : ∀ slot ∈ [7, 8, 9, 10, 11], ¬ slot < 7 := by decide
      rw [GainRow.isFlagged, if_neg (hge slot hmem), Bool.eq_false_iff.2 hbit, Bool.false_and]
    have hslots : List.range reconGainSlots = List.range 7 ++ [7, 8, 9, 10, 11] := rfl
    rw [hslots, readGains_append_of_unflagged _ hunflagged, map_eq_pure_bind, bind_assoc]
    refine (refines_readGains fun slot hmem => ?_).bind fun gains => ?_
    · have hslot : slot < 7 := List.mem_range.1 hmem
      refine ⟨by omega, ?_⟩
      rw [testBit_flags raw (by omega), GainRow.isFlagged, if_pos hslot, if_pos hslot]
    · rw [pure_bind, ofList_append_replicate]
      exact refines_pure _

/-! ### Tables of recon gains -/

/-- Reads the rows of some layers into a table. -/
def readRows : List Nat → List GainRow → Parse (List GainRow)
  | [], rows => return rows
  | layer :: layers, rows => do
    let _ ← index rows layer
    let row ← readGainRow
    readRows layers (rows.set layer row)

/-- Reads a table that has rows for the given layers. -/
def readGainTable (carrying : List Nat) : Parse GainTable := do
  let rows ← readRows carrying (List.replicate maxLayers .zero)
  return GainTable.ofList rows

/-- Only whether a layer carries recon gain matters. -/
theorem readRows_congr {carrying other layers : List Nat}
    (h : ∀ layer ∈ layers, layer ∈ carrying ↔ layer ∈ other) :
    GainTable.readRows carrying layers = GainTable.readRows other layers := by
  induction layers with
  | nil => rfl
  | cons layer layers ih =>
    rw [GainTable.readRows, GainTable.readRows,
      ih fun layer hmem => h layer (List.mem_cons_of_mem _ hmem)]
    simp only [h layer List.mem_cons_self]

/-- A layer that has had its turn does not matter any more. -/
theorem readRows_past (layer : Nat) (layers : List Nat) (count : Nat) :
    GainTable.readRows (layer :: layers) (List.range' (layer + 1) count)
      = GainTable.readRows layers (List.range' (layer + 1) count) := by
  refine readRows_congr fun other hother => ?_
  have hlt := (List.mem_range'_1.1 hother).1
  rw [List.mem_cons, or_iff_right (by omega)]

/-- The least of some layers in order is the first of them. -/
theorem head_of_sorted {layer start : Nat} {layers : List Nat}
    (hsorted : (layer :: layers).Pairwise (· < ·)) (hmem : start ∈ layer :: layers)
    (hleast : start ≤ layer) : layer = start := by
  rcases List.mem_cons.1 hmem with hfirst | hlater
  · exact hfirst.symm
  · have hlt := (List.pairwise_cons.1 hsorted).1 start hlater
    omega

/-- The first of the rows that are still zero is the one behind those in front. -/
theorem getElem?_zeros (front : List GainRow) (count : Nat) :
    (front ++ List.replicate (count + 1) GainRow.zero)[front.length]? = some GainRow.zero := by
  rw [List.getElem?_append_right (Nat.le_refl _), Nat.sub_self]
  rfl

theorem set_zeros (front : List GainRow) (count : Nat) (row : GainRow) :
    (front ++ List.replicate (count + 1) GainRow.zero).set front.length row
      = (front ++ [row]) ++ List.replicate count GainRow.zero := by
  rw [List.set_append_right _ _ (Nat.le_refl _), Nat.sub_self, List.replicate_succ,
    List.set_cons_zero, List.append_assoc]
  rfl

/-- Layers in order are found one after the other. -/
theorem refines_readRows {carrying : List Nat} {front : List GainRow} {start count : Nat}
    (hstart : front.length = start) (hsorted : carrying.Pairwise (· < ·))
    (hwithin : ∀ layer ∈ carrying, start ≤ layer ∧ layer < start + count) :
    Refines (readRows carrying (front ++ List.replicate count .zero))
      ((front ++ ·) <$> GainTable.readRows carrying (List.range' start count)) := by
  induction count generalizing carrying front start with
  | zero =>
    cases carrying with
    | nil => exact refines_pure _
    | cons layer layers =>
      have := hwithin layer List.mem_cons_self
      omega
  | succ count ih =>
    have hlonger : ∀ row, (front ++ [row]).length = start + 1 := by
      intro row
      rw [List.length_append, hstart, List.length_singleton]
    rw [List.range'_succ, GainTable.readRows]
    by_cases hmem : start ∈ carrying
    · -- The layer is the first one of those that carry recon gain.
      cases carrying with
      | nil => exact absurd hmem List.not_mem_nil
      | cons layer layers =>
        have hlayer := head_of_sorted hsorted hmem (hwithin layer List.mem_cons_self).1
        obtain ⟨hleast, hlayers⟩ := List.pairwise_cons.1 hsorted
        subst hlayer hstart
        rw [readRows, index_of (getElem?_zeros front count), pure_bind, if_pos hmem,
          readRows_past, map_eq_pure_bind, bind_assoc]
        refine refines_readGainRow.bind fun row => ?_
        rw [set_zeros]
        have hnext := ih (hlonger row) hlayers fun other hother => ⟨hleast other hother, by
          have := (hwithin other (List.mem_cons_of_mem _ hother)).2
          omega⟩
        simpa only [map_eq_pure_bind, bind_assoc, pure_bind, List.append_assoc,
          List.singleton_append] using hnext
    · rw [if_neg hmem]
      have hnext := ih (hlonger .zero) hsorted fun layer hlayer => by
        have hne : layer ≠ start := fun heq => hmem (heq ▸ hlayer)
        have := hwithin layer hlayer
        omega
      simpa only [map_eq_pure_bind, bind_assoc, pure_bind, List.append_assoc,
        List.singleton_append, List.replicate_succ] using hnext

theorem refines_readGainTable {carrying : List Nat} (hsorted : carrying.Pairwise (· < ·))
    (hwithin : ∀ layer ∈ carrying, layer < maxLayers) :
    Refines (readGainTable carrying) (GainTable.read carrying) := by
  have hrows : Refines (readRows carrying ([] ++ List.replicate maxLayers .zero))
      (([] ++ ·) <$> GainTable.readRows carrying (List.range' 0 maxLayers)) :=
    refines_readRows rfl hsorted fun layer hlayer =>
      ⟨Nat.zero_le _, by rw [Nat.zero_add]; exact hwithin layer hlayer⟩
  simp only [List.nil_append, id_map', ← List.range_eq_range'] at hrows
  exact hrows.bind fun _ => refines_pure _

/-- Reads the value of a subblock of a parameter block, recon gain for the given layers. -/
def readValue (kind : ParameterKind) (carrying : List Nat) : Parse SubblockValue :=
  match kind with
  | .mixGain => .mixGain <$> readAnimation
  | .demixing => .demixing <$> readDemixingMode
  | .reconGain => .reconGain <$> readGainTable carrying

theorem refines_readValue {kind : ParameterKind} {carrying : List Nat}
    (hsorted : carrying.Pairwise (· < ·)) (hwithin : ∀ layer ∈ carrying, layer < maxLayers) :
    Refines (readValue kind carrying) (SubblockValue.read kind carrying) := by
  cases kind with
  | mixGain => exact refines_readAnimation.map fun _ _ _ h => h
  | demixing => exact refines_readDemixingMode.map fun _ _ _ h => h
  | reconGain => exact (refines_readGainTable hsorted hwithin).map fun _ _ _ h => h

/-! ### Definitions -/

open Parameter (Timeline)

/-- The number of subblocks that a constant duration implies. -/
def impliedCount (duration constantDuration : UInt32) : Parse UInt32 :=
  UInt32.ofNat <$> div duration.toNat constantDuration.toNat

/-- Refuses more subblocks than a parameter may have. -/
def checkSubblocks (count : UInt32) : Parse Unit :=
  require (count.toNat ≤ maxSubblocks) (.outOfRange "num_subblocks" count.toNat)

/-- Reads the timeline of a definition. -/
def readTimeline (selfTimed : Bool) (site : Site) : Parse Timeline :=
  if selfTimed then do
    let duration ← number
    let constantDuration ← number
    let count ←
      if constantDuration = 0 then do
        let count ← number
        checkCount count.toNat "subblock durations"
        pure count
      else impliedCount duration constantDuration
    checkSubblocks count
    return { duration, constantDuration, count }
  else
    let frameSize := site.frameSize.getD 0
    return { duration := frameSize, constantDuration := frameSize, count := 0 }

/-- Reads the part of a subblock of a definition behind its duration. -/
def readDefinedValue (kind : ParameterKind) (duration : UInt32) : Parse Subblock :=
  match kind with
  | .demixing => do
    let mode ← readDemixingMode
    return { duration, value := .demixing mode }
  | kind => return .empty kind duration

/-- Reads one subblock of a definition. -/
def readDefinedSubblock (kind : ParameterKind) (constantDuration : UInt32) : Parse Subblock := do
  if constantDuration = 0 then number >>= readDefinedValue kind
  else readDefinedValue kind constantDuration

/-- Reads a parameter definition of the given kind. -/
def readDefinition (kind : ParameterKind) (site : Site) (scope : Scope) :
    Parse (Parameter × Scope) := do
  let id ← number
  let old := scope.find? id
  let rate ← number
  let timing ← bits 1
  skipBits 7
  let selfTimed : Bool := timing = 0
  require (old.all (·.kind = kind)) (.inconsistentParameter id .kind)
  require (old.all (·.selfTimed = selfTimed)) (.inconsistentParameter id .timing)
  let timeline ← readTimeline selfTimed site
  require (old.all (·.subblocks.length = timeline.count.toNat))
    (.inconsistentParameter id .subblockCount)
  let subblocks ← times timeline.count.toNat
    (readDefinedSubblock kind timeline.constantDuration)
  let definition := {
    id, kind, rate, selfTimed
    duration := timeline.duration
    constantDuration := timeline.constantDuration
    subblocks
    element := match old with
      | some old => old.element
      | none => site.element }
  return (definition, scope.store definition)

theorem impliedCount_of {duration constantDuration : UInt32} (h : constantDuration ≠ 0) :
    impliedCount duration constantDuration
      = pure (Parameter.impliedSubblocks duration constantDuration) := by
  have hne : constantDuration.toNat ≠ 0 := fun heq => h (UInt32.toNat_inj.1 heq)
  rw [impliedCount, div_of hne, map_pure, Parameter.impliedSubblocks, ← UInt32.toNat_div,
    UInt32.ofNat_toNat]

theorem refines_checkSubblocks (count : UInt32) :
    Refines (checkSubblocks count) (checkSubblockCount count) := by
  have hrequire : Refines (checkSubblocks count >>= pure) (checkSubblockCount count >>= pure) :=
    RefinesFrom.require Iff.rfl fun _ => refines_pure ()
  rwa [bind_pure, bind_pure] at hrequire

theorem refines_readTimeline {mode : ReadMode} (hmode : mode.earlyCounts = true)
    (selfTimed : Bool) (site : Site) :
    Refines (readTimeline selfTimed site) (Parameter.readTimeline mode selfTimed site) := by
  rw [readTimeline, Parameter.readTimeline]
  split
  · refine refines_number.bind fun duration => refines_number.bind fun constantDuration => ?_
    split
    · exact refines_number.bind fun _ => (refines_checkCount hmode _ _).bind fun _ =>
        (refines_checkSubblocks _).bind fun _ => refines_pure _
    · rename_i hne
      rw [impliedCount_of hne]
      exact (refines_pure _).bind fun _ => (refines_checkSubblocks _).bind fun _ => refines_pure _
  · exact refines_pure _

theorem refines_readDefinedSubblock (kind : ParameterKind) (constantDuration : UInt32) :
    Refines (readDefinedSubblock kind constantDuration)
      (Parameter.readDefinedSubblock kind constantDuration) := by
  have hvalue : ∀ duration, Refines (readDefinedValue kind duration)
      (Parameter.readDefinedValue kind duration) := by
    intro duration
    cases kind with
    | demixing => exact refines_readDemixingMode.bind fun _ => refines_pure _
    | mixGain => exact refines_pure _
    | reconGain => exact refines_pure _
  rw [readDefinedSubblock, Parameter.readDefinedSubblock_eq]
  split
  · exact refines_number.bind hvalue
  · exact hvalue _

/-- The bit of timing, read as a number. -/
theorem decide_shiftRight_seven (byte : UInt8) :
    decide (byte.toNat >>> 7 = 0) = !byte.toNat.testBit 7 := by
  have hlt := byte.toNat_lt
  rw [Nat.testBit_eq_decide_div_mod_eq, Nat.shiftRight_eq_div_pow, ← decide_not]
  congr 1
  apply propext
  omega

theorem refines_readDefinition {mode : ReadMode} (hmode : mode.earlyCounts = true)
    (kind : ParameterKind) (site : Site) (scope : Scope) :
    Refines (readDefinition kind site scope) (Parameter.readDefinition mode kind site scope) := by
  refine refines_number.bind fun id => refines_number.bind fun rate =>
    RefinesFrom.reserved (by decide) (by decide) fun byte => ?_
  rw [decide_shiftRight_seven]
  exact RefinesFrom.require Iff.rfl fun _ => RefinesFrom.require Iff.rfl fun _ =>
    (refines_readTimeline hmode _ _).bind fun _ => RefinesFrom.require Iff.rfl fun _ =>
    ((refines_readDefinedSubblock _ _).times _).bind fun _ => refines_pure _

/-! ### Blocks -/

/-- The timeline of a block: the definition's, or the block's own. -/
def readBlockTimeline (definition : Parameter) : Parse Timeline :=
  if definition.selfTimed then do
    let listed := UInt32.ofNat definition.subblocks.length
    let count ← if listed = 0 ∧ definition.constantDuration ≠ 0 then
        impliedCount definition.duration definition.constantDuration
      else pure listed
    return {
      duration := definition.duration
      constantDuration := definition.constantDuration
      count }
  else do
    let duration ← number
    let constantDuration ← number
    let count ← if constantDuration = 0 then number else impliedCount duration constantDuration
    return { duration, constantDuration, count }

/-- Reads the duration of a subblock of a block. -/
def readBlockDuration (selfTimed : Bool) (constantDuration : UInt32)
    (defined : Option Subblock) : Parse UInt32 :=
  if selfTimed = false ∧ constantDuration = 0 then number
  else if constantDuration ≠ 0 then return constantDuration
  else return (defined.map (·.duration)).getD 0

/-- Reads a subblock of a block. -/
def readBlockSubblock (definition : Parameter) (constantDuration : UInt32)
    (carrying : List Nat) (defined : List Subblock) : Parse (Subblock × List Subblock) := do
  let duration ← readBlockDuration definition.selfTimed constantDuration defined.head?
  let value ← readValue definition.kind carrying
  return ({ duration, value }, defined.tail)

/-- Reads the part of a block after the id. -/
def readBlockOf (strict : Bool) (registry : Registry) (definition : Parameter) :
    Parse Parameter := do
  let timeline ← readBlockTimeline definition
  checkSubblocks timeline.count
  let carrying ← raise (definition.carryingLayers registry)
  if definition.kind ≠ .reconGain ∨ carrying ≠ [] then
    checkCount timeline.count.toNat "parameter block subblocks"
  let (subblocks, _) ← timesWith timeline.count.toNat definition.subblocks
    (readBlockSubblock definition timeline.constantDuration carrying)
  finish .parameterBlock strict
  return { definition with
    duration := timeline.duration
    constantDuration := timeline.constantDuration
    subblocks }

/-- Reads a parameter block body; nothing if the parameter is not defined. -/
def readBlock (strict : Bool) (registry : Registry) : Parse (Option Parameter) := do
  let id ← number
  match registry.parameter? id with
  | none => return none
  | some definition => some <$> readBlockOf strict registry definition

/-- The values of a parameter block body; nothing if the parameter is not defined. -/
def parseParameterBlock (strict : Bool) (registry : Registry) (body : Bytes) :
    Except Stop (Option Parameter) :=
  parse (readBlock strict registry) "parameter block" body

theorem refines_readBlockTimeline (definition : Parameter) :
    Refines (readBlockTimeline definition) (Parameter.readBlockTimeline definition) := by
  rw [readBlockTimeline, Parameter.readBlockTimeline]
  split
  · by_cases himplied : UInt32.ofNat definition.subblocks.length = 0
        ∧ definition.constantDuration ≠ 0
    · simp only [if_pos himplied, impliedCount_of himplied.2, pure_bind]
      exact refines_pure _
    · simp only [if_neg himplied, pure_bind]
      exact refines_pure _
  · refine refines_number.bind fun duration => refines_number.bind fun constantDuration => ?_
    split
    -- The divisor is not zero where the duration is divided.
    · exact refines_number.bind fun _ => refines_pure _
    · rename_i hne
      rw [impliedCount_of hne]
      exact (refines_pure _).bind fun _ => refines_pure _

theorem refines_readBlockDuration (selfTimed : Bool) (constantDuration : UInt32)
    (defined : Option Subblock) :
    Refines (readBlockDuration selfTimed constantDuration defined)
      (Parameter.readBlockDuration selfTimed constantDuration defined) := by
  rw [readBlockDuration, Parameter.readBlockDuration]
  split
  · exact refines_number
  split
  · exact refines_pure _
  · exact refines_pure _

theorem refines_readBlockSubblock (definition : Parameter) (constantDuration : UInt32)
    {carrying : List Nat} (hsorted : carrying.Pairwise (· < ·))
    (hwithin : ∀ layer ∈ carrying, layer < maxLayers) (defined : List Subblock) :
    Refines (readBlockSubblock definition constantDuration carrying defined)
      (Parameter.readBlockSubblock definition constantDuration carrying defined) :=
  (refines_readBlockDuration _ _ _).bind fun _ => (refines_readValue hsorted hwithin).bind fun _ =>
    refines_pure _

/-- The layers that carry recon gain are in order, and a table has rows for them. -/
theorem carryingLayers_sorted {definition : Parameter} {registry : Registry} {carrying : List Nat}
    (h : definition.carryingLayers registry = .ok carrying) :
    carrying.Pairwise (· < ·) ∧ ∀ layer ∈ carrying, layer < maxLayers := by
  rw [Parameter.carryingLayers] at h
  split at h
  · rw [Registry.reconGainLayers] at h
    split at h
    · cases h
    split at h
    · cases h
    · rename_i element _
      obtain rfl := Except.ok.inj h
      -- They are some of the first places in the list of layers.
      have hsublist : element.reconGainLayers.Sublist
          ((List.range' 0 element.layers.length).take maxLayers) := by
        rw [← List.zipIdx_map_snd, ← List.map_take]
        exact List.filter_sublist.map _
      have hsorted : ((List.range' 0 element.layers.length).take maxLayers).Pairwise (· < ·) :=
        .sublist (List.take_sublist _ _) (List.pairwise_lt_range' 1)
      refine ⟨hsorted.sublist hsublist, fun layer hlayer => ?_⟩
      obtain ⟨place, hplace, rfl⟩ := List.mem_take_iff_getElem.1 (hsublist.subset hlayer)
      rw [List.getElem_range']
      omega
  · obtain rfl := Except.ok.inj h
    exact ⟨.nil, fun _ hmem => absurd hmem List.not_mem_nil⟩

theorem refines_readBlockOf {mode : ReadMode} (hmode : mode.earlyCounts = true)
    (registry : Registry) (definition : Parameter) :
    Refines (readBlockOf mode.strict registry definition)
      (Parameter.readBlockOf mode registry definition) := by
  refine (refines_readBlockTimeline definition).bind fun timeline =>
    (refines_checkSubblocks _).bind fun _ => (refinesFrom_lift rfl).bind fun carrying =>
    RefinesFrom.given fun hcarrying => ?_
  obtain ⟨hsorted, hwithin⟩ := carryingLayers_sorted hcarrying
  have hvalues : Refines
      (timesWith timeline.count.toNat definition.subblocks
        (readBlockSubblock definition timeline.constantDuration carrying) >>= fun result =>
        finish .parameterBlock mode.strict >>= fun _ => pure
        { definition with
          duration := timeline.duration
          constantDuration := timeline.constantDuration
          subblocks := result.1 })
      (Read.timesWith timeline.count.toNat definition.subblocks
        (Parameter.readBlockSubblock definition timeline.constantDuration carrying) >>=
          fun result => Read.finish .parameterBlock mode.strict >>= fun _ => pure
        { definition with
          duration := timeline.duration
          constantDuration := timeline.constantDuration
          subblocks := result.1 }) :=
    (RefinesFrom.timesWith (refines_readBlockSubblock _ _ hsorted hwithin) _ _).bind fun _ =>
      (refines_finish _ _).bind fun _ => refines_pure _
  split
  · exact (refines_checkCount hmode _ _).bind fun _ => hvalues
  · exact hvalues

theorem refines_readBlock {mode : ReadMode} (hmode : mode.earlyCounts = true)
    (registry : Registry) :
    Refines (readBlock mode.strict registry) (Parameter.readBlock mode registry) := by
  refine refines_number.bind fun id => ?_
  cases registry.parameter? id with
  | none => exact refines_pure _
  | some definition => exact (refines_readBlockOf hmode _ _).map fun _ _ _ h => h

theorem parseParameterBlock_eq {mode : ReadMode} (hmode : mode.earlyCounts = true)
    (registry : Registry) {body : Bytes} (h : body.length ≤ Obu.maxSize) :
    parseParameterBlock mode.strict registry body
      = raise (Parameter.parseBlock mode registry body) :=
  parse_eq (refines_readBlock hmode registry) _ h

end Iamf.Checked
