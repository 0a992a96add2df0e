import Iamf.Parameter.Value
import Iamf.Proofs.Wire.Numbers
import Mathlib.Data.List.Nodup

/-!
# `Iamf.Proofs.Parameter.Value`: values of subblocks are read back

A gain survives if it is a Q7.8 number, a down-mixing mode if it has three bits,
and a table of recon gains if it is zero on the layers that carry none. The one
format here that is not written field by field is a row of recon gains: its
flags name the slots that are not zero, and bit 7, which stands for no slot,
says that there are flags behind it.

* `Ratio.toQ8_ofQ8`: a Q7.8 number is its own nearest one.
* `GainRow.consumes_encode`: a row comes back from its bytes.
* `SubblockValue.consumes_encode`: a value that fits comes back from its bytes.
-/

set_option autoImplicit false

namespace Iamf

open Read (Consumes Takes)

/-! ### Gains -/

namespace Ratio

/-- A ratio that is a Q7.8 number as it stands. -/
def IsQ8 (ratio : Ratio) : Prop :=
  ∃ value : Int16, ratio = ofQ8 value

/-- The nearest Q7.8 number of a Q7.8 number is that number. -/
theorem toQ8_ofQ8 (value : Int16) : (ofQ8 value).toQ8 = value := by
  have hlow := value.le_toInt
  have hhigh := value.toInt_lt
  have hnum : (ofQ8 value).num.toInt = value.toInt := Int16.toInt_toInt32 value
  have hden : (ofQ8 value).den.toInt = 256 := rfl
  -- The product is a multiple of 256, so there is nothing to round on either side of zero.
  have hround : roundAway (value.toInt * 256) 256 = value.toInt := by
    rw [roundAway]
    split
    · rw [Int.tdiv_eq_ediv_of_nonneg (by omega)]
      omega
    · rw [show value.toInt * 256 - 256 / 2 = -(-value.toInt * 256 + 256 / 2) by omega,
        Int.neg_tdiv, Int.tdiv_eq_ediv_of_nonneg (by omega)]
      omega
  have hclamp : clampInt16 value.toInt = value := by
    rw [clampInt16, show max (-32768) (min 32767 value.toInt) = value.toInt by omega,
      Int16.ofInt_toInt]
  simp only [toQ8, hnum, hden]
  rw [if_neg (by omega), if_neg (by omega), hround, hclamp]

theorem read_eq_ok {reader after : Reader} {ratio : Ratio}
    (h : read reader = .ok (ratio, after)) : ratio.IsQ8 := by
  simp only [read, Read.map_eq_ok, Prod.mk.injEq] at h
  obtain ⟨value, _, -, rfl, -⟩ := h
  exact ⟨value, rfl⟩

/-- The nearest Q7.8 number, as a ratio. -/
def nearest (ratio : Ratio) : Ratio :=
  ofQ8 ratio.toQ8

theorem isQ8_nearest (ratio : Ratio) : ratio.nearest.IsQ8 :=
  ⟨ratio.toQ8, rfl⟩

@[simp] theorem encode_nearest (ratio : Ratio) : ratio.nearest.encode = ratio.encode := by
  rw [encode, encode, nearest, toQ8_ofQ8]

theorem nearest_of_isQ8 {ratio : Ratio} (h : ratio.IsQ8) : ratio.nearest = ratio := by
  obtain ⟨value, rfl⟩ := h
  rw [nearest, toQ8_ofQ8]

/-- Of any ratio the nearest Q7.8 number is read back. -/
theorem consumes_nearest (ratio : Ratio) : Consumes read ratio.encode ratio.nearest :=
  (Read.consumes_int16 ratio.toQ8).map ofQ8

theorem consumes_encode {ratio : Ratio} (h : ratio.IsQ8) : Consumes read ratio.encode ratio := by
  have hread := ratio.consumes_nearest
  rwa [nearest_of_isQ8 h] at hread

end Ratio

namespace Animation

/-- All gains of a course are Q7.8 numbers. -/
def IsQ8 : Animation → Prop
  | step start => start.IsQ8
  | linear start finish => start.IsQ8 ∧ finish.IsQ8
  | bezier start finish control _ => start.IsQ8 ∧ finish.IsQ8 ∧ control.IsQ8

theorem consumes_encode {animation : Animation} (h : animation.IsQ8) :
    Consumes read animation.encode animation := by
  cases animation with
  | step start =>
    refine (Leb128.consumes_encode 0).bind (Takes.ensure_bind (by decide) ?_)
    exact (Ratio.consumes_encode h).bind_pure step
  | linear start finish =>
    obtain ⟨hstart, hfinish⟩ := h
    rw [encode, List.append_assoc]
    refine (Leb128.consumes_encode 1).bind (Takes.ensure_bind (by decide) ?_)
    refine (Ratio.consumes_encode hstart).bind ?_
    exact (Ratio.consumes_encode hfinish).bind_pure (linear start)
  | bezier start finish control controlTime =>
    obtain ⟨hstart, hfinish, hcontrol⟩ := h
    simp only [encode, List.append_assoc]
    refine (Leb128.consumes_encode 2).bind (Takes.ensure_bind (by decide) ?_)
    refine (Ratio.consumes_encode hstart).bind ((Ratio.consumes_encode hfinish).bind ?_)
    refine (Ratio.consumes_encode hcontrol).bind ?_
    exact (Consumes.byte controlTime).bind_pure (bezier start finish control)

end Animation

/-! ### Down-mixing modes -/

theorem readDemixingMode_eq_ok {reader after : Reader} {mode : UInt8}
    (h : readDemixingMode reader = .ok (mode, after)) : mode.toNat < 8 := by
  simp only [readDemixingMode, Read.bind_eq_ok, Read.pure_eq_ok, Prod.mk.injEq] at h
  obtain ⟨byte, _, -, rfl, -⟩ := h
  exact Read.toNat_shiftRight_lt byte (by decide)

theorem consumes_encodeDemixingMode {mode : UInt8} (h : mode.toNat < 8) :
    Consumes readDemixingMode (encodeDemixingMode mode) mode := by
  have hread := (Consumes.byte (mode <<< (5 : UInt8))).bind_pure fun byte => byte >>> (5 : UInt8)
  rwa [Read.shiftLeft_shiftRight (by decide) h] at hread

/-! ### Rows of recon gains -/

namespace GainRow

/-- The gain of a slot. -/
def gain (row : GainRow) (slot : Nat) : UInt8 :=
  row.toList.getD slot 0

/-- A row, gain by gain. -/
theorem map_gain (row : GainRow) : (List.range reconGainSlots).map row.gain = row.toList := by
  apply List.ext_getElem
  · simp
  · intro slot _ hslot
    have hlt : slot < reconGainSlots := by simpa using hslot
    simp [gain, hlt]

theorem ofList_toList (row : GainRow) : ofList row.toList = row := by
  apply Vector.ext
  intro slot hslot
  simp [ofList, List.getD]

theorem testBit_foldl_slotFlags (bit : Nat) (entries : List (UInt8 × Nat)) (flags : Nat) :
    (entries.foldl (fun flags (gain, slot) =>
        if gain = 0 then flags else flags ||| slotFlags slot) flags).testBit bit
      = (flags.testBit bit
        || entries.any fun (gain, slot) => gain ≠ 0 && (slotFlags slot).testBit bit) := by
  induction entries generalizing flags with
  | nil => simp
  | cons entry entries ih =>
    rw [List.foldl_cons, ih, List.any_cons]
    by_cases hgain : entry.1 = 0
    · simp [hgain]
    · simp [hgain, Nat.testBit_or, Bool.or_assoc]

/-- The flag of a bit is set when some gain that is not zero asks for it. -/
theorem testBit_flags (row : GainRow) (bit : Nat) :
    row.flags.testBit bit = (List.range reconGainSlots).any fun slot =>
      row.gain slot ≠ 0 && (slotFlags slot).testBit bit := by
  have hentries : row.toList.zipIdx
      = (List.range reconGainSlots).map fun slot => (row.gain slot, slot) := by
    apply List.ext_getElem
    · simp
    · intro slot hslot _
      have hlt : slot < reconGainSlots := by simpa using hslot
      simp [gain, hlt]
  rw [flags, testBit_foldl_slotFlags, hentries, List.any_map, Nat.zero_testBit, Bool.false_or]
  rfl

/-- Which bits each slot sets: one of its own, and bit 7 from slot 7 on. -/
theorem testBit_slotFlags : ∀ other < reconGainSlots, ∀ slot < reconGainSlots,
    (slotFlags other).testBit (if slot < 7 then slot else slot + 1) = decide (other = slot)
      ∧ (slotFlags other).testBit 7 = decide (7 ≤ other) ∧ slotFlags other < 2 ^ 13 := by
  decide

theorem flags_lt (row : GainRow) : row.flags < 2 ^ 13 := by
  apply Nat.lt_pow_two_of_testBit
  intro bit hbit
  rw [testBit_flags, List.any_eq_false]
  intro slot hslot
  have hlt := (testBit_slotFlags slot (List.mem_range.1 hslot) 0 (by decide)).2.2
  rw [Nat.testBit_lt_two_pow (Nat.lt_of_lt_of_le hlt (Nat.pow_le_pow_right (by decide) hbit)),
    Bool.and_false]
  exact Bool.false_ne_true

/-- The bit of a slot's own is set when its gain is not zero. -/
theorem testBit_flags_own (row : GainRow) {slot : Nat} (h : slot < reconGainSlots) :
    row.flags.testBit (if slot < 7 then slot else slot + 1) = decide (row.gain slot ≠ 0) := by
  rw [testBit_flags, Bool.eq_iff_iff, List.any_eq_true, decide_eq_true_iff]
  constructor
  · rintro ⟨other, hother, hset⟩
    rw [(testBit_slotFlags other (List.mem_range.1 hother) slot h).1, Bool.and_eq_true,
      decide_eq_true_iff, decide_eq_true_iff] at hset
    exact hset.2 ▸ hset.1
  · intro hgain
    refine ⟨slot, List.mem_range.2 h, ?_⟩
    rw [(testBit_slotFlags slot h slot h).1, decide_eq_true hgain, decide_eq_true rfl]
    rfl

/-- A slot is flagged when its gain is not zero. -/
theorem isFlagged_flags (row : GainRow) {slot : Nat} (h : slot < reconGainSlots) :
    isFlagged (UInt32.ofNat row.flags) slot = decide (row.gain slot ≠ 0) := by
  have hflags : (UInt32.ofNat row.flags).toNat = row.flags := by
    have hlt := row.flags_lt
    rw [UInt32.toNat_ofNat']
    omega
  have hown := row.testBit_flags_own h
  rw [isFlagged, hflags]
  -- From slot 7 on the flag counts only where bit 7 is set as well.
  by_cases hslot : slot < 7
  · rwa [if_pos hslot] at hown ⊢
  · rw [if_neg hslot] at hown ⊢
    rw [hown]
    by_cases hgain : row.gain slot = 0
    · simp [hgain]
    · -- The gain itself is a reason for bit 7.
      have hescape : row.flags.testBit 7 = true := by
        rw [testBit_flags, List.any_eq_true]
        refine ⟨slot, List.mem_range.2 h, ?_⟩
        rw [(testBit_slotFlags slot h slot h).2.1, decide_eq_true hgain,
          decide_eq_true (Nat.not_lt.1 hslot)]
        rfl
      rw [hescape, Bool.true_and]

/-- The gains of some slots are read back from those that are not zero. -/
theorem consumes_gains {flags : UInt32} {gain : Nat → UInt8} {slots : List Nat}
    (h : ∀ slot ∈ slots, isFlagged flags slot = decide (gain slot ≠ 0)) :
    Consumes (readGains flags slots) ((slots.map gain).filter (· ≠ 0)) (slots.map gain) := by
  induction slots with
  | nil => exact Takes.pure []
  | cons slot slots ih =>
    have hothers := ih fun other hother => h other (List.mem_cons_of_mem _ hother)
    have hslot := h slot List.mem_cons_self
    rw [readGains]
    by_cases hgain : gain slot = 0
    · rw [if_neg (by simp [hslot, hgain]), List.map_cons, List.filter_cons_of_neg (by simp [hgain])]
      rw [hgain]
      exact Takes.bind_of_nil (Takes.pure 0) (hothers.bind_pure (0 :: ·))
    · rw [if_pos (by simp [hslot, hgain]), List.map_cons, List.filter_cons_of_pos (by simp [hgain])]
      exact (Consumes.byte (gain slot)).bind (hothers.bind_pure (gain slot :: ·))

/-- A row comes back from its bytes. -/
theorem consumes_encode (row : GainRow) : Consumes read row.encode row := by
  have hflagged : ∀ slot ∈ List.range reconGainSlots,
      isFlagged (UInt32.ofNat row.flags) slot = decide (row.gain slot ≠ 0) :=
    fun slot hslot => row.isFlagged_flags (List.mem_range.1 hslot)
  have hgains := consumes_gains hflagged
  rw [map_gain] at hgains
  have hread : Consumes read row.encode (ofList row.toList) :=
    (Leb128.consumes_encode (UInt32.ofNat row.flags)).bind (hgains.bind_pure ofList)
  rwa [ofList_toList] at hread

end GainRow

/-! ### Tables of recon gains -/

namespace GainTable

/-- A table that is zero on the layers that carry no recon gain. -/
def IsZeroOutside (carrying : List Nat) (table : GainTable) : Prop :=
  ∀ layer < maxLayers, layer ∉ carrying → table.row layer = .zero

theorem ofList_rows (table : GainTable) :
    ofList ((List.range maxLayers).map table.row) = table := by
  apply Vector.ext
  intro layer hlayer
  simp [ofList, List.getD, row]

/-- The rows of some layers are read back from those that carry recon gain. -/
theorem consumes_rows {carrying : List Nat} {row : Nat → GainRow} {layers : List Nat}
    (h : ∀ layer ∈ layers, layer ∉ carrying → row layer = .zero) :
    Consumes (readRows carrying layers)
      ((layers.filter (· ∈ carrying)).flatMap fun layer => (row layer).encode)
      (layers.map row) := by
  induction layers with
  | nil => exact Takes.pure []
  | cons layer layers ih =>
    have hothers := ih fun other hother => h other (List.mem_cons_of_mem _ hother)
    rw [readRows]
    by_cases hcarrying : layer ∈ carrying
    · rw [if_pos hcarrying, List.filter_cons_of_pos (by simpa using hcarrying),
        List.flatMap_cons]
      exact ((row layer).consumes_encode).bind (hothers.bind_pure (row layer :: ·))
    · rw [if_neg hcarrying, List.filter_cons_of_neg (by simpa using hcarrying), List.map_cons,
        h layer List.mem_cons_self hcarrying]
      exact Takes.bind_of_nil (Takes.pure _) (hothers.bind_pure (GainRow.zero :: ·))

/-- A sublist of distinct numbers is what of them is in it. -/
theorem filter_mem_of_sublist {some all : List Nat} (h : some.Sublist all) (hall : all.Nodup) :
    all.filter (· ∈ some) = some := by
  induction h with
  | slnil => rfl
  | @cons some all first hsub ih =>
    rw [List.nodup_cons] at hall
    rw [List.filter_cons_of_neg (by simpa using fun hmem => hall.1 (hsub.subset hmem)), ih hall.2]
  | @cons_cons some all first hsub ih =>
    rw [List.nodup_cons] at hall
    rw [List.filter_cons_of_pos (by simp)]
    congr 1
    rw [← ih hall.2]
    refine List.filter_congr fun other hother => ?_
    have hne : other ≠ first := fun heq => hall.1 (heq ▸ hother)
    simp [hne, hother]

/-- A table comes back from its bytes if it is zero where nothing is written;
the carrying layers come in their order. -/
theorem consumes_encode {carrying : List Nat} {table : GainTable}
    (hcarrying : carrying.Sublist (List.range maxLayers)) (h : table.IsZeroOutside carrying) :
    Consumes (read carrying) (table.encode carrying) table := by
  have hlayers := filter_mem_of_sublist hcarrying List.nodup_range
  have hzero : ∀ layer ∈ List.range maxLayers, layer ∉ carrying → table.row layer = .zero :=
    fun layer hlayer => h layer (List.mem_range.1 hlayer)
  have hrows := consumes_rows hzero
  rw [hlayers] at hrows
  have hread := hrows.bind_pure ofList
  rwa [ofList_rows] at hread

end GainTable

/-! ### Values -/

namespace SubblockValue

/-- A value that a parameter block of this kind can carry, recon gain for the
given layers. -/
def Fits (kind : ParameterKind) (carrying : List Nat) (value : SubblockValue) : Prop :=
  match kind, value with
  | .mixGain, mixGain animation => animation.IsQ8
  | .demixing, demixing mode => mode.toNat < 8
  | .reconGain, reconGain table => table.IsZeroOutside carrying
  | _, _ => False

theorem Fits.kind_eq {kind : ParameterKind} {carrying : List Nat} {value : SubblockValue}
    (h : value.Fits kind carrying) : value.kind = kind := by
  cases kind <;> cases value <;> first | rfl | exact h.elim

/-- A value that fits comes back from its bytes. -/
theorem consumes_encode {kind : ParameterKind} {carrying : List Nat} {value : SubblockValue}
    (hcarrying : carrying.Sublist (List.range maxLayers)) (h : value.Fits kind carrying) :
    Consumes (read kind carrying) (value.encode carrying) value := by
  cases kind <;> cases value
  case mixGain.mixGain animation => exact (Animation.consumes_encode h).map mixGain
  case demixing.demixing mode => exact (consumes_encodeDemixingMode h).map demixing
  case reconGain.reconGain table => exact (GainTable.consumes_encode hcarrying h).map reconGain
  all_goals exact h.elim

end SubblockValue

end Iamf
