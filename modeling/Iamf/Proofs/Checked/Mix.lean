import Iamf.Mix.Wire
import Iamf.Proofs.Checked.Parameter
import Iamf.Proofs.Mix.Readable

/-!
# `Iamf.Proofs.Checked.Mix`: mix presentations

The readers of mix presentations with checked arithmetic. The bytes of a text are
counted, the flags of a layout are tested bit by bit, and a loudness value is put into
a table by the code of its anchor.

* `refines_readText`: texts that end with a NUL.
* `refines_readSubmixLayout`, `refines_readSubmix`: submixes.
* `parseMixPresentation_eq`: what comes of a whole body.
-/

set_option autoImplicit false

namespace Iamf.Checked

/-! ### Texts -/

/-- Reads up to `left` bytes, or up to and including a NUL, of which `place` have been
read before. All of them are kept but the last one that there may be. -/
def readTextBytes : (left place : Nat) → Parse Bytes
  | 0, _ => return []
  | left + 1, place => do
    let byte ← uint8
    if byte = 0 then return []
    else do
      let last ← sub Text.Terminated.maxSize 1
      let others ← readTextBytes left (place + 1)
      return if place < last then byte :: others else others

/-- Reads a text. -/
def readText : Parse String := do
  let bytes ← readTextBytes Text.Terminated.maxSize 0
  return Text.Utf8.decodeLossy bytes

/-- Reads one text per label. -/
def readAnnotations (annotations : Annotations) : List String → Parse Annotations
  | [] => return annotations
  | label :: labels => do
    let text ← readText
    readAnnotations (annotations.insert label text) labels

theorem refines_readTextBytes {left place : Nat} (h : place + left = Text.Terminated.maxSize) :
    Refines (readTextBytes left place)
      ((·.take (Text.Terminated.maxSize - 1 - place)) <$> Text.Terminated.readBytes left) := by
  induction left generalizing place with
  | zero =>
    rw [readTextBytes, Text.Terminated.readBytes, map_pure, List.take_nil]
    exact refines_pure _
  | succ left ih =>
    rw [Text.Terminated.maxSize] at h
    rw [readTextBytes, Text.Terminated.readBytes, map_eq_pure_bind, bind_assoc]
    refine refines_uint8.bind fun byte => ?_
    split
    · rw [pure_bind, List.take_nil]
      exact refines_pure _
    -- The bytes that are kept are as many as fit; one more is read and dropped.
    · rw [sub_of (by decide), pure_bind, bind_assoc]
      refine (ih (by rw [Text.Terminated.maxSize]; omega)).bind_map fun others => ?_
      rw [pure_bind, Text.Terminated.maxSize]
      split
      · rw [show 128 - 1 - place = 128 - 1 - (place + 1) + 1 by omega, List.take_succ_cons]
        exact refines_pure _
      · rw [show 128 - 1 - place = 0 by omega, show 128 - 1 - (place + 1) = 0 by omega,
          List.take_zero, List.take_zero]
        exact refines_pure _

theorem refines_readText : Refines readText Text.Terminated.read :=
  (refines_readTextBytes rfl).bind_map fun _ => refines_pure _

theorem refines_readAnnotations (labels : List String) :
    Refines (readAnnotations {} labels) (Annotations.read labels) := by
  suffices h : ∀ annotations, Refines (readAnnotations annotations labels)
      (Annotations.read.go annotations labels) from h {}
  induction labels with
  | nil => exact fun annotations => refines_pure annotations
  | cons label labels ih => exact fun annotations => refines_readText.bind fun _ => ih _

/-! ### Layouts -/

/-- Loudness values as a table by the codes of their anchors. -/
def anchoredTable (anchored : AnchoredLoudness) : List (Option Ratio) :=
  [anchored.unknown, anchored.dialogue, anchored.album]

/-- Loudness values that a table has. -/
def ofAnchoredTable (table : List (Option Ratio)) : AnchoredLoudness where
  unknown := table.getD 0 none
  dialogue := table.getD 1 none
  album := table.getD 2 none

/-- Reads a loudness value with the code of its anchor. -/
def readAnchoredEntry (anchored : AnchoredLoudness) : Parse AnchoredLoudness := do
  let code ← uint8
  let loudness ← readRatio
  if 1 ≤ code ∧ code ≤ 2 then do
    let _ ← index (anchoredTable anchored) code.toNat
    return ofAnchoredTable ((anchoredTable anchored).set code.toNat (some loudness))
  else return anchored

/-- Reads the true peak, if the bits say that it is there. -/
def readTruePeak (info : UInt8) : Parse (Option Ratio) :=
  if info.toNat &&& 1 ≠ 0 then some <$> readRatio else return none

/-- Reads the anchored loudness, if the bits say that it is there. -/
def readAnchored (info : UInt8) : Parse AnchoredLoudness :=
  if info.toNat &&& 2 ≠ 0 then do
    let count ← uint8
    iterate readAnchoredEntry count.toNat {}
  else return {}

/-- Passes over an extension, if the bits say that it is there. -/
def skipExtension (info : UInt8) : Parse Unit :=
  if info.toNat &&& 0xFC ≠ 0 then do
    let size ← number
    skipBytes size.toNat
  else return ()

/-- Reads what a layout plays on. -/
def readTarget : Parse (LayoutKind × Option SoundSystem) := do
  let code ← bits 2
  if code = 2 then do
    let system ← bits 4
    skipBits 2
    return (.loudspeakers, SoundSystem.ofCode? (UInt8.ofNat system))
  else if code = 3 then do
    skipBits 6
    return (.binaural, none)
  else fail (.outOfRange "layout_type" code)

/-- Reads a layout. -/
def readSubmixLayout : Parse SubmixLayout := do
  let (kind, soundSystem) ← readTarget
  let info ← uint8
  let integratedLoudness ← readRatio
  let digitalPeak ← readRatio
  let truePeak ← readTruePeak info
  let anchored ← readAnchored info
  skipExtension info
  return { kind, soundSystem, integratedLoudness, digitalPeak, truePeak, anchored }

theorem refines_readAnchoredEntry (anchored : AnchoredLoudness) :
    Refines (readAnchoredEntry anchored) (do
      let code ← Read.byte
      let loudness ← Ratio.read
      return anchored.setCode code loudness) := by
  refine refines_uint8.bind fun code => refines_readRatio.bind fun loudness => ?_
  rw [AnchoredLoudness.setCode]
  -- The codes 1 and 2 have a place in the table, and no other one is looked up.
  by_cases hdialogue : code = 1
  · subst hdialogue
    exact refines_pure _
  by_cases halbum : code = 2
  · subst halbum
    exact refines_pure _
  have hother : ¬ (1 ≤ code ∧ code ≤ 2) := by
    rw [← UInt8.toNat_inj] at hdialogue halbum
    rw [UInt8.le_iff_toNat_le, UInt8.le_iff_toNat_le]
    simp only [UInt8.reduceToNat] at hdialogue halbum ⊢
    omega
  rw [if_neg hother, if_neg hdialogue, if_neg halbum]
  exact refines_pure _

/-- Bits beyond the first two make a byte at least four. -/
theorem and_extension_ne_zero (info : UInt8) : info.toNat &&& 0xFC ≠ 0 ↔ 4 ≤ info := by
  have hall : ∀ number < 256, number &&& 0xFC ≠ 0 ↔ 4 ≤ number := by decide +kernel
  rw [hall _ info.toNat_lt, UInt8.le_iff_toNat_le]
  rfl

theorem refines_readTruePeak (info : UInt8) :
    Refines (readTruePeak info) (SubmixLayout.readTruePeak info) := by
  rw [readTruePeak, SubmixLayout.readTruePeak]
  have hflag : info.toNat &&& 1 ≠ 0 ↔ info.toNat.testBit 0 = true := and_shiftLeft_ne_zero _ 0
  simp only [hflag]
  split
  · exact refines_readRatio.map fun _ _ _ h => h
  · exact refines_pure _

theorem refines_readAnchored (info : UInt8) :
    Refines (readAnchored info) (SubmixLayout.readAnchored info) := by
  rw [readAnchored, SubmixLayout.readAnchored]
  have hflag : info.toNat &&& 2 ≠ 0 ↔ info.toNat.testBit 1 = true := and_shiftLeft_ne_zero _ 1
  simp only [hflag]
  split
  · exact refines_uint8.bind fun _ => RefinesFrom.iterate refines_readAnchoredEntry _ _
  · exact refines_pure _

theorem refines_skipExtension (info : UInt8) :
    Refines (skipExtension info) (SubmixLayout.skipExtension info) := by
  rw [skipExtension, SubmixLayout.skipExtension]
  simp only [and_extension_ne_zero]
  split
  · exact refines_number.bind fun _ => refines_skipBytes _
  · exact refines_pure _

theorem refines_readTarget : Refines readTarget SubmixLayout.readTarget := by
  refine refines_of_at fun offset =>
    RefinesFrom.open_byte (by decide) (rfl : 2 + 6 = 8) fun byte => ?_
  have hcode : byte.toNat >>> 6 = (byte >>> 6).toNat := by
    rw [UInt8.toNat_shiftRight]
    rfl
  have hloudspeakers : (byte >>> 6).toNat = 2 ↔ byte >>> 6 = 2 :=
    (UInt8.toNat_inj : (byte >>> 6).toNat = (2 : UInt8).toNat ↔ _)
  have hbinaural : (byte >>> 6).toNat = 3 ↔ byte >>> 6 = 3 :=
    (UInt8.toNat_inj : (byte >>> 6).toNat = (3 : UInt8).toNat ↔ _)
  have hsystem : UInt8.ofNat (byte.toNat >>> 2 % 2 ^ 4) = (byte >>> 2) &&& 0xF := by
    have hmask : (0xF : UInt8).toNat = 2 ^ 4 - 1 := rfl
    have hshift : (byte >>> 2).toNat = byte.toNat >>> 2 := by
      rw [UInt8.toNat_shiftRight]
      rfl
    apply UInt8.toNat_inj.1
    rw [UInt8.toNat_and, hmask, Nat.and_two_pow_sub_one_eq_mod, hshift, UInt8.toNat_ofNat']
    exact Nat.mod_eq_of_lt (Nat.lt_trans (Nat.mod_lt _ (by decide)) (by decide))
  simp only [hcode, hloudspeakers, hbinaural]
  split
  · -- Four bits of sound system, two reserved.
    refine RefinesFrom.field (rfl : 2 + (4 + 2) = 8) (RefinesFrom.pass (rfl : 6 + (2 + 0) = 8)
      (RefinesFrom.close_byte ?_))
    rw [hsystem]
    exact refinesFrom_pure fun _ _ hat => ⟨_, hat⟩
  split
  · exact RefinesFrom.pass (rfl : 2 + (6 + 0) = 8)
      (RefinesFrom.close_byte (refinesFrom_pure fun _ _ hat => ⟨_, hat⟩))
  · exact refinesFrom_fail _

theorem refines_readSubmixLayout : Refines readSubmixLayout SubmixLayout.read := by
  rw [SubmixLayout.read_eq]
  exact refines_readTarget.bind fun _ => refines_uint8.bind fun _ => refines_readRatio.bind fun _ =>
    refines_readRatio.bind fun _ => (refines_readTruePeak _).bind fun _ =>
    (refines_readAnchored _).bind fun _ => (refines_skipExtension _).bind fun _ => refines_pure _

/-! ### Submixes -/

/-- Reads an element of a submix. -/
def readSubmixElement (registry : Registry) (labels : List String) (scope : Scope) :
    Parse (SubmixElement × Scope) := do
  let id ← number
  let some element := registry.audioElement? id
    | fail (.unknownReference .audioElement id)
  let annotations ← readAnnotations {} labels
  let headphones ← bits 2
  skipBits 6
  let extensionSize ← number
  skipBytes extensionSize.toNat
  let site := { element := some id, frameSize := element.frameSize? }
  let (gain, scope) ← readDefinition .mixGain site scope
  let defaultGain ← readRatio
  return ({
    element := id
    annotations
    headphones := .ofCode (UInt8.ofNat headphones)
    gain
    defaultGain }, scope)

/-- Reads a submix. -/
def readSubmix (registry : Registry) (labels : List String) (scope : Scope) :
    Parse (Submix × Scope) := do
  let elementCount ← number
  checkCount elementCount.toNat "submix elements"
  let (elements, scope) ← timesWith elementCount.toNat scope (readSubmixElement registry labels)
  let (gain, scope) ← readDefinition .mixGain {} scope
  let defaultGain ← readRatio
  let layoutCount ← number
  checkCount layoutCount.toNat "submix layouts"
  let layouts ← times layoutCount.toNat readSubmixLayout
  return ({ elements, layouts, gain, defaultGain }, scope)

/-- Reads a mix presentation body against the descriptors before it. -/
def readMixPresentation (strict : Bool) (registry : Registry) :
    Parse (MixPresentation × List Parameter) := do
  let id ← number
  require (registry.mixPresentation? id = none) (.duplicateId .mixPresentation id)
  let labelCount ← number
  checkCount labelCount.toNat "language labels"
  let labels ← times labelCount.toNat readText
  let annotations ← readAnnotations {} labels
  let submixCount ← number
  checkCount submixCount.toNat "submixes"
  let (submixes, scope) ← timesWith submixCount.toNat ({ known := registry.parameters } : Scope)
    (readSubmix registry labels)
  finish .mixPresentation strict
  return ({ id, labels, annotations, submixes }, scope.pending)

/-- The mix presentation of an OBU body. -/
def parseMixPresentation (strict : Bool) (registry : Registry) (body : Bytes) :
    Except Stop (MixPresentation × List Parameter) :=
  parse (readMixPresentation strict registry) "mix presentation" body

section

variable {mode : ReadMode} (hmode : mode.earlyCounts = true) (registry : Registry)
include hmode

theorem refines_readSubmixElement (labels : List String) (scope : Scope) :
    Refines (readSubmixElement registry labels scope)
      (SubmixElement.read mode registry labels scope) := by
  refine refines_number.bind fun id => ?_
  cases registry.audioElement? id with
  | none => exact refinesFrom_fail _
  | some element =>
    refine (refines_readAnnotations labels).bind fun annotations =>
      RefinesFrom.reserved (by decide) (rfl : 2 + 6 = 8) fun byte => ?_
    rw [ofNat_shiftRight byte 6 6 rfl (by decide)]
    exact refines_number.bind fun _ => (refines_skipBytes _).bind fun _ =>
      (refines_readDefinition hmode _ _ _).bind fun _ => refines_readRatio.bind fun _ =>
      refines_pure _

theorem refines_readSubmix (labels : List String) (scope : Scope) :
    Refines (readSubmix registry labels scope) (Submix.read mode registry labels scope) :=
  refines_number.bind fun _ => (refines_checkCount hmode _ _).bind fun _ =>
    (RefinesFrom.timesWith (refines_readSubmixElement hmode registry labels) _ _).bind fun _ =>
    (refines_readDefinition hmode _ _ _).bind fun _ => refines_readRatio.bind fun _ =>
    refines_number.bind fun _ => (refines_checkCount hmode _ _).bind fun _ =>
    (refines_readSubmixLayout.times _).bind fun _ => refines_pure _

theorem refines_readMixPresentation :
    Refines (readMixPresentation mode.strict registry) (MixPresentation.read mode registry) :=
  refines_number.bind fun _ => RefinesFrom.require Iff.rfl fun _ =>
    refines_number.bind fun _ => (refines_checkCount hmode _ _).bind fun _ =>
    (refines_readText.times _).bind fun labels => (refines_readAnnotations _).bind fun _ =>
    refines_number.bind fun _ => (refines_checkCount hmode _ _).bind fun _ =>
    (RefinesFrom.timesWith (refines_readSubmix hmode registry labels) _ _).bind fun _ =>
    (refines_finish _ _).bind fun _ => refines_pure _

theorem parseMixPresentation_eq {body : Bytes} (h : body.length ≤ Obu.maxSize) :
    parseMixPresentation mode.strict registry body
      = raise (MixPresentation.parse mode registry body) :=
  parse_eq (refines_readMixPresentation hmode registry) _ h

end

end Iamf.Checked
