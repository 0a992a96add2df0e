import Iamf.Proofs.Checked.Refinement
import Iamf.Proofs.Obu.Grammar

/-!
# `Iamf.Proofs.Checked.Header`: the header of an OBU, checked

The bytes that the fields of a header take up are found out from positions: that
behind the size is noted, and subtracted from the one behind the last field. The
extension is added to this, whose bytes are not among those that were read ahead, and
the body is what is left of the size.

* `parseHeader_eq`: the header comes out as it should.
-/

set_option autoImplicit false

namespace Iamf

namespace Checked

/-- The kind with a given code. -/
def kindOfCode (code : UInt8) : Parse Obu.Kind :=
  if code = 0 then return .codecConfig
  else if code = 1 then return .audioElement
  else if code = 2 then return .mixPresentation
  else if code = 3 then return .parameterBlock
  else if code = 4 then return .temporalDelimiter
  else if code = 5 then return .audioFrame
  else if code ≤ 23 then do
    let substream ← sub code.toNat 6
    return .impliedFrame (UInt8.ofNat substream)
  else if code = 31 then return .sequenceHeader
  else return .reserved code

/-- Trimming, if the flag says that it is there. -/
def readTrim (present : Bool) : Parse (Option Obu.Trim) :=
  if present then do
    let skipSamples ← number
    let discardPadding ← number
    return some { skipSamples, discardPadding }
  else return none

/-- The extension size, if the flag says that it is there. -/
def readExtensionSize (present : Bool) : Parse (Option UInt32) :=
  if present then do
    let size ← number
    require (size.toNat ≤ Obu.maxExtensionSize)
      (.outOfRange "extension_header_size" size.toNat)
    return some size
  else return none

/-- Reads a header up to the extension size. -/
def readHeader : Parse Obu.Header := do
  let code ← bits 5
  let kind ← kindOfCode (UInt8.ofNat code)
  let redundant ← flag
  let trimming ← flag
  let extension ← flag
  let size ← number
  require (size.toNat ≤ Obu.maxSize) (.outOfRange "obu_size" size.toNat)
  let start ← bytePosition
  let trim ← readTrim trimming
  let extensionSize ← readExtensionSize extension
  let total ← add 64 start size.toNat
  require (total ≤ Obu.maxSize) (.outOfRange "obu_size" total)
  let here ← bytePosition
  let read ← sub here start
  let fieldBytes ← add 64 read (extensionSize.getD 0).toNat
  require (fieldBytes ≤ size.toNat) (.invalidData (.headerExceedsSize fieldBytes size.toNat))
  let headerLength ← add 64 start fieldBytes
  let bodyLength ← sub size.toNat fieldBytes
  return { kind, redundant, trim, extensionSize, size, headerLength, bodyLength }

/-- The header at the start of a byte string. -/
def parseHeader (bytes : Bytes) : Except Stop Obu.Header :=
  parse readHeader "OBU header" bytes

/-- An implied frame has a code above those of the other kinds in front of it. -/
theorem kindOfCode_of (code : UInt8) : kindOfCode code = pure (Obu.Kind.ofCode code) := by
  have himplied : 6 ≤ code.toNat → (sub code.toNat 6 : Parse Nat) >>= (fun substream =>
      pure (Obu.Kind.impliedFrame (UInt8.ofNat substream)))
        = pure (Obu.Kind.impliedFrame (code - 6)) := by
    intro hge
    have hsub : UInt8.ofNat (code.toNat - 6) = code - 6 := by
      have hle : (6 : UInt8) ≤ code := UInt8.le_iff_toNat_le.2 hge
      rw [show code.toNat - 6 = (code - 6).toNat from (UInt8.toNat_sub_of_le _ _ hle).symm,
        UInt8.ofNat_toNat]
    rw [sub_of hge, pure_bind, hsub]
  simp only [kindOfCode, Obu.Kind.ofCode]
  repeat' split
  -- The tests in front have left the codes from six on.
  case isFalse.isFalse.isFalse.isFalse.isFalse.isFalse.isTrue =>
    refine himplied ?_
    simp only [← UInt8.toNat_inj, UInt8.reduceToNat] at *
    omega
  all_goals rfl

section

variable {β : Type} {offset : Nat} {after : β → Cursor → Reader → Prop}

/-- The position behind so many bytes. -/
theorem RefinesFrom.position {fast : Nat → Parse β} {slow : Read β}
    (h : offset ≤ Obu.maxSize → RefinesFrom (At offset) after (fast offset) slow) :
    RefinesFrom (At offset) after (bytePosition >>= fast) slow := by
  intro cursor reader hat
  rw [run_bind_of_ok (run_bytePosition hat.sound.addressable hat.position)]
  exact h (Nat.le_trans hat.length_le hat.sound.bounded) hat

/-- A number, of which the reader knows the size and the checked program does not. -/
theorem RefinesFrom.number {fast : UInt32 → Parse β} {slow : UInt32 × Nat → Read β}
    (h : ∀ value size, RefinesFrom (At (offset + size)) after (fast value) (slow (value, size))) :
    RefinesFrom (At offset) after (number >>= fast) (Leb128.readSized >>= slow) := by
  rw [Checked.number, bind_map_left]
  exact refinesFrom_numberSized.bind fun result => h result.1 result.2

theorem RefinesFrom.trim {present : Bool} {fast : Option Obu.Trim → Parse β}
    {slow : Option Obu.Trim × Nat → Read β}
    (h : ∀ trim size, RefinesFrom (At (offset + size)) after (fast trim) (slow (trim, size))) :
    RefinesFrom (At offset) after (readTrim present >>= fast)
      (Obu.Header.readTrim present >>= slow) := by
  cases present with
  | false => exact h none 0
  | true =>
    simp only [readTrim, Obu.Header.readTrim, if_true, bind_assoc, pure_bind]
    refine RefinesFrom.number fun skipSamples skipBytes =>
      RefinesFrom.number fun discardPadding discardBytes => ?_
    rw [Nat.add_assoc]
    exact h _ _

theorem RefinesFrom.extensionSize {present : Bool} {fast : Option UInt32 → Parse β}
    {slow : Option UInt32 × Nat → Read β}
    (h : ∀ extensionSize size,
      RefinesFrom (At (offset + size)) after (fast extensionSize) (slow (extensionSize, size))) :
    RefinesFrom (At offset) after (readExtensionSize present >>= fast)
      (Obu.Header.readExtensionSize present >>= slow) := by
  cases present with
  | false => exact h none 0
  | true =>
    simp only [readExtensionSize, Obu.Header.readExtensionSize, if_true, bind_assoc, pure_bind]
    exact RefinesFrom.number fun size sizeBytes =>
      RefinesFrom.require Iff.rfl fun _ => h _ _

end

/-- The bytes between the two positions are those that the fields take up. -/
theorem refinesFrom_readHeader :
    RefinesFrom (At 0) (fun _ => Aligned) readHeader Obu.Header.read := by
  refine RefinesFrom.open_byte (by decide) (rfl : 5 + 3 = 8) fun flags => ?_
  rw [kindOfCode_of, pure_bind, ofNat_shiftRight flags 3 3 rfl (by decide)]
  refine RefinesFrom.flag (rfl : 5 + (1 + 2) = 8) <| RefinesFrom.flag (rfl : 6 + (1 + 1) = 8) <|
    RefinesFrom.flag (rfl : 7 + (1 + 0) = 8) <| RefinesFrom.close_byte <|
    RefinesFrom.number fun size sizeBytes => RefinesFrom.require Iff.rfl fun hsize =>
    RefinesFrom.position fun hstart => RefinesFrom.trim fun trim trimBytes =>
    RefinesFrom.extensionSize fun extensionSize extensionSizeBytes => ?_
  -- What is between the two positions is the sizes of the numbers that were read.
  have hextension := (extensionSize.getD 0).toNat_lt
  simp only [Obu.maxSize] at hsize hstart
  rw [add_of (by omega), pure_bind, Nat.zero_add]
  refine RefinesFrom.require Iff.rfl fun htotal => RefinesFrom.position fun hhere => ?_
  simp only [Obu.maxSize] at htotal hhere
  rw [sub_of (by omega), pure_bind, add_of (by omega), pure_bind,
    show 1 + sizeBytes + trimBytes + extensionSizeBytes - (1 + sizeBytes)
      = trimBytes + extensionSizeBytes by omega]
  refine RefinesFrom.require Iff.rfl fun hfields => ?_
  rw [add_of (by omega), pure_bind, sub_of hfields, pure_bind]
  exact refinesFrom_pure fun _ _ h => ⟨_, h⟩

theorem parseHeader_eq {bytes : Bytes} (h : bytes.length ≤ Obu.maxSize) :
    parseHeader bytes = raise (Obu.Header.parse bytes) :=
  parse_eq_of_at refinesFrom_readHeader "OBU header" h

end Checked

end Iamf
