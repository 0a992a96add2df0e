import Iamf.Leb128
import Iamf.Parameter.Basic

/-!
# `Iamf.Parameter.Value`: reading and writing the values of subblocks

Gains are Q7.8 numbers, a down-mixing mode is the top three bits of a byte.
A row of recon gains starts with flags that tell which slots have a gain: bits
0 to 6 stand for the first seven slots, and if bit 7 is set, bits 8 to 12 stand
for the other five. Slots without a gain are zero, and a zero gain is not
written.
-/

set_option autoImplicit false

namespace Iamf

/-- Reads a Q7.8 number. -/
def Ratio.read : Read Ratio :=
  Ratio.ofQ8 <$> Read.int16

/-- The bytes of the nearest Q7.8 number. -/
def Ratio.encode (ratio : Ratio) : Bytes :=
  Bytes.ofInt16 ratio.toQ8

namespace Animation

/-- Reads the course of a gain. -/
def read : Read Animation := do
  let shape ← Leb128.read
  ensure (shape ≤ 2) (.outOfRange "animation_type" shape.toNat)
  let start ← Ratio.read
  if shape = 0 then return step start
  else do
    let finish ← Ratio.read
    if shape = 1 then return linear start finish
    else do
      let control ← Ratio.read
      let controlTime ← Read.byte
      return bezier start finish control controlTime

/-- The bytes of the course of a gain. -/
def encode : Animation → Bytes
  | step start => Leb128.encode 0 ++ start.encode
  | linear start finish => Leb128.encode 1 ++ start.encode ++ finish.encode
  | bezier start finish control controlTime =>
    Leb128.encode 2 ++ start.encode ++ finish.encode ++ control.encode ++ [controlTime]

end Animation

/-- Reads a down-mixing mode. -/
def readDemixingMode : Read UInt8 := do
  let byte ← Read.byte
  return byte >>> 5

/-- The byte of a down-mixing mode; only its low three bits count. -/
def encodeDemixingMode (mode : UInt8) : Bytes :=
  [mode <<< 5]

namespace GainRow

/-- Whether flags announce a gain for a slot. -/
def isFlagged (flags : UInt32) (slot : Nat) : Bool :=
  if slot < 7 then flags.toNat.testBit slot
  else flags.toNat.testBit 7 && flags.toNat.testBit (slot + 1)

/-- The flag bits that announce a gain for a slot. -/
def slotFlags (slot : Nat) : Nat :=
  if slot < 7 then 1 <<< slot else 0x80 ||| 1 <<< (slot + 1)

/-- The row with the given gains, zero on slots beyond them. -/
def ofList (gains : List UInt8) : GainRow :=
  Vector.ofFn fun slot => gains.getD slot 0

/-- Reads the gains of the flagged ones among some slots; the others are zero. -/
def readGains (flags : UInt32) : List Nat → Read (List UInt8)
  | [] => return []
  | slot :: slots => do
    let gain ← if isFlagged flags slot then Read.byte else pure 0
    let gains ← readGains flags slots
    return gain :: gains

/-- Reads a row. -/
def read : Read GainRow := do
  let flags ← Leb128.read
  let gains ← readGains flags (List.range reconGainSlots)
  return ofList gains

/-- The flags of a row: those of every slot whose gain is not zero. -/
def flags (row : GainRow) : Nat :=
  row.toList.zipIdx.foldl
    (fun flags (gain, slot) => if gain = 0 then flags else flags ||| slotFlags slot) 0

/-- The bytes of a row. -/
def encode (row : GainRow) : Bytes :=
  Leb128.encode (UInt32.ofNat row.flags) ++ row.toList.filter (· ≠ 0)

end GainRow

namespace GainTable

/-- The row of a layer; there is none beyond the table, which counts as zero. -/
def row (table : GainTable) (layer : Nat) : GainRow :=
  if h : layer < maxLayers then table[layer] else .zero

/-- The table with the given rows, zero on layers beyond them. -/
def ofList (rows : List GainRow) : GainTable :=
  Vector.ofFn fun layer => rows.getD layer .zero

/-- Reads the rows of those among some layers that carry recon gain; the others
are zero. -/
def readRows (carrying : List Nat) : List Nat → Read (List GainRow)
  | [] => return []
  | layer :: layers => do
    let row ← if layer ∈ carrying then GainRow.read else pure .zero
    let rows ← readRows carrying layers
    return row :: rows

/-- Reads a table that has rows for the given layers. -/
def read (carrying : List Nat) : Read GainTable := do
  let rows ← readRows carrying (List.range maxLayers)
  return ofList rows

/-- The bytes of the rows of the given layers. -/
def encode (table : GainTable) (carrying : List Nat) : Bytes :=
  carrying.flatMap fun layer => (table.row layer).encode

end GainTable

namespace SubblockValue

/-- Reads the value of a subblock of a parameter block, recon gain for the
given layers. -/
def read (kind : ParameterKind) (carrying : List Nat) : Read SubblockValue :=
  match kind with
  | .mixGain => mixGain <$> Animation.read
  | .demixing => demixing <$> readDemixingMode
  | .reconGain => reconGain <$> GainTable.read carrying

/-- The bytes of the value of a subblock of a parameter block, recon gain for
the given layers. -/
def encode (carrying : List Nat) : SubblockValue → Bytes
  | mixGain animation => animation.encode
  | demixing mode => encodeDemixingMode mode
  | reconGain table => table.encode carrying

end SubblockValue

end Iamf
