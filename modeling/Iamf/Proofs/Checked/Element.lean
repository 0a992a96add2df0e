import Iamf.Element.Wire
import Iamf.Proofs.Checked.Parameter
import Iamf.Proofs.Checked.Rewriting
import Iamf.Proofs.Element.Readable
import Iamf.Proofs.Element.Written
import Iamf.Proofs.Registry.Coherent
import Mathlib.Data.List.Perm.Subperm

/-!
# `Iamf.Proofs.Checked.Element`: audio elements

The readers of audio elements with checked arithmetic. Substreams are numbered while
they are read, from the number of those registered on; the layers are added up; the size
of a projection matrix is computed.

* `refines_readScalable`, `refines_readAmbisonics`: layers.
* `refines_readContents`: an element before its substreams are shared out.
* `parseAudioElement_eq`: what comes of a whole body.
-/

set_option autoImplicit false

namespace Iamf.Checked

/-! ### Scalable layers -/

/-- Reads the output gain of a layer, if there is one. -/
def readOutputGain (present : Bool) : Parse (Option OutputGain) :=
  if present then do
    let flags ← bits 6
    skipBits 2
    let gain ← readRatio
    return some { flags := UInt8.ofNat flags, gain }
  else return none

/-- A channel layer with a layout from the table of scalable layouts. -/
def scalableLayer (loudspeakerLayout substreamCount coupledCount : UInt8) : Parse Layer := do
  let channels ← add 16 substreamCount.toNat coupledCount.toNat
  return {
    channelLayout := ChannelLayout.scalable[loudspeakerLayout.toNat]?.getD
      (.unspecified (UInt16.ofNat channels))
    loudspeakerLayout
    substreamCount
    coupledCount }

/-- Reads a scalable layer. -/
def readLayer : Parse Layer := do
  let loudspeakerLayout ← bits 4
  let hasOutputGain ← flag
  let hasReconGain ← flag
  skipBits 2
  let substreamCount ← uint8
  let coupledCount ← uint8
  let outputGain ← readOutputGain hasOutputGain
  let layer ← scalableLayer (UInt8.ofNat loudspeakerLayout) substreamCount coupledCount
  return { layer with hasReconGain, outputGain }

/-- Reads the layers of a channel element. -/
def readScalable (substreamCount : Nat) : Parse (List Layer) := do
  let count ← bits 3
  skipBits 5
  require (count ≤ maxLayers) (.outOfRange "num_layers" count)
  let layers ← times count readLayer
  let used ← sum 64 (layers.map (·.substreamCount.toNat))
  require (used ≤ substreamCount) (.invalidData (.tooManyLayered used substreamCount))
  if used < substreamCount then do
    let left ← sub substreamCount used
    fail (.invalidData (.unusedSubstreams left))
  else return layers

theorem refines_readOutputGain (present : Bool) :
    Refines (readOutputGain present) (Layer.readOutputGain present) := by
  rw [readOutputGain, Layer.readOutputGain]
  split
  · rw [OutputGain.read, map_eq_pure_bind, bind_assoc]
    refine RefinesFrom.reserved (by decide) (by decide) fun byte => ?_
    rw [bind_assoc]
    refine refines_readRatio.bind fun gain => ?_
    rw [pure_bind, ofNat_shiftRight byte 2 2 rfl (by decide)]
    exact refines_pure _
  · exact refines_pure _

theorem scalableLayer_of (loudspeakerLayout substreamCount coupledCount : UInt8) :
    scalableLayer loudspeakerLayout substreamCount coupledCount
      = pure (Layer.scalable loudspeakerLayout substreamCount coupledCount) := by
  have hfirst := substreamCount.toNat_lt
  have hsecond := coupledCount.toNat_lt
  have hsum : UInt16.ofNat (substreamCount.toNat + coupledCount.toNat)
      = substreamCount.toUInt16 + coupledCount.toUInt16 := by
    apply UInt16.toNat_inj.1
    rw [UInt16.toNat_ofNat', UInt16.toNat_add, UInt8.toNat_toUInt16, UInt8.toNat_toUInt16]
  rw [scalableLayer, add_of (by omega), pure_bind, hsum]
  rfl

theorem refines_readLayer : Refines readLayer Layer.read := by
  rw [Layer.read_eq]
  -- A byte of four fields, of which the last one is passed over.
  refine refines_of_at fun offset => RefinesFrom.open_byte (by decide) (rfl : 4 + 4 = 8) fun head =>
    RefinesFrom.flag (rfl : 4 + (1 + 3) = 8) (RefinesFrom.flag (rfl : 5 + (1 + 2) = 8)
      (RefinesFrom.pass (rfl : 6 + (2 + 0) = 8) (RefinesFrom.close_byte ?_)))
  refine RefinesFrom.of_aligned (refines_uint8.bind fun _ => refines_uint8.bind fun _ =>
    (refines_readOutputGain _).bind fun _ => ?_)
  rw [scalableLayer_of, pure_bind, ofNat_shiftRight head 4 4 rfl (by decide)]
  exact refines_pure _

/-- The layers take no more substreams than there are numbers for. -/
theorem layeredCount_eq (layers : List Layer) :
    AudioElement.layeredCount layers = (layers.map (·.substreamCount.toNat)).sum := by
  rw [AudioElement.layeredCount, List.sum, List.foldr_map]

theorem layeredCount_le (layers : List Layer) :
    AudioElement.layeredCount layers ≤ 255 * layers.length := by
  induction layers with
  | nil => exact Nat.zero_le _
  | cons layer layers ih =>
    have hlt := layer.substreamCount.toNat_lt
    rw [AudioElement.layeredCount] at ih ⊢
    rw [List.foldr_cons, List.length_cons]
    omega

theorem refines_readScalable (substreamCount : Nat) :
    Refines (readScalable substreamCount) (AudioElement.readScalable substreamCount) := by
  refine RefinesFrom.reserved (by decide) (rfl : 3 + 5 = 8) fun head => ?_
  have hcount : head.toNat >>> 5 = (head >>> 5).toNat := by
    rw [UInt8.toNat_shiftRight]
    rfl
  rw [hcount]
  refine RefinesFrom.require Iff.rfl fun hlayers => ?_
  refine ((refines_readLayer.times _).noting fun _ _ _ hread => (Read.times_eq_ok hread).1).bind
    fun layers => RefinesFrom.given fun hlength => ?_
  have hused := layeredCount_le layers
  have hsum := layeredCount_eq layers
  rw [maxLayers] at hlayers
  rw [sum_of (by omega), pure_bind, ← hsum]
  refine RefinesFrom.require Iff.rfl fun hle => ?_
  split
  · rename_i hlt
    rw [sub_of hle, pure_bind, ensure, if_neg (by omega)]
    exact fun _ _ _ => .error _
  · rw [ensure_of (by omega), pure_bind]
    exact refines_pure _

/-! ### Scenes -/

/-- Whether a number of channels is the square of one of some numbers. -/
def isSquareOf (channels : UInt8) : List Nat → Parse Bool
  | [] => return false
  | root :: roots => do
    let square ← mul 16 root root
    if square = channels.toNat then return true else isSquareOf channels roots

/-- The channel ids of ambisonic components. -/
def componentIds : List UInt8 → Parse (List UInt16)
  | [] => return []
  | component :: components => do
    let id ← add 16 ambisonicBase.toNat component.toNat
    let ids ← componentIds components
    return UInt16.ofNat id :: ids

/-- Reads the layer of a scene. -/
def readAmbisonics (substreamCount : Nat) : Parse (List Layer) := do
  let mode ← number
  if 1 < mode then return []
  else do
    let channels ← uint8
    let count ← uint8
    require (count.toNat = substreamCount)
      (.invalidData (.sceneSubstreamCount count substreamCount))
    let isFullOrder ← isSquareOf channels (List.range' 1 16)
    require (isFullOrder = true) (.outOfRange "output_channel_count" channels.toNat)
    if mode = 0 then do
      let components ← bytes channels.toNat
      let ids ← componentIds components
      return [{
        channelLayout := .custom ids
        substreamCount := count
        ambisonicsMode := some .mono }]
    else do
      let coupledCount ← uint8
      let columns ← add 64 count.toNat coupledCount.toNat
      let size ← mul 64 columns channels.toNat
      let matrix ← times size readRatio
      return [{
        channelLayout := .ambisonic channels.toUInt16
        substreamCount := count
        coupledCount
        ambisonicsMode := some .projection
        demixingMatrix := matrix }]

theorem isSquareOf_of (channels : UInt8) {roots : List Nat} (h : ∀ root ∈ roots, root ≤ 16) :
    isSquareOf channels roots = pure (roots.any fun root => root * root = channels.toNat) := by
  induction roots with
  | nil => rfl
  | cons root roots ih =>
    have hsquare := Nat.mul_le_mul (h root List.mem_cons_self) (h root List.mem_cons_self)
    rw [isSquareOf, mul_of (by omega), pure_bind,
      ih fun root hmem => h root (List.mem_cons_of_mem _ hmem), List.any_cons]
    split
    · rename_i heq
      rw [decide_eq_true heq, Bool.true_or]
    · rename_i hne
      rw [decide_eq_false hne, Bool.false_or]

theorem componentIds_of (components : List UInt8) :
    componentIds components
      = pure (components.map fun component => ambisonicBase + component.toUInt16) := by
  induction components with
  | nil => rfl
  | cons component components ih =>
    have hlt := component.toNat_lt
    have hbase : ambisonicBase.toNat = 1024 := rfl
    have hid : UInt16.ofNat (ambisonicBase.toNat + component.toNat)
        = ambisonicBase + component.toUInt16 := by
      apply UInt16.toNat_inj.1
      rw [UInt16.toNat_ofNat', UInt16.toNat_add, UInt8.toNat_toUInt16]
    rw [componentIds, add_of (by omega), pure_bind, ih, pure_bind, hid]
    rfl

theorem refines_readAmbisonics (substreamCount : Nat) :
    Refines (readAmbisonics substreamCount) (AudioElement.readAmbisonics substreamCount) := by
  refine refines_number.bind fun mode => ?_
  split
  · exact refines_pure _
  refine refines_uint8.bind fun channels => refines_uint8.bind fun count =>
    RefinesFrom.require Iff.rfl fun _ => ?_
  have hroots : ∀ root ∈ List.range' 1 16, root ≤ 16 := by decide
  have hany : ((List.range' 1 16).any fun root => root * root = channels.toNat)
      = AudioElement.isFullOrder channels := by
    rw [AudioElement.isFullOrder, List.range'_eq_map_range, List.any_map]
    simp only [Function.comp_def, Nat.add_comm 1]
  rw [isSquareOf_of _ hroots, pure_bind, hany]
  refine RefinesFrom.require Iff.rfl fun _ => ?_
  split
  · refine (refines_bytes _).bind fun components => ?_
    rw [componentIds_of, pure_bind]
    exact refines_pure _
  -- The counts are bytes, so the size of the matrix is far below a word.
  · refine refines_uint8.bind fun coupledCount => ?_
    have hfirst := count.toNat_lt
    have hsecond := coupledCount.toNat_lt
    have hchannels := channels.toNat_lt
    have hsize : (count.toNat + coupledCount.toNat) * channels.toNat ≤ 512 * 256 :=
      Nat.mul_le_mul (by omega) (by omega)
    rw [add_of (by omega), pure_bind, mul_of (by omega), pure_bind]
    exact (refines_readRatio.times _).bind fun _ => refines_pure _

/-! ### Parameters -/

open AudioElement (ParameterList)

/-- Passes over a config that is not understood. -/
def skipConfig : Parse Unit := do
  let size ← number
  skipBytes size.toNat

/-- Reads one parameter of an element. -/
def readParameter (element : UInt32) (site : Site) (parameters : ParameterList) :
    Parse ParameterList := do
  let code ← number
  match ParameterKind.ofCode? code with
  | some .mixGain => fail (.invalidData (.mixGainInElement element))
  | some .demixing => do
    let (definition, scope) ← readDefinition .demixing site parameters.scope
    let byte ← uint8
    let weight ← shiftRight 8 byte.toNat 4
    return { parameters with
      demixing := some definition, defaultWeight := UInt8.ofNat weight, scope }
  | some .reconGain => do
    let (definition, scope) ← readDefinition .reconGain site parameters.scope
    return { parameters with reconGain := some definition, scope }
  | none => do
    skipConfig
    return parameters

theorem refines_skipConfig : Refines skipConfig AudioElement.skipConfig :=
  refines_number.bind fun _ => refines_skipBytes _

theorem refines_readParameter {mode : ReadMode} (hmode : mode.earlyCounts = true)
    (element : UInt32) (site : Site) (parameters : ParameterList) :
    Refines (readParameter element site parameters)
      (AudioElement.readParameter mode element site parameters) := by
  refine refines_number.bind fun code => ?_
  cases ParameterKind.ofCode? code with
  | none => exact refines_skipConfig.bind fun _ => refines_pure _
  | some kind =>
    cases kind with
    | mixGain => exact refinesFrom_fail _
    | reconGain => exact (refines_readDefinition hmode _ _ _).bind fun _ => refines_pure _
    | demixing =>
      refine (refines_readDefinition hmode _ _ _).bind fun _ => refines_uint8.bind fun byte => ?_
      rw [shiftRight_of (by decide), pure_bind,
        ofNat_shiftRight byte 4 4 rfl (by decide)]
      exact refines_pure _

/-! ### Elements -/

/-- Reads substream ids, and numbers the substreams from a number on. -/
def readSubstreams (config : CodecConfig) (first : Nat) : (count place : Nat) →
    Parse (List Substream)
  | 0, _ => return []
  | count + 1, place => do
    let id ← number
    let streamIndex ← add 64 first place
    let others ← readSubstreams config first count (place + 1)
    return { Substream.ofConfig id config with streamIndex } :: others

/-- Reads the layers of an element of any kind. -/
def readLayers (kind : ElementKind) (substreamCount : Nat) : Parse (List Layer) :=
  match kind with
  | .channel => readScalable substreamCount
  | .scene => readAmbisonics substreamCount
  | .reserved _ => do
    skipConfig
    return []

/-- How many substreams are registered. -/
def streamCount (registry : Registry) : Parse Nat :=
  sum 64 (registry.audioElements.map (·.substreams.length))

/-- Reads the rest of an element after its codec config. -/
def readContents (strict : Bool) (registry : Registry) (id : UInt32) (kind : ElementKind)
    (config : CodecConfig) : Parse (AudioElement × List Parameter) := do
  let count ← number
  checkCount count.toNat "audio substream ids"
  let first ← streamCount registry
  let substreams ← readSubstreams config first count.toNat 0
  let parameterCount ← number
  require (parameterCount = 0 ∨ kind = .channel)
    (.invalidData (.parametersOnElement parameterCount kind id))
  let site := { element := some id, frameSize := substreams.head?.map (·.frameSize) }
  let parameters ← iterate (readParameter id site) parameterCount.toNat
    { scope := { known := registry.parameters } }
  let layers ← readLayers kind substreams.length
  finish .audioElement strict
  let element : AudioElement := {
    id, kind
    codecConfig := config.id
    substreams, layers
    demixing := parameters.demixing
    reconGain := parameters.reconGain
    defaultWeight := parameters.defaultWeight }
  return (element, parameters.scope.pending)

/-- Reads an audio element body against the descriptors before it. -/
def readElement (strict : Bool) (registry : Registry) :
    Parse (Option (AudioElement × List Parameter)) := do
  let id ← number
  require (registry.audioElement? id = none) (.duplicateId .audioElement id)
  let code ← bits 3
  skipBits 5
  let kind := ElementKind.ofCode (UInt8.ofNat code)
  let configId ← number
  let some config := registry.codecConfig? configId
    | fail (.unknownReference .codecConfig configId)
  match config.codec with
  | .unknown _ => return none
  | _ => do
    let (element, parameters) ← readContents strict registry id kind config
    let element ← assignSubstreams element config
    return some (element, parameters)

/-- The audio element of an OBU body. -/
def parseAudioElement (strict : Bool) (registry : Registry) (body : Bytes) :
    Except Stop (Option (AudioElement × List Parameter)) :=
  parse (readElement strict registry) "audio element" body

/-- Substreams numbered from a number on. -/
def numbered (first place : Nat) (substreams : List Substream) : List Substream :=
  (substreams.zipIdx place).map fun (substream, place) =>
    { substream with streamIndex := first + place }

theorem length_numbered (first place : Nat) (substreams : List Substream) :
    (numbered first place substreams).length = substreams.length := by
  rw [numbered, List.length_map, List.length_zipIdx]

theorem head?_numbered (first place : Nat) (substreams : List Substream) :
    (numbered first place substreams).head?.map (·.frameSize)
      = substreams.head?.map (·.frameSize) := by
  cases substreams <;> rfl

theorem refines_readSubstreams {config : CodecConfig} {first count place : Nat}
    (h : first + (place + count) < 2 ^ 64) :
    Refines (readSubstreams config first count place)
      (numbered first place <$> Read.times count (AudioElement.readSubstream config)) := by
  induction count generalizing place with
  | zero => exact refines_pure _
  | succ count ih =>
    rw [times_succ_eq, readSubstreams, AudioElement.readSubstream]
    simp only [map_eq_pure_bind, bind_assoc, pure_bind]
    refine refines_number.bind fun id => ?_
    rw [add_of (by omega), pure_bind]
    exact (ih (by omega)).bind_map fun others => refines_pure _

theorem refines_readLayers (kind : ElementKind) (substreamCount : Nat) :
    Refines (readLayers kind substreamCount) (AudioElement.readLayers kind substreamCount) := by
  cases kind with
  | channel => exact refines_readScalable _
  | scene => exact refines_readAmbisonics _
  | reserved code => exact refines_skipConfig.bind fun _ => refines_pure _

/-- There are no more substreams than ids. -/
theorem streamCount_le {registry : Registry} (h : registry.Coherent) :
    registry.streamCount ≤ 2 ^ 32 := by
  -- The ids are distinct, and they are words of 32 bits.
  have hnodup : (registry.substreams.map (·.id.toNat)).Nodup := by
    rw [← Function.comp_def, ← List.map_map]
    exact h.substreams.map fun _ _ => UInt32.toNat_inj.1
  have hsubset : registry.substreams.map (·.id.toNat) ⊆ List.range (2 ^ 32) := by
    intro number hnumber
    obtain ⟨substream, -, rfl⟩ := List.mem_map.1 hnumber
    exact List.mem_range.2 substream.id.toNat_lt
  have hle := (hnodup.subperm hsubset).length_le
  rwa [List.length_map, List.length_range] at hle

theorem streamCount_of {registry : Registry} (h : registry.Coherent) :
    streamCount registry = pure registry.streamCount := by
  have hsum : registry.streamCount = (registry.audioElements.map (·.substreams.length)).sum := by
    rw [Registry.streamCount, Registry.substreams, List.length_flatMap]
  have hle := streamCount_le h
  rw [streamCount, sum_of (by omega), ← hsum]

theorem refines_readContents {mode : ReadMode} (hmode : mode.earlyCounts = true)
    {registry : Registry} (hregistry : registry.Coherent) (id : UInt32) (kind : ElementKind)
    (config : CodecConfig) :
    Refines (readContents mode.strict registry id kind config)
      (AudioElement.readContents mode registry id kind config) := by
  have hregistered := streamCount_le hregistry
  rw [AudioElement.readContents_eq]
  refine refines_number.bind fun count => (refines_checkCount hmode _ _).bind fun _ => ?_
  have hcount := count.toNat_lt
  rw [streamCount_of hregistry, pure_bind]
  -- The substreams registered and those of the element are both counted by 32 bit words.
  refine (refines_readSubstreams (by omega)).bind_map fun substreams => ?_
  rw [head?_numbered, length_numbered]
  exact refines_number.bind fun _ => RefinesFrom.require Iff.rfl fun _ =>
    (RefinesFrom.iterate (refines_readParameter hmode _ _) _ _).bind fun _ =>
    (refines_readLayers _ _).bind fun _ => (refines_finish _ _).bind fun _ => refines_pure _

theorem refines_readElement {mode : ReadMode} (hmode : mode.earlyCounts = true)
    {registry : Registry} (hregistry : registry.Coherent) :
    Refines (readElement mode.strict registry) (AudioElement.read mode registry) := by
  refine refines_number.bind fun id => RefinesFrom.require Iff.rfl fun _ =>
    RefinesFrom.reserved (by decide) (rfl : 3 + 5 = 8) fun head => ?_
  rw [ofNat_shiftRight head 5 5 rfl (by decide)]
  refine refines_number.bind fun configId => ?_
  cases registry.codecConfig? configId with
  | none => exact refinesFrom_fail _
  | some config =>
    -- All codecs but the unknown ones go on alike.
    have hcontents : Refines
        (readContents mode.strict registry id (ElementKind.ofCode (head >>> 5)) config
          >>= fun result => liftM (assignSubstreams result.1 config) >>= fun element =>
          pure (some (element, result.2)))
        (AudioElement.readContents mode registry id (ElementKind.ofCode (head >>> 5)) config
          >>= fun result => liftExcept (result.1.assignSubstreams config) >>= fun element =>
          pure (some (element, result.2))) :=
      (refines_readContents hmode hregistry id _ config).bind fun result =>
        (refines_lift (assignSubstreams_eq _ _)).bind fun _ => refines_pure _
    simp only
    cases config.codec with
    | unknown fourCC => exact refines_pure _
    | opus => exact hcontents
    | aac => exact hcontents
    | flac => exact hcontents
    | pcm format => exact hcontents

theorem parseAudioElement_eq {mode : ReadMode} (hmode : mode.earlyCounts = true)
    {registry : Registry} (hregistry : registry.Coherent) {body : Bytes}
    (h : body.length ≤ Obu.maxSize) :
    parseAudioElement mode.strict registry body = raise (AudioElement.parse mode registry body) :=
  parse_eq (refines_readElement hmode hregistry) _ h

end Iamf.Checked
