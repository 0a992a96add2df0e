import Iamf.Proofs.Element.Openable
import Iamf.Proofs.Mix.Readable
import Iamf.Proofs.Wire.Blames

/-!
# `Iamf.Proofs.Registry.Blamed`: descriptors and blocks are to blame for themselves

Whatever the body of a descriptor holds, the error it ends in is invalid data. Nearly
all of this is a matter of the errors that the readers throw. The exception is an
audio element: sharing its substreams out can fail like a model that breaks the rules,
and setting a channel count like a broken decoder configuration. Neither happens to an
element that was read, since its layers have been held against its substreams by then.

Parameter blocks look at the registry for one thing only, the layers that carry recon
gain. All other errors of theirs come of bytes alone.

* `AudioElement.blames_read`: which is what this comes to.
* `Parameter.blames_readBlock`: the errors of parameter blocks.
-/

set_option autoImplicit false

namespace Iamf

open Error (IncludesBytes IsInvalid isInvalid)
open Error.IncludesBytes (of_bytes)
open Read (Blames blames_pure blames_throw blames_ensure)

theorem SequenceHeader.blames_read (strict : Bool) : Blames IsInvalid (read strict) :=
  (Read.blames_bytes _).bind fun _ => (blames_ensure (isInvalid rfl)).bind fun _ =>
    Read.blames_byte.bind fun _ => Read.blames_byte.bind fun _ =>
    (Read.blames_finish _ _).bind fun _ => blames_pure _

/-! ### Codec configs -/

namespace CodecConfig

theorem blames_readAacSampleRate : Blames IsInvalid readAacSampleRate := by
  refine (Read.blames_bits 5).bind fun objectType => ?_
  split
  -- Behind an escaped object type the sample rate follows as it does behind others.
  case' isTrue => refine (Read.blames_skipBits 6).bind fun _ => ?_
  all_goals
    refine (Read.blames_bits 4).bind fun index => ?_
    split
    · exact Read.blames_uint24
    · split
      · exact blames_pure _
      · exact blames_throw (isInvalid rfl)

theorem blames_readOpus : Blames IsInvalid readOpus :=
  Read.blames_remaining.bind fun _ => (blames_ensure (isInvalid rfl)).bind fun _ => blames_pure _

theorem blames_readAac : Blames IsInvalid readAac :=
  Read.blames_byte.bind fun _ => (blames_ensure (isInvalid rfl)).bind fun _ =>
    Read.blames_byte.bind fun _ => (blames_ensure (isInvalid rfl)).bind fun _ =>
    Read.blames_byte.bind fun _ => (blames_ensure (isInvalid rfl)).bind fun _ =>
    (Read.blames_skipBytes _).bind fun _ =>
    Read.blames_byte.bind fun _ => (blames_ensure (isInvalid rfl)).bind fun _ =>
    Read.blames_remaining.bind fun _ => (blames_ensure (isInvalid rfl)).bind fun _ =>
    (Read.blames_liftExcept fun _ => blames_readAacSampleRate.parse).bind fun _ => blames_pure _

theorem blames_readFlac : Blames IsInvalid readFlac :=
  (Read.blames_skipBytes _).bind fun _ => Read.blames_remaining.bind fun _ =>
    (blames_ensure (isInvalid rfl)).bind fun _ => blames_pure _

theorem blames_readPcm : Blames IsInvalid readPcm := by
  refine Read.blames_byte.bind fun _ => (blames_ensure (isInvalid rfl)).bind fun _ =>
    Read.blames_byte.bind fun _ => ?_
  split
  · exact Read.blames_uint32.bind fun _ => Read.blames_bytesLeft.bind fun _ =>
      (blames_ensure (isInvalid rfl)).bind fun _ => blames_pure _
  · exact blames_throw (isInvalid rfl)

theorem blames_readDecoder (fourCC : FourCC) : Blames IsInvalid (readDecoder fourCC) := by
  rw [readDecoder]
  repeat' split
  exacts [blames_readOpus, blames_readAac, blames_readFlac, blames_readPcm, blames_pure _]

theorem blames_read (strict : Bool) : Blames IsInvalid (read strict) :=
  Leb128.blames_read.bind fun _ => Read.blames_uint32.bind fun _ =>
    Leb128.blames_read.bind fun _ => Read.blames_int16.bind fun _ =>
    (blames_readDecoder _).bind fun _ => (Read.blames_finish _ _).bind fun _ => blames_pure _

end CodecConfig

/-! ### Values and definitions of parameters -/

section

variable {faults : Error → Prop} [IncludesBytes faults]

theorem Ratio.blames_read : Blames faults read :=
  Read.blames_int16.map _

theorem Animation.blames_read : Blames faults read := by
  refine Leb128.blames_read.bind fun shape => (blames_ensure (of_bytes rfl)).bind fun _ =>
    Ratio.blames_read.bind fun start => ?_
  split
  · exact blames_pure _
  · refine Ratio.blames_read.bind fun finish => ?_
    split
    · exact blames_pure _
    · exact Ratio.blames_read.bind fun _ => Read.blames_byte.bind fun _ => blames_pure _

theorem blames_readDemixingMode : Blames faults readDemixingMode :=
  Read.blames_byte.bind fun _ => blames_pure _

theorem GainRow.blames_readGains (flags : UInt32) (slots : List Nat) :
    Blames faults (readGains flags slots) := by
  induction slots with
  | nil => exact blames_pure _
  | cons slot slots ih =>
    rw [readGains]
    split
    · exact Read.blames_byte.bind fun _ => ih.bind fun _ => blames_pure _
    · exact (blames_pure _).bind fun _ => ih.bind fun _ => blames_pure _

theorem GainRow.blames_read : Blames faults read :=
  Leb128.blames_read.bind fun _ => (blames_readGains _ _).bind fun _ => blames_pure _

theorem GainTable.blames_readRows (carrying layers : List Nat) :
    Blames faults (readRows carrying layers) := by
  induction layers with
  | nil => exact blames_pure _
  | cons layer layers ih =>
    rw [readRows]
    split
    · exact GainRow.blames_read.bind fun _ => ih.bind fun _ => blames_pure _
    · exact (blames_pure _).bind fun _ => ih.bind fun _ => blames_pure _

theorem GainTable.blames_read (carrying : List Nat) : Blames faults (read carrying) :=
  (blames_readRows _ _).bind fun _ => blames_pure _

theorem SubblockValue.blames_read (kind : ParameterKind) (carrying : List Nat) :
    Blames faults (read kind carrying) := by
  cases kind with
  | mixGain => exact Animation.blames_read.map _
  | demixing => exact blames_readDemixingMode.map _
  | reconGain => exact (GainTable.blames_read carrying).map _

namespace Parameter

theorem blames_readTimeline (mode : ReadMode) (selfTimed : Bool) (site : Site) :
    Blames faults (readTimeline mode selfTimed site) := by
  cases selfTimed with
  | false => exact blames_pure _
  | true =>
    refine Leb128.blames_read.bind fun duration => Leb128.blames_read.bind
      fun constantDuration => ?_
    split
    · exact Leb128.blames_read.bind fun count => (mode.blames_checkCount _ _).bind fun _ =>
        (blames_ensure (of_bytes rfl)).bind fun _ => blames_pure _
    · exact (blames_ensure (of_bytes rfl)).bind fun _ => blames_pure _

theorem blames_readDefinedSubblock (kind : ParameterKind) (constantDuration : UInt32) :
    Blames faults (readDefinedSubblock kind constantDuration) := by
  have hvalue : ∀ duration, Blames faults (readDefinedValue kind duration) := by
    intro duration
    cases kind with
    | demixing => exact blames_readDemixingMode.bind fun _ => blames_pure _
    | mixGain => exact blames_pure _
    | reconGain => exact blames_pure _
  rw [readDefinedSubblock_eq]
  split
  · exact Leb128.blames_read.bind hvalue
  · exact hvalue _

/-! ### Parameter blocks -/

theorem blames_readBlockTimeline (definition : Parameter) :
    Blames faults (readBlockTimeline definition) := by
  rw [readBlockTimeline]
  split
  · exact blames_pure _
  · refine Leb128.blames_read.bind fun duration => Leb128.blames_read.bind
      fun constantDuration => ?_
    split
    · exact Leb128.blames_read.bind fun _ => blames_pure _
    · exact blames_pure _

theorem blames_readBlockDuration (selfTimed : Bool) (constantDuration : UInt32)
    (defined : Option Subblock) :
    Blames faults (readBlockDuration selfTimed constantDuration defined) := by
  rw [readBlockDuration]
  repeat' split
  exacts [Leb128.blames_read, blames_pure _, blames_pure _]

theorem blames_readBlockSubblock (definition : Parameter) (constantDuration : UInt32)
    (carrying : List Nat) (defined : List Subblock) :
    Blames faults (readBlockSubblock definition constantDuration carrying defined) :=
  (blames_readBlockDuration _ _ _).bind fun _ =>
    (SubblockValue.blames_read _ _).bind fun _ => blames_pure _

/-- Apart from the layers that carry recon gain, all that a block needs stands in its
bytes and in its definition. -/
theorem blames_readBlockOf (mode : ReadMode) {registry : Registry} {definition : Parameter}
    (hcarrying : ∀ error, definition.carryingLayers registry = .error error → faults error) :
    Blames faults (readBlockOf mode registry definition) := by
  have hrest : ∀ (timeline : Timeline) (carrying : List Nat),
      Blames faults (Read.timesWith timeline.count.toNat definition.subblocks
        (readBlockSubblock definition timeline.constantDuration carrying) >>= fun subblocks =>
          Read.finish .parameterBlock mode.strict >>= fun _ =>
            pure { definition with
              duration := timeline.duration
              constantDuration := timeline.constantDuration
              subblocks := subblocks.1 }) := fun timeline carrying =>
    (Blames.timesWith (fun _ => blames_readBlockSubblock _ _ _ _) _ _).bind fun _ =>
      (Read.blames_finish _ _).bind fun _ => blames_pure _
  -- The number of subblocks is tested early for some blocks, and then all go on alike.
  refine (blames_readBlockTimeline definition).bind fun timeline =>
    (blames_ensure (of_bytes rfl)).bind fun _ =>
    (Read.blames_liftExcept hcarrying).bind fun carrying => ?_
  split
  · exact (mode.blames_checkCount _ _).bind fun _ => hrest timeline carrying
  · exact hrest timeline carrying

theorem blames_readBlock (mode : ReadMode) {registry : Registry}
    (hcarrying : ∀ definition ∈ registry.parameters, ∀ error,
      definition.carryingLayers registry = .error error → faults error) :
    Blames faults (readBlock mode registry) := by
  refine Leb128.blames_read.bind fun id => ?_
  split
  · exact blames_pure _
  · rename_i definition hfind
    exact (blames_readBlockOf mode (hcarrying definition (List.mem_of_find?_eq_some hfind))).map _

end Parameter

end

namespace Parameter

theorem blames_readDefinition (mode : ReadMode) (kind : ParameterKind) (site : Site)
    (scope : Scope) : Blames IsInvalid (readDefinition mode kind site scope) :=
  Leb128.blames_read.bind fun _ => Leb128.blames_read.bind fun _ =>
    Read.blames_byte.bind fun _ => (blames_ensure (isInvalid rfl)).bind fun _ =>
    (blames_ensure (isInvalid rfl)).bind fun _ => (blames_readTimeline _ _ _).bind fun _ =>
    (blames_ensure (isInvalid rfl)).bind fun _ =>
    ((blames_readDefinedSubblock _ _).times _).bind fun _ => blames_pure _

end Parameter

/-! ### Audio elements -/

theorem OutputGain.blames_read : Blames IsInvalid read :=
  Read.blames_byte.bind fun _ => Ratio.blames_read.bind fun _ => blames_pure _

theorem Layer.blames_read : Blames IsInvalid read := by
  have houtput : ∀ present, Blames IsInvalid (readOutputGain present) := by
    intro present
    cases present with
    | true => exact OutputGain.blames_read.map _
    | false => exact blames_pure _
  rw [read_eq]
  exact Read.blames_byte.bind fun _ => Read.blames_byte.bind fun _ =>
    Read.blames_byte.bind fun _ => (houtput _).bind fun _ => blames_pure _

namespace AudioElement

theorem blames_readScalable (substreamCount : Nat) :
    Blames IsInvalid (readScalable substreamCount) :=
  Read.blames_byte.bind fun _ => (blames_ensure (isInvalid rfl)).bind fun _ =>
    (Layer.blames_read.times _).bind fun _ => (blames_ensure (isInvalid rfl)).bind fun _ =>
    (blames_ensure (isInvalid rfl)).bind fun _ => blames_pure _

theorem blames_readAmbisonics (substreamCount : Nat) :
    Blames IsInvalid (readAmbisonics substreamCount) := by
  refine Leb128.blames_read.bind fun mode => ?_
  split
  · exact blames_pure _
  · refine Read.blames_byte.bind fun channels => Read.blames_byte.bind fun count =>
      (blames_ensure (isInvalid rfl)).bind fun _ => (blames_ensure (isInvalid rfl)).bind fun _ => ?_
    split
    · exact (Read.blames_bytes _).bind fun _ => blames_pure _
    · exact Read.blames_byte.bind fun _ => (Ratio.blames_read.times _).bind fun _ => blames_pure _

theorem blames_skipConfig : Blames IsInvalid skipConfig :=
  Leb128.blames_read.bind fun _ => Read.blames_skipBytes _

theorem blames_readParameter (mode : ReadMode) (element : UInt32) (site : Site)
    (parameters : ParameterList) :
    Blames IsInvalid (readParameter mode element site parameters) := by
  refine Leb128.blames_read.bind fun code => ?_
  split
  · exact blames_throw (isInvalid rfl)
  · exact (Parameter.blames_readDefinition _ _ _ _).bind fun _ =>
      Read.blames_byte.bind fun _ => blames_pure _
  · exact (Parameter.blames_readDefinition _ _ _ _).bind fun _ => blames_pure _
  · exact blames_skipConfig.bind fun _ => blames_pure _

theorem blames_readSubstream (config : CodecConfig) : Blames IsInvalid (readSubstream config) :=
  Leb128.blames_read.bind fun _ => blames_pure _

theorem blames_readLayers (kind : ElementKind) (substreamCount : Nat) :
    Blames IsInvalid (readLayers kind substreamCount) := by
  cases kind with
  | channel => exact blames_readScalable _
  | scene => exact blames_readAmbisonics _
  | reserved code => exact blames_skipConfig.bind fun _ => blames_pure _

theorem blames_readContents (mode : ReadMode) (registry : Registry) (id : UInt32)
    (kind : ElementKind) (config : CodecConfig) :
    Blames IsInvalid (readContents mode registry id kind config) := by
  rw [readContents_eq]
  exact Leb128.blames_read.bind fun _ => (mode.blames_checkCount _ _).bind fun _ =>
    ((blames_readSubstream config).times _).bind fun _ => Leb128.blames_read.bind fun _ =>
    (blames_ensure (isInvalid rfl)).bind fun _ =>
    (Blames.iterate (blames_readParameter mode id _) _ _).bind fun _ =>
    (blames_readLayers _ _).bind fun _ => (Read.blames_finish _ _).bind fun _ => blames_pure _

/-- The layers of an element that was read take no more substreams than it has. -/
theorem layeredCount_le_of_readContents {mode : ReadMode} {registry : Registry} {id : UInt32}
    {kind : ElementKind} {config : CodecConfig} {reader after : Reader} {element : AudioElement}
    {definitions : List Parameter}
    (h : readContents mode registry id kind config reader = .ok ((element, definitions), after)) :
    layeredCount element.layers ≤ element.substreams.length := by
  obtain ⟨-, -, _, _, -, hcontents⟩ := readContents_eq_ok h
  by_cases hlayers : element.layers = []
  · rw [hlayers]
    exact Nat.zero_le _
  · exact Nat.le_of_eq (hcontents.layered (.inr hlayers))

/-- An element is to blame for what goes wrong with it: once its contents are read,
its substreams can be shared out, and their channel counts be set. -/
theorem blames_read (mode : ReadMode) (registry : Registry) :
    Blames IsInvalid (read mode registry) := by
  have hcontents : ∀ (id : UInt32) (kind : ElementKind) (config : CodecConfig),
      Blames IsInvalid (readContents mode registry id kind config >>= fun contents =>
        liftExcept (contents.1.assignSubstreams config) >>= fun element =>
          pure (some (element, contents.2))) := by
    intro id kind config
    refine (blames_readContents mode registry id kind config).bind_of
      fun contents reader after h => ?_
    -- The one place with errors that are not invalid data; none of them comes.
    obtain ⟨assigned, hassigned⟩ :=
      exists_assignSubstreams config (layeredCount_le_of_readContents h)
    rw [hassigned]
    exact (blames_pure assigned).bind fun _ => blames_pure _
  refine Leb128.blames_read.bind fun id => (blames_ensure (isInvalid rfl)).bind fun _ =>
    Read.blames_byte.bind fun head => Leb128.blames_read.bind fun configId => ?_
  split
  · split
    · exact blames_pure _
    · exact hcontents id _ _
  · exact blames_throw (isInvalid rfl)

end AudioElement

/-! ### Mix presentations -/

theorem Text.Terminated.blames_readBytes (left : Nat) : Blames IsInvalid (readBytes left) := by
  induction left with
  | zero => exact blames_pure _
  | succ left ih =>
    refine Read.blames_byte.bind fun byte => ?_
    split
    · exact blames_pure _
    · exact ih.bind fun _ => blames_pure _

theorem Text.Terminated.blames_read : Blames IsInvalid read :=
  (blames_readBytes _).bind fun _ => blames_pure _

theorem Annotations.blames_read (labels : List String) : Blames IsInvalid (read labels) := by
  have hgo : ∀ annotations : Annotations, Blames IsInvalid (read.go annotations labels) := by
    induction labels with
    | nil => exact fun annotations => blames_pure _
    | cons label labels ih =>
      exact fun annotations => Text.Terminated.blames_read.bind fun text => ih _
  exact hgo {}

theorem AnchoredLoudness.blames_read : Blames IsInvalid read :=
  Read.blames_byte.bind fun _ => Blames.iterate
    (fun _ => Read.blames_byte.bind fun _ => Ratio.blames_read.bind fun _ => blames_pure _) _ _

theorem SubmixLayout.blames_readTarget : Blames IsInvalid readTarget := by
  refine Read.blames_byte.bind fun byte => ?_
  extract_lets code
  split
  · exact blames_pure _
  · split
    · exact blames_pure _
    · exact blames_throw (isInvalid rfl)

theorem SubmixLayout.blames_read : Blames IsInvalid read := by
  have htruePeak : ∀ info, Blames IsInvalid (readTruePeak info) := by
    intro info
    rw [readTruePeak]
    split
    · exact Ratio.blames_read.map _
    · exact blames_pure _
  have hanchored : ∀ info, Blames IsInvalid (readAnchored info) := by
    intro info
    rw [readAnchored]
    split
    · exact AnchoredLoudness.blames_read
    · exact blames_pure _
  have hextension : ∀ info, Blames IsInvalid (skipExtension info) := by
    intro info
    rw [skipExtension]
    split
    · exact Leb128.blames_read.bind fun _ => Read.blames_skipBytes _
    · exact blames_pure _
  rw [read_eq]
  exact blames_readTarget.bind fun _ => Read.blames_byte.bind fun info =>
    Ratio.blames_read.bind fun _ => Ratio.blames_read.bind fun _ =>
    (htruePeak info).bind fun _ => (hanchored info).bind fun _ =>
    (hextension info).bind fun _ => blames_pure _

theorem SubmixElement.blames_read (mode : ReadMode) (registry : Registry) (labels : List String)
    (scope : Scope) : Blames IsInvalid (read mode registry labels scope) := by
  refine Leb128.blames_read.bind fun id => ?_
  split
  · exact (Annotations.blames_read labels).bind fun _ => Read.blames_byte.bind fun _ =>
      Leb128.blames_read.bind fun _ => (Read.blames_skipBytes _).bind fun _ =>
      (Parameter.blames_readDefinition _ _ _ _).bind fun _ =>
      Ratio.blames_read.bind fun _ => blames_pure _
  · exact blames_throw (isInvalid rfl)

theorem Submix.blames_read (mode : ReadMode) (registry : Registry) (labels : List String)
    (scope : Scope) : Blames IsInvalid (read mode registry labels scope) :=
  Leb128.blames_read.bind fun _ => (mode.blames_checkCount _ _).bind fun _ =>
    (Blames.timesWith (SubmixElement.blames_read mode registry labels) _ _).bind fun _ =>
    (Parameter.blames_readDefinition _ _ _ _).bind fun _ => Ratio.blames_read.bind fun _ =>
    Leb128.blames_read.bind fun _ => (mode.blames_checkCount _ _).bind fun _ =>
    (SubmixLayout.blames_read.times _).bind fun _ => blames_pure _

theorem MixPresentation.blames_read (mode : ReadMode) (registry : Registry) :
    Blames IsInvalid (read mode registry) :=
  Leb128.blames_read.bind fun _ => (blames_ensure (isInvalid rfl)).bind fun _ =>
    Leb128.blames_read.bind fun _ => (mode.blames_checkCount _ _).bind fun _ =>
    (Text.Terminated.blames_read.times _).bind fun _ => (Annotations.blames_read _).bind fun _ =>
    Leb128.blames_read.bind fun _ => (mode.blames_checkCount _ _).bind fun _ =>
    (Blames.timesWith (Submix.blames_read mode registry _) _ _).bind fun _ =>
    (Read.blames_finish _ _).bind fun _ => blames_pure _

end Iamf
