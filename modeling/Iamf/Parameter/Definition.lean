import Iamf.Parameter.Value

/-!
# `Iamf.Parameter.Definition`: reading and writing parameter definitions

A parameter may be defined more than once in a stream. Every definition must
agree with the one before it on kind, timing and number of subblocks; its other
values take the place of the older ones. While an OBU is being read, a `Scope`
holds the definitions that came before it and those that it has brought so far.
-/

set_option autoImplicit false

namespace Iamf

/-- How an OBU body is read. -/
structure ReadMode where
  /-- Whether bytes that are left over at the end of a body are an error. -/
  strict : Bool := false
  /-- Whether a count is held against the bytes that are left as soon as it is
  read. Every counted item takes at least one byte, so a body that fails this
  test fails later without it; the test only saves the work until then. -/
  earlyCounts : Bool := true
  deriving DecidableEq, Repr

/-- Fails early when there are fewer bytes left than items to come. -/
def ReadMode.checkCount (mode : ReadMode) (count : Nat) (subject : String) : Read Unit := do
  let left ← Read.bytesLeft
  ensure (mode.earlyCounts = true → count ≤ left) (.truncated subject)

/-- Refuses more subblocks than a parameter may have. -/
def checkSubblockCount (count : UInt32) : Read Unit :=
  ensure (count.toNat ≤ maxSubblocks) (.outOfRange "num_subblocks" count.toNat)

/-- A list of definitions with a definition in the place of the first one of the
same id, `combine`d with it, or else behind all others. -/
def Parameter.putInto (combine : (old latest : Parameter) → Parameter)
    (definition : Parameter) : List Parameter → List Parameter
  | [] => [definition]
  | old :: others =>
    if old.id = definition.id then combine old definition :: others
    else old :: putInto combine definition others

/-- The parameter definitions known while an OBU is read. -/
structure Scope where
  /-- Definitions from before this OBU. -/
  known : List Parameter
  /-- Definitions that this OBU has brought, the latest of each id. -/
  pending : List Parameter := []
  deriving DecidableEq, Repr

namespace Scope

/-- The latest definition of an id. -/
def find? (scope : Scope) (id : UInt32) : Option Parameter :=
  scope.pending.find? (·.id = id) <|> scope.known.find? (·.id = id)

/-- Makes a definition the latest of its id. -/
def store (scope : Scope) (definition : Parameter) : Scope :=
  { scope with pending := definition.putInto (fun _ latest => latest) scope.pending }

end Scope

/-- Where a definition stands. -/
structure Site where
  /-- The audio element that it is about. -/
  element : Option UInt32 := none
  /-- The frame size of that element's first substream. -/
  frameSize : Option UInt32 := none
  deriving DecidableEq, Repr

namespace Parameter

/-- What a definition says about its timeline. -/
structure Timeline where
  /-- The whole duration. -/
  duration : UInt32
  /-- The duration of every subblock, or zero if each has its own. -/
  constantDuration : UInt32
  /-- The number of subblocks. -/
  count : UInt32
  deriving DecidableEq, Repr

/-- Reads the timeline of a definition. A definition that is not self timed has
none of its own; it stands for one frame. -/
def readTimeline (mode : ReadMode) (selfTimed : Bool) (site : Site) : Read Timeline :=
  if selfTimed then do
    let duration ← Leb128.read
    let constantDuration ← Leb128.read
    let count ←
      if constantDuration = 0 then do
        let count ← Leb128.read
        mode.checkCount count.toNat "subblock durations"
        pure count
      else pure (impliedSubblocks duration constantDuration)
    checkSubblockCount count
    return { duration, constantDuration, count }
  else
    let frameSize := site.frameSize.getD 0
    return { duration := frameSize, constantDuration := frameSize, count := 0 }

/-- Reads one subblock of a definition. Only down-mixing has a value there. -/
def readDefinedSubblock (kind : ParameterKind) (constantDuration : UInt32) :
    Read Subblock := do
  let duration ← if constantDuration = 0 then Leb128.read else pure constantDuration
  match kind with
  | .demixing => do
    let mode ← readDemixingMode
    return { duration, value := .demixing mode }
  | kind => return .empty kind duration

/-- Reads a parameter definition of the given kind. It must agree with an
earlier one of its id, whose link to an audio element it keeps. -/
def readDefinition (mode : ReadMode) (kind : ParameterKind) (site : Site) (scope : Scope) :
    Read (Parameter × Scope) := do
  let id ← Leb128.read
  let old := scope.find? id
  let rate ← Leb128.read
  -- One bit of timing, seven reserved.
  let flags ← Read.byte
  let selfTimed := !flags.toNat.testBit 7
  ensure (old.all (·.kind = kind)) (.inconsistentParameter id .kind)
  ensure (old.all (·.selfTimed = selfTimed)) (.inconsistentParameter id .timing)
  let timeline ← readTimeline mode selfTimed site
  ensure (old.all (·.subblocks.length = timeline.count.toNat))
    (.inconsistentParameter id .subblockCount)
  let subblocks ← Read.times timeline.count.toNat
    (readDefinedSubblock kind timeline.constantDuration)
  let definition := {
    id, kind, rate, selfTimed
    duration := timeline.duration
    constantDuration := timeline.constantDuration
    subblocks
    element := match old with
      | some old => old.element
      | none => site.element }
  return (definition, scope.store definition)

/-- Whether the subblocks are what durations and kind say. -/
def checkTimeline (parameter : Parameter) : Except Error Unit := do
  if parameter.constantDuration ≠ 0 then
    let implied := impliedSubblocks parameter.duration parameter.constantDuration
    ensure (implied.toNat = parameter.subblocks.length)
      (.invalidModel (.subblockCount parameter.id parameter.subblocks.length implied))
  match parameter.subblocks.find? (·.kind ≠ parameter.kind) with
  | some subblock =>
    throw (.invalidModel (.subblockKind subblock.kind parameter.kind parameter.id))
  | none => return ()

/-- The bytes of a timeline: the durations, and the number of subblocks where
the durations do not imply it. -/
def encodeTimeline (parameter : Parameter) : Bytes :=
  Leb128.encode parameter.duration ++ Leb128.encode parameter.constantDuration
    ++ if parameter.constantDuration = 0 then
      Leb128.encode (UInt32.ofNat parameter.subblocks.length) else []

/-- The bytes of one subblock of a definition. -/
def encodeDefinedSubblock (constantDuration : UInt32) (subblock : Subblock) : Bytes :=
  (if constantDuration = 0 then Leb128.encode subblock.duration else [])
    ++ match subblock.value with
      | .demixing mode => encodeDemixingMode mode
      | _ => []

/-- The bytes of a parameter definition. -/
def encodeDefinition (parameter : Parameter) : Except Error Bytes := do
  let head := Leb128.encode parameter.id ++ Leb128.encode parameter.rate
    ++ [if parameter.selfTimed then 0x00 else 0x80]
  if parameter.selfTimed then
    parameter.checkTimeline
    return head ++ parameter.encodeTimeline
      ++ parameter.subblocks.flatMap (encodeDefinedSubblock parameter.constantDuration)
  else return head

end Parameter

end Iamf
