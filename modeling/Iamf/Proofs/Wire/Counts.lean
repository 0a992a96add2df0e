import Iamf.Proofs.Wire.Spending

/-!
# `Iamf.Proofs.Wire.Counts`: counts that are tested early

A count is held against the bytes that are left as soon as it is read. What is counted
takes a byte or more for each item, so a body that fails the test fails in any case, and
a reader that does not test (`ReadMode.withoutCounts`) gives the same results for the same
bodies. The two differ in the error alone: the one says which list is too long, the other
goes on until something is wrong, which need not be the end of the body.

`Forestalls` says so of two outcomes and `Read.Forestalls` of two programs. It goes along
with `bind` and the loops as long as the first program stays inside of a byte
(`Read.Spends`); at a test, what is behind has to demand as many bytes as were counted
(`Read.Demands`).

* `Read.forestalls_checkCount_bind`: a test, and what is behind it.
* `Parameter.forestalls_readTimeline_bind`: the test of a definition, which stands in its
  timeline while the items come later.
* `Parameter.readBlockSubblock_of_uncarried`: why recon gain without layers is not tested.
* `ReadMode.forestalls_withoutCounts`: all readers that test a count.
-/

set_option autoImplicit false

namespace Iamf

/-- The same mode without the early tests of counts. -/
def ReadMode.withoutCounts (mode : ReadMode) : ReadMode :=
  { mode with earlyCounts := false }

theorem ReadMode.checkCount_apply (mode : ReadMode) (count : Nat) (subject : String)
    (reader : Reader) :
    mode.checkCount count subject reader
      = if mode.earlyCounts = true → count ≤ reader.bytesLeft then .ok ((), reader)
        else .error (.truncated subject) := by
  show (ensure (mode.earlyCounts = true → count ≤ reader.bytesLeft) (.truncated subject) :
    Read Unit) reader = _
  rw [ensure]
  split <;> rfl

/-- Without the tests, a test does nothing. -/
theorem ReadMode.checkCount_withoutCounts (mode : ReadMode) (count : Nat) (subject : String) :
    mode.withoutCounts.checkCount count subject = pure () := by
  funext reader
  rw [checkCount_apply, if_pos nofun]
  rfl

/-- What is counted, by the name that an early test reports. -/
def countedSubjects : List String :=
  ["language labels", "submixes", "submix elements", "submix layouts",
    "audio substream ids", "subblock durations", "parameter block subblocks"]

/-- Two outcomes that are alike, except that the first one may report that there is not
enough left for a list where the second one has some other error. -/
structure Forestalls {α : Type} (early plain : Except Error α) : Prop where
  /-- The same is accepted, with the same results. -/
  ok_iff : ∀ value, early = .ok value ↔ plain = .ok value
  /-- An error that is not the same is that of an early test, in place of another one. -/
  of_error : ∀ error, early = .error error →
    plain = .error error
      ∨ (∃ subject ∈ countedSubjects, error = .truncated subject) ∧ ∃ later, plain = .error later

namespace Forestalls

variable {α β : Type} {early plain : Except Error α}

theorem refl (outcome : Except Error α) : Forestalls outcome outcome :=
  ⟨fun _ => .rfl, fun _ h => .inl h⟩

/-- An early test that fails where the other way fails too. -/
theorem of_truncated {subject : String} (hsubject : subject ∈ countedSubjects) {later : Error}
    (h : plain = .error later) : Forestalls (.error (.truncated subject)) plain := by
  subst h
  constructor
  · intro value
    exact ⟨nofun, nofun⟩
  · rintro _ ⟨⟩
    exact .inr ⟨⟨subject, hsubject, rfl⟩, later, rfl⟩

/-- The outcomes are one, or a test fails early and the other way later. -/
theorem eq_or_error (h : Forestalls early plain) :
    early = plain ∨ ∃ subject ∈ countedSubjects, early = .error (.truncated subject)
      ∧ ∃ later, plain = .error later := by
  cases early with
  | ok value => exact .inl ((h.ok_iff value).1 rfl).symm
  | error error =>
    obtain hsame | ⟨⟨subject, hsubject, rfl⟩, hlater⟩ := h.of_error error rfl
    · exact .inl hsame.symm
    · exact .inr ⟨subject, hsubject, rfl, hlater⟩

/-- Outcomes that are taken further alike are still so. -/
theorem bind {next plainNext : α → Except Error β} (h : Forestalls early plain)
    (hnext : ∀ value, plain = .ok value → Forestalls (next value) (plainNext value)) :
    Forestalls (early >>= next) (plain >>= plainNext) := by
  obtain rfl | ⟨subject, hsubject, rfl, later, rfl⟩ := h.eq_or_error
  · cases early with
    | ok value => exact hnext value rfl
    | error error => exact .refl _
  · exact of_truncated hsubject rfl

end Forestalls

/-! ### Programs -/

namespace Read

variable {α β σ : Type}

/-- From every place inside of a byte on, the first program comes out as the second one
does, unless it tests a count early. -/
def Forestalls (early plain : Read α) : Prop :=
  ∀ ⦃reader : Reader⦄, reader.Within → Iamf.Forestalls (early reader) (plain reader)

theorem Forestalls.refl (program : Read α) : Forestalls program program :=
  fun _ _ => .refl _

theorem Forestalls.bind {early plain : Read α} {next plainNext : α → Read β}
    (h : Forestalls early plain) (hspends : Spends 0 plain)
    (hnext : ∀ value, Forestalls (next value) (plainNext value)) :
    Forestalls (early >>= next) (plain >>= plainNext) :=
  fun _ hreader => (h hreader).bind fun result hresult =>
    hnext result.1 (hspends.within hreader hresult)

/-- In front of the same program. -/
theorem Forestalls.bind_same {early plain : Read α} (h : Forestalls early plain)
    (next : α → Read β) : Forestalls (early >>= next) (plain >>= next) :=
  fun _ hreader => (h hreader).bind fun _ _ => .refl _

/-- Behind the same program. -/
theorem forestalls_bind {program : Read α} {next plainNext : α → Read β} {count : Nat}
    (hspends : Spends count program)
    (hnext : ∀ value, Forestalls (next value) (plainNext value)) :
    Forestalls (program >>= next) (program >>= plainNext) :=
  (Forestalls.refl program).bind hspends.free hnext

theorem Forestalls.map {early plain : Read α} (f : α → β) (h : Forestalls early plain) :
    Forestalls (f <$> early) (f <$> plain) :=
  h.bind_same fun value => pure (f value)

theorem Forestalls.parse {early plain : Read α} (h : Forestalls early plain) (subject : String)
    (bytes : Bytes) : Iamf.Forestalls (early.parse subject bytes) (plain.parse subject bytes) := by
  have houtcome := h (Reader.within_ofBytes subject bytes)
  simp only [Read.parse]
  obtain heq | ⟨found, hfound, hearly, later, hplain⟩ := houtcome.eq_or_error
  · rw [heq]
    exact .refl _
  · rw [hearly, hplain]
    exact .of_truncated hfound rfl

theorem Forestalls.iterate {step plainStep : σ → Read σ}
    (h : ∀ state, Forestalls (step state) (plainStep state))
    (hspends : ∀ state, Spends 0 (plainStep state)) (count : Nat) (state : σ) :
    Forestalls (iterate step count state) (iterate plainStep count state) := by
  induction count generalizing state with
  | zero => exact .refl _
  | succ count ih =>
    rw [iterate_succ, iterate_succ]
    exact (h state).bind (hspends state) ih

theorem Forestalls.timesWith {item plainItem : σ → Read (α × σ)}
    (h : ∀ state, Forestalls (item state) (plainItem state))
    (hspends : ∀ state, Spends 0 (plainItem state)) (count : Nat) (state : σ) :
    Forestalls (timesWith count state item) (timesWith count state plainItem) :=
  (iterate (fun _ => (h _).bind_same _) (fun _ => (hspends _).bind fun _ => spends_pure _)
    count _).bind_same _

/-- A test that fails forestalls what is behind it, which demands as much as was counted. -/
theorem forestalls_checkCount_bind {mode : ReadMode} {count : Nat} {subject : String}
    (hsubject : subject ∈ countedSubjects) {next plainNext : Unit → Read α}
    (hdemands : Demands count (plainNext ())) (hnext : Forestalls (next ()) (plainNext ())) :
    Forestalls (mode.checkCount count subject >>= next)
      (mode.withoutCounts.checkCount count subject >>= plainNext) := by
  intro reader hreader
  rw [ReadMode.checkCount_withoutCounts, pure_bind]
  -- Only the early reader looks at what is left.
  show Iamf.Forestalls (mode.checkCount count subject reader >>= fun result =>
    next result.1 result.2) _
  rw [ReadMode.checkCount_apply]
  split
  · exact hnext hreader
  · rename_i hfails
    have hshort : reader.bytesLeft < count :=
      Nat.lt_of_not_le fun hle => hfails fun _ => hle
    obtain ⟨later, hlater⟩ := hdemands (hreader.unread_lt hshort)
    exact .of_truncated hsubject hlater

end Read

open Read (Demands Spends forestalls_bind forestalls_checkCount_bind spends_pure spends_ensure)

/-! ### Definitions and blocks of parameters -/

namespace Parameter

/-- What is behind a timeline has a duration for each subblock, unless one duration is
said for all of them. -/
theorem forestalls_readTimeline_bind {α : Type} (mode : ReadMode) (selfTimed : Bool) (site : Site)
    {next : Timeline → Read α}
    (hdemands : ∀ timeline : Timeline, timeline.constantDuration = 0 →
      Demands timeline.count.toNat (next timeline)) :
    Read.Forestalls (readTimeline mode selfTimed site >>= next)
      (readTimeline mode.withoutCounts selfTimed site >>= next) := by
  cases selfTimed with
  | false => exact .refl _
  | true =>
    simp only [readTimeline, if_true, bind_assoc]
    refine forestalls_bind Leb128.spends_read fun duration =>
      forestalls_bind Leb128.spends_read fun constantDuration => ?_
    split
    · rename_i hconstant
      -- The count is read, tested and bounded before the timeline is put together.
      simp only [bind_assoc, pure_bind]
      refine forestalls_bind Leb128.spends_read fun count =>
        forestalls_checkCount_bind (by decide) ?_ (.refl _)
      exact Demands.behind spends_ensure fun _ =>
        hdemands ⟨duration, constantDuration, count⟩ hconstant
    · exact .refl _

theorem forestalls_readDefinition (mode : ReadMode) (kind : ParameterKind) (site : Site)
    (scope : Scope) :
    Read.Forestalls (readDefinition mode kind site scope)
      (readDefinition mode.withoutCounts kind site scope) := by
  refine forestalls_bind Leb128.spends_read fun id => forestalls_bind Leb128.spends_read fun rate =>
    forestalls_bind Read.spends_byte fun flags => forestalls_bind spends_ensure fun _ =>
    forestalls_bind spends_ensure fun _ =>
    forestalls_readTimeline_bind mode _ site fun timeline hconstant => ?_
  rw [hconstant]
  exact Demands.behind spends_ensure fun _ =>
    ((spends_readDefinedSubblock kind).counted _).demands.bind _

/-- A test before recon gain that no layer carries would be wrong: where the duration is
settled too, a subblock takes nothing at all. -/
theorem readBlockSubblock_of_uncarried {definition : Parameter}
    (hkind : definition.kind = .reconGain) {constantDuration : UInt32}
    (hduration : definition.selfTimed = true ∨ constantDuration ≠ 0) (defined : List Subblock)
    (reader : Reader) :
    ∃ subblock, readBlockSubblock definition constantDuration [] defined reader
      = .ok ((subblock, defined.tail), reader) := by
  have hread : ∃ duration, readBlockDuration definition.selfTimed constantDuration defined.head?
      = pure duration := by
    rw [readBlockDuration, if_neg (by rintro ⟨hself, hzero⟩; simp [hself, hzero] at hduration)]
    split
    · exact ⟨_, rfl⟩
    · exact ⟨_, rfl⟩
  obtain ⟨duration, hread⟩ := hread
  rw [readBlockSubblock, hread, hkind]
  exact ⟨_, rfl⟩

theorem forestalls_readBlockOf (mode : ReadMode) (registry : Registry) (definition : Parameter) :
    Read.Forestalls (readBlockOf mode registry definition)
      (readBlockOf mode.withoutCounts registry definition) := by
  refine forestalls_bind (spends_readBlockTimeline definition) fun timeline =>
    forestalls_bind spends_ensure fun _ => ?_
  cases hcarrying : definition.carryingLayers registry with
  | error error => exact .refl _
  | ok carrying =>
    show Read.Forestalls (pure carrying >>= _) (pure carrying >>= _)
    rw [pure_bind, pure_bind]
    split
    -- The test is made just where a subblock takes a byte.
    · rename_i htaking
      exact forestalls_checkCount_bind (by decide)
        ((Spends.countedWith (spends_readBlockSubblock timeline.constantDuration
          (sublist_carryingLayers hcarrying) htaking) _ _).demands.bind _) (.refl _)
    · exact .refl _

theorem forestalls_readBlock (mode : ReadMode) (registry : Registry) :
    Read.Forestalls (readBlock mode registry) (readBlock mode.withoutCounts registry) := by
  refine forestalls_bind Leb128.spends_read fun id => ?_
  split
  · exact .refl _
  · exact (forestalls_readBlockOf mode registry _).map _

end Parameter

/-! ### Audio elements -/

namespace AudioElement

theorem forestalls_readParameter (mode : ReadMode) (element : UInt32) (site : Site)
    (parameters : ParameterList) :
    Read.Forestalls (readParameter mode element site parameters)
      (readParameter mode.withoutCounts element site parameters) := by
  refine forestalls_bind Leb128.spends_read fun code => ?_
  split
  · exact .refl _
  · exact (Parameter.forestalls_readDefinition mode _ _ _).bind
      (Parameter.spends_readDefinition _ _ _ _).free fun _ => .refl _
  · exact (Parameter.forestalls_readDefinition mode _ _ _).bind
      (Parameter.spends_readDefinition _ _ _ _).free fun _ => .refl _
  · exact .refl _

theorem forestalls_readContents (mode : ReadMode) (registry : Registry) (id : UInt32)
    (kind : ElementKind) (config : CodecConfig) :
    Read.Forestalls (readContents mode registry id kind config)
      (readContents mode.withoutCounts registry id kind config) := by
  rw [readContents_eq, readContents_eq]
  have hsubstreams := (spends_readSubstream config).counted
  refine forestalls_bind Leb128.spends_read fun count =>
    forestalls_checkCount_bind (by decide) ((hsubstreams _).demands.bind _) ?_
  refine forestalls_bind (hsubstreams _) fun substreams =>
    forestalls_bind Leb128.spends_read fun parameterCount =>
    forestalls_bind spends_ensure fun _ => ?_
  exact (Read.Forestalls.iterate (forestalls_readParameter mode id _)
    (fun _ => (spends_readParameter _ _ _ _).free) _ _).bind_same _

theorem forestalls_read (mode : ReadMode) (registry : Registry) :
    Read.Forestalls (read mode registry) (read mode.withoutCounts registry) := by
  refine forestalls_bind Leb128.spends_read fun id => forestalls_bind spends_ensure fun _ =>
    forestalls_bind Read.spends_byte fun head =>
    forestalls_bind Leb128.spends_read fun configId => ?_
  split
  · split
    · exact .refl _
    · exact (forestalls_readContents mode registry id _ _).bind_same _
  · exact .refl _

end AudioElement

/-! ### Mix presentations -/

theorem SubmixElement.forestalls_read (mode : ReadMode) (registry : Registry)
    (labels : List String) (scope : Scope) :
    Read.Forestalls (read mode registry labels scope)
      (read mode.withoutCounts registry labels scope) := by
  refine forestalls_bind Leb128.spends_read fun id => ?_
  split
  · exact forestalls_bind (Annotations.spends_read labels) fun _ =>
      forestalls_bind Read.spends_byte fun _ => forestalls_bind Leb128.spends_read fun _ =>
      forestalls_bind (Read.spends_skipBytes _) fun _ =>
      (Parameter.forestalls_readDefinition mode _ _ _).bind_same _
  · exact .refl _

theorem Submix.forestalls_read (mode : ReadMode) (registry : Registry) (labels : List String)
    (scope : Scope) :
    Read.Forestalls (read mode registry labels scope)
      (read mode.withoutCounts registry labels scope) := by
  have helements := SubmixElement.spends_read mode.withoutCounts registry labels
  refine forestalls_bind Leb128.spends_read fun elementCount =>
    forestalls_checkCount_bind (by decide) ((Spends.countedWith helements _ _).demands.bind _) ?_
  refine (Read.Forestalls.timesWith (SubmixElement.forestalls_read mode registry labels)
    (fun _ => (helements _).free) _ _).bind (Spends.countedWith helements _ _).free fun _ => ?_
  refine (Parameter.forestalls_readDefinition mode _ _ _).bind
    (Parameter.spends_readDefinition _ _ _ _).free fun _ =>
    forestalls_bind Ratio.spends_read fun _ => forestalls_bind Leb128.spends_read fun layoutCount =>
    forestalls_checkCount_bind (by decide) ((SubmixLayout.spends_read.counted _).demands.bind _)
      (.refl _)

theorem MixPresentation.forestalls_read (mode : ReadMode) (registry : Registry) :
    Read.Forestalls (read mode registry) (read mode.withoutCounts registry) := by
  refine forestalls_bind Leb128.spends_read fun id => forestalls_bind spends_ensure fun _ =>
    forestalls_bind Leb128.spends_read fun labelCount => forestalls_checkCount_bind (by decide)
      ((Text.Terminated.spends_read.counted _).demands.bind _) ?_
  refine forestalls_bind (Text.Terminated.spends_read.counted _) fun labels =>
    forestalls_bind (Annotations.spends_read _) fun annotations =>
    forestalls_bind Leb128.spends_read fun submixCount => ?_
  have hsubmixes := Submix.spends_read mode.withoutCounts registry labels
  exact forestalls_checkCount_bind (by decide) ((Spends.countedWith hsubmixes _ _).demands.bind _)
    ((Read.Forestalls.timesWith (Submix.forestalls_read mode registry labels)
      (fun _ => (hsubmixes _).free) _ _).bind_same _)

/-! ### All readers -/

/-- The tests of counts are transparent. Whatever the registry, the body of an audio
element, of a mix presentation or of a parameter block is accepted just if it is without
the tests, and with the same result; so is a parameter definition at any place of a body.
Where the error is not the same, it is that of a test, and the other reader fails too. -/
theorem ReadMode.forestalls_withoutCounts (mode : ReadMode) :
    (∀ registry body, Forestalls (AudioElement.parse mode registry body)
        (AudioElement.parse mode.withoutCounts registry body))
      ∧ (∀ registry body, Forestalls (MixPresentation.parse mode registry body)
        (MixPresentation.parse mode.withoutCounts registry body))
      ∧ (∀ registry body, Forestalls (Parameter.parseBlock mode registry body)
        (Parameter.parseBlock mode.withoutCounts registry body))
      ∧ ∀ kind site scope (reader : Reader), reader.Within →
        Forestalls (Parameter.readDefinition mode kind site scope reader)
          (Parameter.readDefinition mode.withoutCounts kind site scope reader) :=
  ⟨fun registry body => (AudioElement.forestalls_read mode registry).parse _ body,
    fun registry body => (MixPresentation.forestalls_read mode registry).parse _ body,
    fun registry body => (Parameter.forestalls_readBlock mode registry).parse _ body,
    fun kind site scope _ hreader =>
      Parameter.forestalls_readDefinition mode kind site scope hreader⟩

/-- A self timed definition that announces 70000 durations and has none. -/
def announcedDurations : Bytes :=
  [0x05, 0x64, 0x00, 0x0A, 0x00, 0xF0, 0xA2, 0x04]

/-- The test reports that the durations are missing; without it, there are too many. -/
theorem ReadMode.forestalls_withoutCounts_announced :
    (Reader.ofBytes "mix presentation" announcedDurations).Within
      ∧ Parameter.readDefinition {} .mixGain {} ⟨[], []⟩
          (.ofBytes "mix presentation" announcedDurations)
        = .error (.truncated "subblock durations")
      ∧ Parameter.readDefinition (withoutCounts {}) .mixGain {} ⟨[], []⟩
          (.ofBytes "mix presentation" announcedDurations)
        = .error (.outOfRange "num_subblocks" 70000)
      ∧ Forestalls
          (Parameter.readDefinition {} .mixGain {} ⟨[], []⟩
            (.ofBytes "mix presentation" announcedDurations))
          (Parameter.readDefinition (withoutCounts {}) .mixGain {} ⟨[], []⟩
            (.ofBytes "mix presentation" announcedDurations)) :=
  ⟨Reader.within_ofBytes _ _, rfl, rfl,
    (forestalls_withoutCounts {}).2.2.2 _ _ _ _ (Reader.within_ofBytes _ _)⟩

end Iamf
