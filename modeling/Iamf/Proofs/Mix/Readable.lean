import Iamf.Mix.Wire
import Iamf.Proofs.Parameter.Definition

/-!
# `Iamf.Proofs.Mix.Readable`: the mix presentations that a reader can give

What is known of a mix presentation that was read: every place with texts has
one per label, gains and loudness values are Q7.8 numbers, the elements that
it refers to are registered, and its definitions are allowed one after the
other, each where it stands.

* `MixPresentation.parse_eq_ok`: a presentation that was read is readable, and
  brings the latest of its definitions to the registry.
-/

set_option autoImplicit false

namespace Iamf

/-! ### Texts -/

namespace Annotations

/-- The annotations that one text for each label makes. -/
def ofTexts (labels texts : List String) : Annotations :=
  (labels.zip texts).foldl (fun annotations (label, text) => annotations.insert label text) {}

theorem read_go_eq_ok {labels : List String} :
    ∀ {before annotations : Annotations} {reader after : Reader},
      read.go before labels reader = .ok (annotations, after) →
      ∃ texts : List String, texts.length = labels.length ∧ annotations
        = (labels.zip texts).foldl (fun annotations (label, text) =>
          annotations.insert label text) before := by
  induction labels with
  | nil =>
    intro before annotations reader after h
    simp only [read.go, Read.pure_eq_ok, Prod.mk.injEq] at h
    exact ⟨[], rfl, h.1⟩
  | cons label labels ih =>
    intro before annotations reader after h
    rw [read.go, Read.bind_eq_ok] at h
    obtain ⟨text, _, -, h⟩ := h
    obtain ⟨texts, hlength, rfl⟩ := ih h
    exact ⟨text :: texts, by simp [hlength], rfl⟩

/-- There is one text for each label. -/
theorem read_eq_ok {labels : List String} {annotations : Annotations} {reader after : Reader}
    (h : read labels reader = .ok (annotations, after)) :
    ∃ texts : List String, texts.length = labels.length
      ∧ annotations = ofTexts labels texts :=
  read_go_eq_ok h

/-- Annotations with one text for each label. -/
def Covers (labels : List String) (annotations : Annotations) : Prop :=
  ∃ texts : List String, texts.length = labels.length ∧ annotations = ofTexts labels texts

end Annotations

/-! ### Layouts -/

/-- Loudness values that were read: for dialogue and albums only. -/
structure AnchoredLoudness.IsReadable (anchored : AnchoredLoudness) : Prop where
  unknown : anchored.unknown = none
  dialogue : ∀ loudness ∈ anchored.dialogue, loudness.IsQ8
  album : ∀ loudness ∈ anchored.album, loudness.IsQ8

/-- A layout that was read. -/
structure SubmixLayout.IsReadable (layout : SubmixLayout) : Prop where
  system : layout.kind = .binaural → layout.soundSystem = none
  integrated : layout.integratedLoudness.IsQ8
  peak : layout.digitalPeak.IsQ8
  truePeak : ∀ peak ∈ layout.truePeak, peak.IsQ8
  anchored : layout.anchored.IsReadable

theorem AnchoredLoudness.IsReadable.empty : IsReadable {} :=
  ⟨rfl, by simp, by simp⟩

theorem AnchoredLoudness.read_eq_ok {reader after : Reader} {anchored : AnchoredLoudness}
    (h : AnchoredLoudness.read reader = .ok (anchored, after)) : anchored.IsReadable := by
  rw [AnchoredLoudness.read, Read.bind_eq_ok] at h
  obtain ⟨count, _, -, h⟩ := h
  -- Codes other than those of dialogue and album change nothing.
  refine Read.iterate_induction IsReadable ?_ .empty h
  intro before reader next after hbefore hstep
  simp only [Read.bind_eq_ok, Read.pure_eq_ok, Prod.mk.injEq] at hstep
  obtain ⟨code, _, -, loudness, _, hloudness, rfl, -⟩ := hstep
  have hq8 := Ratio.read_eq_ok hloudness
  rw [setCode]
  split
  · exact ⟨hbefore.unknown, by rintro _ ⟨⟩; exact hq8, hbefore.album⟩
  · split
    · exact ⟨hbefore.unknown, hbefore.dialogue, by rintro _ ⟨⟩; exact hq8⟩
    · exact hbefore

theorem SubmixLayout.readTarget_eq_ok {reader after : Reader} {kind : LayoutKind}
    {system : Option SoundSystem} (h : readTarget reader = .ok ((kind, system), after)) :
    kind = .binaural → system = none := by
  rw [readTarget, Read.bind_eq_ok] at h
  obtain ⟨byte, _, -, h⟩ := h
  split at h
  · simp only [Read.pure_eq_ok, Prod.mk.injEq] at h
    obtain ⟨⟨rfl, -⟩, -⟩ := h
    exact fun hbinaural => absurd hbinaural (by decide)
  · split at h
    · simp only [Read.pure_eq_ok, Prod.mk.injEq] at h
      obtain ⟨⟨-, rfl⟩, -⟩ := h
      exact fun _ => rfl
    · exact absurd h (by simp [Read.throw_eq_ok])

namespace SubmixLayout

/-- Reads the true peak, if the bits say that it is there. -/
def readTruePeak (info : UInt8) : Read (Option Ratio) :=
  if info.toNat.testBit 0 then some <$> Ratio.read else pure none

/-- Reads the anchored loudness, if the bits say that it is there. -/
def readAnchored (info : UInt8) : Read AnchoredLoudness :=
  if info.toNat.testBit 1 then AnchoredLoudness.read else pure {}

/-- Passes over an extension, if the bits say that it is there. -/
def skipExtension (info : UInt8) : Read Unit :=
  if 4 ≤ info then do
    let size ← Leb128.read
    Read.skipBytes size.toNat
  else pure ()

/-- The reader of a layout, with its optional parts as programs of their own. -/
theorem read_eq : SubmixLayout.read = (do
    let target ← readTarget
    let info ← Read.byte
    let integratedLoudness ← Ratio.read
    let digitalPeak ← Ratio.read
    let truePeak ← readTruePeak info
    let anchored ← readAnchored info
    skipExtension info
    return { kind := target.1, soundSystem := target.2, integratedLoudness, digitalPeak, truePeak,
             anchored }) := by
  refine bind_congr fun target => bind_congr fun info => bind_congr fun integratedLoudness =>
    bind_congr fun digitalPeak => ?_
  simp only [readTruePeak, readAnchored, skipExtension]
  split <;> split <;> split <;> simp only [bind_assoc, pure_bind]

theorem read_eq_ok {reader after : Reader} {layout : SubmixLayout}
    (h : SubmixLayout.read reader = .ok (layout, after)) : layout.IsReadable := by
  simp only [read_eq, Read.bind_eq_ok, Read.pure_eq_ok, Prod.mk.injEq] at h
  obtain ⟨⟨kind, system⟩, _, htarget, info, _, -, integrated, _, hintegrated, peak, _, hpeak,
    truePeak, _, htruePeak, anchored, _, hanchored, _, _, -, rfl, -⟩ := h
  refine ⟨readTarget_eq_ok htarget, Ratio.read_eq_ok hintegrated, Ratio.read_eq_ok hpeak, ?_, ?_⟩
  · rw [readTruePeak] at htruePeak
    split at htruePeak
    · simp only [Read.map_eq_ok, Prod.mk.injEq] at htruePeak
      obtain ⟨value, _, hvalue, rfl, -⟩ := htruePeak
      rintro _ ⟨⟩
      exact Ratio.read_eq_ok hvalue
    · simp only [Read.pure_eq_ok, Prod.mk.injEq] at htruePeak
      obtain ⟨rfl, -⟩ := htruePeak
      simp
  · rw [readAnchored] at hanchored
    split at hanchored
    · exact AnchoredLoudness.read_eq_ok hanchored
    · simp only [Read.pure_eq_ok, Prod.mk.injEq] at hanchored
      obtain ⟨rfl, -⟩ := hanchored
      exact .empty

end SubmixLayout

/-! ### Elements of a submix -/

theorem HeadphonesMode.toNat_shiftRight_six_ofCode (byte : UInt8) :
    (ofCode (byte >>> 6)).code.toNat < 4
      ∧ ofCode (ofCode (byte >>> 6)).code = ofCode (byte >>> 6) := by
  rw [code_ofCode]
  exact ⟨Read.toNat_shiftRight_lt byte (by decide), rfl⟩

namespace SubmixElement

/-- The gain of an element of a submix, and where it stands. -/
def placed (registry : Registry) (member : SubmixElement) : Scope.Placed :=
  (member.gain, {
    element := some member.element
    frameSize := (registry.audioElement? member.element).bind (·.frameSize?) })

/-- An element of a submix that was read. -/
structure IsReadable (registry : Registry) (labels : List String) (member : SubmixElement) :
    Prop where
  resolved : (registry.audioElement? member.element).isSome
  annotations : member.annotations.Covers labels
  headphones : member.headphones.code.toNat < 4
    ∧ HeadphonesMode.ofCode member.headphones.code = member.headphones
  gain : member.gain.kind = .mixGain
  defaultGain : member.defaultGain.IsQ8

theorem read_eq_ok {mode : ReadMode} {registry : Registry} {labels : List String}
    {scope next : Scope} {reader after : Reader} {member : SubmixElement}
    (h : SubmixElement.read mode registry labels scope reader = .ok ((member, next), after)) :
    member.IsReadable registry labels
      ∧ scope.Allows (member.placed registry).2 member.gain ∧ next = scope.store member.gain := by
  rw [SubmixElement.read, Read.bind_eq_ok] at h
  obtain ⟨id, _, -, h⟩ := h
  cases helement : registry.audioElement? id with
  | none => exact absurd h (by simp [helement, Read.throw_eq_ok])
  | some element =>
    simp only [helement, Read.bind_eq_ok, Read.pure_eq_ok, Prod.mk.injEq] at h
    obtain ⟨annotations, _, hannotations, headphones, _, -, size, _, -, _, _, -,
      ⟨gain, stored⟩, _, hgain, defaultGain, _, hdefault, ⟨rfl, rfl⟩, -⟩ := h
    obtain ⟨hkind, rfl, hallows⟩ := Parameter.readDefinition_eq_ok hgain
    refine ⟨⟨?_, Annotations.read_eq_ok hannotations,
      HeadphonesMode.toNat_shiftRight_six_ofCode headphones, hkind,
      Ratio.read_eq_ok hdefault⟩, ?_, rfl⟩
    · rw [helement]
      rfl
    · simp only [placed, helement, Option.bind_some]
      exact hallows

end SubmixElement

/-! ### Submixes -/

namespace Submix

/-- The definitions of a submix, each where it stands. -/
def placed (registry : Registry) (submix : Submix) : List Scope.Placed :=
  submix.elements.map (·.placed registry) ++ [(submix.gain, { element := none })]

/-- A submix that was read. -/
structure IsReadable (registry : Registry) (labels : List String) (submix : Submix) : Prop where
  elementCount : submix.elements.length < 2 ^ 32
  elements : ∀ member ∈ submix.elements, member.IsReadable registry labels
  gain : submix.gain.kind = .mixGain
  defaultGain : submix.defaultGain.IsQ8
  layoutCount : submix.layouts.length < 2 ^ 32
  layouts : ∀ layout ∈ submix.layouts, layout.IsReadable

theorem read_eq_ok {mode : ReadMode} {registry : Registry} {labels : List String}
    {scope next : Scope} {reader after : Reader} {submix : Submix}
    (h : Submix.read mode registry labels scope reader = .ok ((submix, next), after)) :
    submix.IsReadable registry labels
      ∧ scope.AllowsAll (submix.placed registry)
      ∧ next = scope.storeAll (submix.placed registry) := by
  simp only [Submix.read, Read.bind_eq_ok, Read.pure_eq_ok, Prod.mk.injEq] at h
  obtain ⟨elementCount, _, -, _, _, -, ⟨elements, middle⟩, _, helements, ⟨gain, stored⟩, _,
    hgain, defaultGain, _, hdefault, layoutCount, _, -, _, _, -, layouts, _, hlayouts,
    ⟨rfl, rfl⟩, -⟩ := h
  obtain ⟨hkind, rfl, hallows⟩ := Parameter.readDefinition_eq_ok hgain
  obtain ⟨hcount, hmembers, hplaced, rfl⟩ := Read.timesWith_induction
    (motive := fun scope members next => (∀ member ∈ members, member.IsReadable registry labels)
      ∧ scope.AllowsAll (members.map (·.placed registry))
      ∧ next = scope.storeAll (members.map (·.placed registry)))
    (fun scope => ⟨by simp, trivial, rfl⟩)
    (by
      rintro scope reader member middle after others final hmember ⟨hothers, hallows, rfl⟩
      obtain ⟨hreadable, hallowed, rfl⟩ := SubmixElement.read_eq_ok hmember
      refine ⟨?_, ⟨hallowed, hallows⟩, rfl⟩
      rintro _ (_ | hmem)
      · exact hreadable
      · exact hothers _ ‹_›)
    helements
  obtain ⟨hlayoutCount, hlayoutItems⟩ := Read.times_eq_ok hlayouts
  refine ⟨⟨?_, hmembers, hkind, Ratio.read_eq_ok hdefault, ?_, ?_⟩, ?_, ?_⟩
  · exact hcount ▸ elementCount.toNat_lt
  · exact hlayoutCount ▸ layoutCount.toNat_lt
  · intro layout hmem
    obtain ⟨_, _, hread⟩ := hlayoutItems layout hmem
    exact SubmixLayout.read_eq_ok hread
  · exact Scope.allowsAll_append.2 ⟨hplaced, hallows, trivial⟩
  · rw [placed, Scope.storeAll_append]
    rfl

end Submix

/-! ### Presentations -/

namespace MixPresentation

/-- The definitions of a presentation, each where it stands. -/
def placed (registry : Registry) (mix : MixPresentation) : List Scope.Placed :=
  mix.submixes.flatMap (·.placed registry)

/-- A presentation that was read against a registry. -/
structure Readable (registry : Registry) (mix : MixPresentation) : Prop where
  fresh : registry.mixPresentation? mix.id = none
  labelCount : mix.labels.length < 2 ^ 32
  annotations : mix.annotations.Covers mix.labels
  submixCount : mix.submixes.length < 2 ^ 32
  submixes : ∀ submix ∈ mix.submixes, submix.IsReadable registry mix.labels
  allowed : Scope.AllowsAll { known := registry.parameters } (mix.placed registry)

/-- The definitions of a presentation, without their places. -/
theorem map_fst_placed (registry : Registry) (mix : MixPresentation) :
    (mix.placed registry).map (·.1) = mix.parameters := by
  simp only [placed, parameters, Submix.placed, SubmixElement.placed, List.map_flatMap,
    List.map_append, List.map_map, Function.comp_def, List.map_cons, List.map_nil]

/-- A definition of a presentation that was read is a mix gain, and its place leads
to an element that is there, or to none. -/
theorem Readable.of_mem_placed {registry : Registry} {mix : MixPresentation}
    (h : mix.Readable registry) {place : Scope.Placed} (hplace : place ∈ mix.placed registry) :
    place.1.kind = .mixGain
      ∧ ∀ id ∈ place.2.element, (registry.audioElement? id).isSome := by
  obtain ⟨submix, hsubmix, hplace⟩ := List.mem_flatMap.1 hplace
  have hreadable := h.submixes submix hsubmix
  rcases List.mem_append.1 hplace with helement | hgain
  · obtain ⟨member, hmember, rfl⟩ := List.mem_map.1 helement
    have hmemberReadable := hreadable.elements member hmember
    refine ⟨hmemberReadable.gain, ?_⟩
    rintro _ ⟨⟩
    exact hmemberReadable.resolved
  · rw [List.mem_singleton.1 hgain]
    exact ⟨hreadable.gain, by simp⟩

/-- A presentation that was read is readable, and it brings the latest of its
definitions. -/
theorem parse_eq_ok {mode : ReadMode} {registry : Registry} {body : Bytes}
    {mix : MixPresentation} {definitions : List Parameter}
    (h : parse mode registry body = .ok (mix, definitions)) :
    mix.Readable registry ∧ definitions = (Scope.storeAll { known := registry.parameters }
      (mix.placed registry)).pending := by
  rw [parse, Read.parse_eq_ok] at h
  obtain ⟨after, h⟩ := h
  simp only [read, Read.bind_eq_ok, Read.ensure_eq_ok, Read.pure_eq_ok, Prod.mk.injEq] at h
  obtain ⟨id, _, -, _, _, ⟨hfresh, -⟩, labelCount, _, -, _, _, -, labels, _, hlabels,
    annotations, _, hannotations, submixCount, _, -, _, _, -, ⟨submixes, scope⟩, _, hsubmixes,
    _, _, -, ⟨rfl, rfl⟩, -⟩ := h
  obtain ⟨hcount, hreadable, hallowed, rfl⟩ := Read.timesWith_induction
    (motive := fun scope submixes next =>
      (∀ submix ∈ submixes, submix.IsReadable registry labels)
      ∧ scope.AllowsAll (submixes.flatMap (·.placed registry))
      ∧ next = scope.storeAll (submixes.flatMap (·.placed registry)))
    (fun scope => ⟨by simp, trivial, rfl⟩)
    (by
      rintro scope reader submix middle after others final hsubmix ⟨hothers, hallows, rfl⟩
      obtain ⟨hreadable, hallowed, rfl⟩ := Submix.read_eq_ok hsubmix
      refine ⟨?_, ?_, ?_⟩
      · rintro _ (_ | hmem)
        · exact hreadable
        · exact hothers _ ‹_›
      · exact Scope.allowsAll_append.2 ⟨hallowed, hallows⟩
      · rw [List.flatMap_cons, Scope.storeAll_append])
    hsubmixes
  refine ⟨⟨hfresh, ?_, Annotations.read_eq_ok hannotations, ?_, hreadable, hallowed⟩, rfl⟩
  · rw [(Read.times_eq_ok hlabels).1]
    exact labelCount.toNat_lt
  · exact hcount ▸ submixCount.toNat_lt

end MixPresentation

end Iamf
