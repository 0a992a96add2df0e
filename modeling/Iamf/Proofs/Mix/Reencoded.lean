import Iamf.Proofs.Mix.Written
import Iamf.Proofs.Text.Lossy

/-!
# `Iamf.Proofs.Mix.Reencoded`: mix presentations that were read can be written again

Of a presentation that was read all definitions can be written, and all numbers. Two
things may have no bytes: a loudspeaker layout whose sound system is not known, and a
text that became too long when its damaged parts were replaced. Where there is neither,
what is written is read as the same presentation and brings the same definitions. What
was passed over is not written: extensions, anchors that are not known, and all but the
first text of a label that comes twice.

* `texts`: all texts that are written of a presentation.
* `Readable.exists_encode_iff`: which readable presentations can be written.
* `encode_of_parseMix`: what is written of a presentation that was read.
-/

set_option autoImplicit false

namespace Iamf

/-- Definitions that are allowed one after the other each have a timeline. -/
theorem Scope.AllowsAll.exists_wellTimed {placed : List Scope.Placed} :
    ∀ {scope : Scope}, scope.AllowsAll placed →
      ∀ place ∈ placed, ∃ frameSize, place.1.WellTimed frameSize := by
  induction placed with
  | nil => simp
  | cons first placed ih =>
    intro scope hallows
    exact List.forall_mem_cons.2 ⟨⟨_, hallows.1.timed⟩, ih hallows.2⟩

theorem Parameter.exists_encodeMixGain {parameter : Parameter} {frameSize : UInt32}
    (hkind : parameter.kind = .mixGain) (htimed : parameter.WellTimed frameSize) :
    ∃ bytes, parameter.encodeMixGain = .ok bytes := by
  rw [encodeMixGain, ensure_of hkind]
  exact ⟨_, encodeDefinition_eq htimed⟩

/-! ### Texts -/

namespace Annotations

/-- No label has a text with a NUL. -/
def LacksNul (annotations : Annotations) : Prop :=
  ∀ entry ∈ annotations.entries, 0 ∉ Text.Utf8.encode entry.2

theorem LacksNul.insert {annotations : Annotations} {text : String} (h : annotations.LacksNul)
    (htext : 0 ∉ Text.Utf8.encode text) (label : String) :
    (annotations.insert label text).LacksNul := by
  rw [Annotations.insert]
  split
  · exact h
  · intro entry hmem
    rcases List.mem_append.1 hmem with hmem | hmem
    · exact h entry hmem
    · exact List.mem_singleton.1 hmem ▸ htext

/-- Each text that is read is inserted, or dropped if its label has one already. -/
theorem LacksNul.read_go {labels : List String} :
    ∀ {before annotations : Annotations} {reader after : Reader}, before.LacksNul →
      read.go before labels reader = .ok (annotations, after) → annotations.LacksNul := by
  induction labels with
  | nil =>
    intro before annotations reader after hbefore h
    simp only [read.go, Read.pure_eq_ok, Prod.mk.injEq] at h
    exact h.1 ▸ hbefore
  | cons label labels ih =>
    intro before annotations reader after hbefore h
    rw [read.go, Read.bind_eq_ok] at h
    obtain ⟨text, _, htext, h⟩ := h
    exact ih (hbefore.insert (Text.Terminated.read_eq_ok htext) label) h

/-- Texts that were read hold no NUL. -/
theorem lacksNul_of_read {labels : List String} {annotations : Annotations}
    {reader after : Reader} (h : read labels reader = .ok (annotations, after)) :
    annotations.LacksNul :=
  .read_go (fun _ hmem => absurd hmem List.not_mem_nil) h

/-- Nor does the text that is written for a label, which is empty where there is none. -/
theorem LacksNul.textOf {annotations : Annotations} (h : annotations.LacksNul) (label : String) :
    0 ∉ Text.Utf8.encode (annotations.textOf label) := by
  rw [Annotations.textOf, get?]
  cases hfind : annotations.entries.find? (·.1 = label) with
  | none => exact List.not_mem_nil
  | some entry => exact h entry (List.mem_of_find?_eq_some hfind)

theorem LacksNul.exists_encode_iff {annotations : Annotations} (h : annotations.LacksNul)
    (labels : List String) :
    (∃ bytes, annotations.encode labels = .ok bytes)
      ↔ ∀ text ∈ labels.map annotations.textOf,
        (Text.Utf8.encode text).length < Text.Terminated.maxSize := by
  rw [encode, outcome_exists_bind_iff fun _ => outcome_exists_pure, and_true,
    outcome_exists_mapM_iff, List.forall_mem_map]
  exact forall₂_congr fun label _ => Text.Terminated.exists_encode_iff (h.textOf label)

end Annotations

/-! ### Layouts -/

/-- A layout can be written just if it plays on something that has a code. -/
theorem SubmixLayout.exists_encode_iff (layout : SubmixLayout) :
    (∃ bytes, layout.encode = .ok bytes)
      ↔ (layout.kind = .loudspeakers → layout.soundSystem.isSome) := by
  rw [encode, outcome_exists_bind_iff fun _ => outcome_exists_pure, and_true, encodeTarget]
  cases layout.kind <;> cases layout.soundSystem <;>
    simp [outcome_pure_eq_ok, outcome_throw_eq_ok]

/-! ### Submixes -/

namespace SubmixElement

variable {labels : List String} {member : SubmixElement}

/-- Next to a gain that can be written only the texts of an element matter. -/
theorem exists_encode_iff (hgain : ∃ bytes, member.gain.encodeMixGain = .ok bytes) :
    (∃ bytes, member.encode labels = .ok bytes)
      ↔ ∃ bytes, member.annotations.encode labels = .ok bytes := by
  rw [encode, outcome_exists_bind_iff fun _ =>
    outcome_exists_bind_iff fun _ => outcome_exists_pure, and_true, and_iff_left hgain]

/-- The texts of an element that was read hold no NUL. -/
theorem lacksNul_of_read {mode : ReadMode} {registry : Registry} {scope next : Scope}
    {reader after : Reader}
    (h : SubmixElement.read mode registry labels scope reader = .ok ((member, next), after)) :
    member.annotations.LacksNul := by
  rw [SubmixElement.read, Read.bind_eq_ok] at h
  obtain ⟨id, _, -, h⟩ := h
  cases helement : registry.audioElement? id with
  | none => exact absurd h (by simp [helement, Read.throw_eq_ok])
  | some element =>
    -- Of all that follows the id only the texts matter, which come first.
    simp only [helement, Read.bind_eq_ok, Read.pure_eq_ok, Prod.mk.injEq] at h
    obtain ⟨annotations, _, hannotations, _, _, -, _, _, -, _, _, -, _, _, -, _, _, -,
      ⟨rfl, -⟩, -⟩ := h
    exact Annotations.lacksNul_of_read hannotations

end SubmixElement

namespace Submix

variable {mode : ReadMode} {registry : Registry} {labels : List String}

/-- The definitions of a submix: those of its elements, then its own. -/
def gains (submix : Submix) : List Parameter :=
  submix.elements.map (·.gain) ++ [submix.gain]

/-- Next to gains that can be written only texts and layouts of a submix matter. -/
theorem exists_encode_iff {submix : Submix}
    (hgains : ∀ gain ∈ submix.gains, ∃ bytes, gain.encodeMixGain = .ok bytes) :
    (∃ bytes, submix.encode labels = .ok bytes)
      ↔ (∀ member ∈ submix.elements, ∃ bytes, member.annotations.encode labels = .ok bytes)
        ∧ ∀ layout ∈ submix.layouts,
          layout.kind = .loudspeakers → layout.soundSystem.isSome := by
  rw [gains, List.forall_mem_append, List.forall_mem_map, List.forall_mem_singleton] at hgains
  obtain ⟨hmembers, hgain⟩ := hgains
  have helements : (∃ pieces, submix.elements.mapM (SubmixElement.encode labels) = .ok pieces)
      ↔ ∀ member ∈ submix.elements, ∃ bytes, member.annotations.encode labels = .ok bytes :=
    outcome_exists_mapM_iff.trans (forall₂_congr fun member hmem =>
      SubmixElement.exists_encode_iff (hmembers member hmem))
  have hlayouts : (∃ pieces, submix.layouts.mapM SubmixLayout.encode = .ok pieces)
      ↔ ∀ layout ∈ submix.layouts, layout.kind = .loudspeakers → layout.soundSystem.isSome :=
    outcome_exists_mapM_iff.trans (forall₂_congr fun layout _ => layout.exists_encode_iff)
  rw [encode, outcome_exists_bind_iff fun _ => outcome_exists_bind_iff fun _ =>
    outcome_exists_bind_iff fun _ => outcome_exists_pure, and_true, and_iff_right hgain,
    helements, hlayouts]

/-- The texts of all elements of a submix that was read hold no NUL. -/
theorem lacksNul_of_read {scope next : Scope} {reader after : Reader} {submix : Submix}
    (h : Submix.read mode registry labels scope reader = .ok ((submix, next), after)) :
    ∀ member ∈ submix.elements, member.annotations.LacksNul := by
  simp only [Submix.read, Read.bind_eq_ok, Read.pure_eq_ok, Prod.mk.injEq] at h
  obtain ⟨_, _, -, _, _, -, ⟨elements, _⟩, _, helements, _, _, -, _, _, -, _, _, -, _, _, -,
    _, _, -, ⟨rfl, -⟩, -⟩ := h
  refine (Read.timesWith_induction
    (motive := fun _ members _ => ∀ member ∈ members, member.annotations.LacksNul)
    (fun _ _ hmem => absurd hmem List.not_mem_nil) ?_ helements).2
  intro _ _ member _ _ others _ hmember hothers
  exact List.forall_mem_cons.2 ⟨SubmixElement.lacksNul_of_read hmember, hothers⟩

end Submix

/-! ### Presentations -/

namespace MixPresentation

variable {registry : Registry} {mix : MixPresentation}

/-- All texts that are written of a presentation: its labels, and for each label its own
text and those of its elements. -/
def texts (mix : MixPresentation) : List String :=
  mix.labels ++ mix.labels.map mix.annotations.textOf
    ++ mix.elements.flatMap fun member => mix.labels.map member.annotations.textOf

/-- A presentation that was read has texts without a NUL only. -/
structure LacksNul (mix : MixPresentation) : Prop where
  labels : ∀ label ∈ mix.labels, 0 ∉ Text.Utf8.encode label
  annotations : mix.annotations.LacksNul
  elements : ∀ submix ∈ mix.submixes, ∀ member ∈ submix.elements, member.annotations.LacksNul

theorem lacksNul_of_parse {mode : ReadMode} {body : Bytes} {definitions : List Parameter}
    (h : parse mode registry body = .ok (mix, definitions)) : mix.LacksNul := by
  rw [parse, Read.parse_eq_ok] at h
  obtain ⟨after, h⟩ := h
  simp only [read, Read.bind_eq_ok, Read.ensure_eq_ok, Read.pure_eq_ok, Prod.mk.injEq] at h
  obtain ⟨_, _, -, _, _, -, _, _, -, _, _, -, labels, _, hlabels, annotations, _, hannotations,
    _, _, -, _, _, -, ⟨submixes, _⟩, _, hsubmixes, _, _, -, ⟨rfl, -⟩, -⟩ := h
  -- The labels come one by one, and the submixes each with the definitions before it.
  refine ⟨?labels, Annotations.lacksNul_of_read hannotations, ?elements⟩
  case labels =>
    intro label hmem
    obtain ⟨_, _, hlabel⟩ := (Read.times_eq_ok hlabels).2 label hmem
    exact Text.Terminated.read_eq_ok hlabel
  case elements =>
    refine (Read.timesWith_induction
      (motive := fun _ submixes _ =>
        ∀ submix ∈ submixes, ∀ member ∈ submix.elements, member.annotations.LacksNul)
      (fun _ _ hmem => absurd hmem List.not_mem_nil) ?_ hsubmixes).2
    intro _ _ submix _ _ others _ hsubmix hothers
    exact List.forall_mem_cons.2 ⟨Submix.lacksNul_of_read hsubmix, hothers⟩

/-- All definitions of a presentation that was read can be written. -/
theorem Readable.exists_encodeMixGain (h : mix.Readable registry) :
    ∀ gain ∈ mix.parameters, ∃ bytes, gain.encodeMixGain = .ok bytes := by
  intro gain hmem
  rw [← map_fst_placed registry, List.mem_map] at hmem
  obtain ⟨place, hplace, rfl⟩ := hmem
  obtain ⟨frameSize, htimed⟩ := h.allowed.exists_wellTimed place hplace
  exact Parameter.exists_encodeMixGain (h.of_mem_placed hplace).1 htimed

/-- A readable presentation without a NUL in its texts can be written just if the sound
systems of all its loudspeaker layouts are known and its texts are short enough. -/
theorem Readable.exists_encode_iff (h : mix.Readable registry) (htexts : mix.LacksNul) :
    (∃ body, mix.encode = .ok body)
      ↔ (∀ submix ∈ mix.submixes, ∀ layout ∈ submix.layouts,
          layout.kind = .loudspeakers → layout.soundSystem.isSome)
        ∧ ∀ text ∈ mix.texts, (Text.Utf8.encode text).length < Text.Terminated.maxSize := by
  have hlabels : (∃ pieces, mix.labels.mapM Text.Terminated.encode = .ok pieces)
      ↔ ∀ text ∈ mix.labels, (Text.Utf8.encode text).length < Text.Terminated.maxSize :=
    outcome_exists_mapM_iff.trans (forall₂_congr fun label hmem =>
      Text.Terminated.exists_encode_iff (htexts.labels label hmem))
  have hsubmixes : (∃ pieces, mix.submixes.mapM (Submix.encode mix.labels) = .ok pieces)
      ↔ ∀ submix ∈ mix.submixes,
        (∀ member ∈ submix.elements, ∀ text ∈ mix.labels.map member.annotations.textOf,
          (Text.Utf8.encode text).length < Text.Terminated.maxSize)
        ∧ ∀ layout ∈ submix.layouts,
          layout.kind = .loudspeakers → layout.soundSystem.isSome := by
    refine outcome_exists_mapM_iff.trans (forall₂_congr fun submix hmem => ?_)
    have hgains : ∀ gain ∈ submix.gains, ∃ bytes, gain.encodeMixGain = .ok bytes :=
      fun gain hgain => h.exists_encodeMixGain gain (List.mem_flatMap.2 ⟨submix, hmem, hgain⟩)
    rw [Submix.exists_encode_iff hgains]
    exact and_congr_left' (forall₂_congr fun member hmember =>
      (htexts.elements submix hmem member hmember).exists_encode_iff mix.labels)
  rw [encode, outcome_exists_bind_iff fun _ => outcome_exists_bind_iff fun _ =>
    outcome_exists_bind_iff fun _ => outcome_exists_pure, and_true, hlabels,
    htexts.annotations.exists_encode_iff, hsubmixes, texts, elements, List.forall_mem_append,
    List.forall_mem_append]
  -- Both sides ask for the same, here submix by submix and there for all texts at once.
  simp only [List.mem_flatMap]
  constructor
  · rintro ⟨hlabels, hown, hall⟩
    refine ⟨fun submix hmem => (hall submix hmem).2, ⟨hlabels, hown⟩, ?_⟩
    rintro text ⟨member, ⟨submix, hsubmix, hmember⟩, htext⟩
    exact (hall submix hsubmix).1 member hmember text htext
  · rintro ⟨hsystems, ⟨hlabels, hown⟩, hall⟩
    refine ⟨hlabels, hown, fun submix hsubmix => ⟨?_, hsystems submix hsubmix⟩⟩
    exact fun member hmember text htext => hall text ⟨member, ⟨submix, hsubmix, hmember⟩, htext⟩

/-- A presentation that was read can be written just if the sound systems of all its
loudspeaker layouts are known and none of its texts takes more than 127 bytes. Where it
was read, what is written is read as the same presentation in every field, however
strictly, and brings the same definitions. -/
theorem encode_of_parseMix {mode : ReadMode} {body : Bytes} {definitions : List Parameter}
    (h : parse mode registry body = .ok (mix, definitions)) :
    ((∃ rewritten, mix.encode = .ok rewritten)
      ↔ (∀ submix ∈ mix.submixes, ∀ layout ∈ submix.layouts,
          layout.kind = .loudspeakers → layout.soundSystem.isSome)
        ∧ ∀ text ∈ mix.texts, (Text.Utf8.encode text).length ≤ 127)
      ∧ ∀ rewritten, mix.encode = .ok rewritten → ∀ again : ReadMode,
        parse again registry rewritten = .ok (mix, definitions) := by
  obtain ⟨hreadable, rfl⟩ := parse_eq_ok h
  refine ⟨?_, fun rewritten hencode again => parse_encode hreadable hencode again⟩
  rw [hreadable.exists_encode_iff (lacksNul_of_parse h)]
  simp only [Text.Terminated.maxSize, Nat.lt_succ_iff]

/-- A registry with an element that presentations can refer to. -/
def elementRegistry : Registry where
  audioElements :=
    [{ id := 1
       kind := .channel
       codecConfig := 0
       substreams := []
       layers := []
       demixing := none
       reconGain := none
       defaultWeight := 0 }]

/-- A presentation with one label twice, a text for it that is damaged, and another one.
Its element has an extension and shares its gain with the submix. The first layout has
two values for dialogue, one for an anchor that is not known, and an extension. A byte is
left over. -/
def wordyMix : Bytes :=
  [0x03, 0x02, 0x65, 0x6E, 0x00, 0x65, 0x6E, 0x00, 0xFF, 0x00, 0x61, 0x00, 0x01,
    0x01, 0x01, 0x63, 0x00, 0x64, 0x00, 0x40, 0x01, 0xAA, 0x07, 0x01, 0x80, 0x00, 0x01,
    0x07, 0x01, 0x80, 0x00, 0x00,
    0x02,
    0x80, 0x07, 0x00, 0x00, 0x00, 0x00, 0x01, 0x00,
    0x03, 0x01, 0x00, 0x01, 0x01, 0x00, 0x02, 0x05, 0x00, 0x03, 0x01, 0xBB,
    0xC0, 0x00, 0x00, 0x00, 0x00, 0x00,
    0x55]

/-- What is written of it. -/
def rewrittenMix : Bytes :=
  [0x03, 0x02, 0x65, 0x6E, 0x00, 0x65, 0x6E, 0x00, 0xEF, 0xBF, 0xBD, 0x00, 0xEF, 0xBF, 0xBD,
    0x00, 0x01,
    0x01, 0x01, 0x63, 0x00, 0x63, 0x00, 0x40, 0x00, 0x07, 0x01, 0x80, 0x00, 0x01,
    0x07, 0x01, 0x80, 0x00, 0x00,
    0x02,
    0x80, 0x03, 0x00, 0x00, 0x00, 0x00, 0x01, 0x00,
    0x01, 0x01, 0x00, 0x02,
    0xC0, 0x00, 0x00, 0x00, 0x00, 0x00]

/-- The presentation comes back, and so does the gain that it brings. -/
theorem encode_of_parseMix_wordy :
    ∃ mix definitions, parse {} elementRegistry wordyMix = .ok (mix, definitions)
      ∧ definitions.map (·.id) = [7] ∧ mix.encode = .ok rewrittenMix
      ∧ ∀ again : ReadMode, parse again elementRegistry rewrittenMix = .ok (mix, definitions) := by
  have hread : (parse {} elementRegistry wordyMix).map
      (fun read => (read.2.map (·.id), read.1.encode)) = .ok ([7], .ok rewrittenMix) := by
    decide +kernel
  obtain ⟨⟨mix, definitions⟩, hparse, hfound⟩ := outcome_map_eq_ok.1 hread
  simp only [Prod.mk.injEq] at hfound
  obtain ⟨hids, hencode⟩ := hfound
  exact ⟨mix, definitions, hparse, hids, hencode,
    (encode_of_parseMix hparse).2 rewrittenMix hencode⟩

/-- A presentation without submixes. Its one label is of 43 bytes that are not UTF-8. -/
def damagedMix : Bytes :=
  [0x03, 0x01] ++ List.replicate 43 0xFF ++ [0x00, 0x00, 0x00]

/-- It is read, also strictly, but its label has become 129 bytes long. -/
theorem encode_of_parseMix_damaged :
    ∃ mix definitions, parse { strict := true } .empty damagedMix = .ok (mix, definitions)
      ∧ mix.submixes = [] ∧ ¬ ∃ rewritten, mix.encode = .ok rewritten := by
  have hread : (parse { strict := true } .empty damagedMix).map
      (fun read => (read.1.submixes, decide (∃ text ∈ read.1.texts,
        Text.Terminated.maxSize ≤ (Text.Utf8.encode text).length))) = .ok ([], true) := by
    decide +kernel
  obtain ⟨⟨mix, definitions⟩, hparse, hfound⟩ := outcome_map_eq_ok.1 hread
  simp only [Prod.mk.injEq, decide_eq_true_eq] at hfound
  obtain ⟨hsubmixes, text, hmem, hlong⟩ := hfound
  refine ⟨mix, definitions, hparse, hsubmixes, ?_⟩
  intro hwritten
  have hreadable : mix.Readable .empty := (parse_eq_ok hparse).1
  obtain ⟨-, hshort⟩ := (hreadable.exists_encode_iff (lacksNul_of_parse hparse)).1 hwritten
  exact Nat.not_lt_of_le hlong (hshort text hmem)

end MixPresentation

end Iamf
