import Iamf.Proofs.Mix.Readable
import Iamf.Proofs.Text.Terminated

/-!
# `Iamf.Proofs.Mix.Written`: mix presentations are read back as they were

Wherever a presentation has texts, one is written per label, whatever texts
there are: a label that comes twice gets its one text twice, and the reader
keeps the first. Extensions that were passed over are not written. The
definitions come back one after the other, each in the scope that those before
it have left, so a presentation that was read comes back whole against every
registry that allows them.

* `Annotations.consumes_encode`: texts by label.
* `SubmixLayout.consumes_encode`: layouts.
* `MixPresentation.parse_encode`: a readable presentation that can be written
  comes back, and brings the same definitions.
-/

set_option autoImplicit false

namespace Iamf

open Read (Chain Consumes Exhausts Takes)

/-! ### Texts -/

namespace Annotations

/-- A text that is there stays. -/
theorem get?_insert_of_eq_some {annotations : Annotations} {label other text : String}
    (latest : String) (h : annotations.get? other = some text) :
    (annotations.insert label latest).get? other = some text := by
  by_cases heq : label = other
  · rw [insert_of_isSome latest (by rw [heq, h]; rfl), h]
  · rw [get?_insert_ne latest heq, h]

/-- The annotations with more texts. -/
abbrev insertAll (annotations : Annotations) (entries : List (String × String)) : Annotations :=
  entries.foldl (fun annotations entry => annotations.insert entry.1 entry.2) annotations

theorem get?_insertAll_of_eq_some {entries : List (String × String)} :
    ∀ {annotations : Annotations} {label text : String}, annotations.get? label = some text →
      (annotations.insertAll entries).get? label = some text := by
  induction entries with
  | nil => exact fun h => h
  | cons entry entries ih => exact fun h => ih (get?_insert_of_eq_some entry.2 h)

/-- The text that is written for a label. -/
abbrev textOf (annotations : Annotations) (label : String) : String :=
  (annotations.get? label).getD ""

/-- Inserting the texts that a label has in the end leads to the same end, since
only the first of them counts. -/
theorem insertAll_textOf {labels : List String} :
    ∀ {texts : List String} {before after : Annotations}, texts.length = labels.length →
      before.insertAll (labels.zip texts) = after →
      before.insertAll (labels.map fun label => (label, after.textOf label)) = after := by
  induction labels with
  | nil =>
    intro texts before after _ h
    rwa [List.zip_nil_left] at h
  | cons label labels ih =>
    intro texts before after hlength h
    obtain ⟨text, texts, rfl⟩ := List.exists_cons_of_length_eq_add_one hlength
    rw [List.zip_cons_cons, insertAll, List.foldl_cons] at h
    -- Where a text is there already neither is inserted; otherwise this one stays to the end.
    have hfirst : before.insert label (after.textOf label) = before.insert label text := by
      cases hbefore : before.get? label with
      | some old => rw [insert_of_isSome _ (by rw [hbefore]; rfl),
          insert_of_isSome _ (by rw [hbefore]; rfl)]
      | none =>
        have hafter : after.get? label = some text :=
          h ▸ get?_insertAll_of_eq_some (get?_insert_self text hbefore)
        rw [textOf, hafter, Option.getD_some]
    rw [List.map_cons, insertAll, List.foldl_cons, hfirst]
    exact ih (by simpa using hlength) h

theorem consumes_go {labels : List String} (text : String → String) {pieces : List Bytes}
    (h : List.Forall₂ (fun label bytes => Text.Terminated.encode (text label) = .ok bytes)
      labels pieces) (before : Annotations) :
    Consumes (read.go before labels) pieces.flatten
      (before.insertAll (labels.map fun label => (label, text label))) := by
  induction h generalizing before with
  | nil => exact Takes.pure before
  | cons hfirst _ ih => exact (Text.Terminated.consumes_encode hfirst).bind (ih _)

/-- Annotations with one text for each label are read back. -/
theorem consumes_encode {labels : List String} {annotations : Annotations} {bytes : Bytes}
    (h : annotations.Covers labels) (hencode : annotations.encode labels = .ok bytes) :
    Consumes (read labels) bytes annotations := by
  obtain ⟨texts, hlength, hannotations⟩ := h
  simp only [encode, outcome_bind_eq_ok, outcome_pure_eq_ok] at hencode
  obtain ⟨pieces, hpieces, rfl⟩ := hencode
  have hread := consumes_go annotations.textOf (outcome_mapM_eq_ok hpieces) {}
  rwa [insertAll_textOf hlength hannotations.symm] at hread

end Annotations

/-! ### Layouts -/

namespace AnchoredLoudness

/-- Loudness values as they are read back: those of an anchor that is not known are
written, but they are passed over. -/
def received (anchored : AnchoredLoudness) : AnchoredLoudness where
  dialogue := anchored.dialogue.map (·.nearest)
  album := anchored.album.map (·.nearest)

theorem received_of_isReadable {anchored : AnchoredLoudness} (h : anchored.IsReadable) :
    anchored.received = anchored := by
  obtain ⟨unknown, dialogue, album⟩ := anchored
  obtain ⟨rfl, hdialogue, halbum⟩ := h
  have hsame : ∀ {loudness : Option Ratio}, (∀ value ∈ loudness, value.IsQ8) →
      loudness.map (·.nearest) = loudness := by
    rintro (_ | value) hq8
    · rfl
    · exact congrArg some (Ratio.nearest_of_isQ8 (hq8 value rfl))
  simp only [received, hsame hdialogue, hsame halbum]

theorem consumes_entry (anchored : AnchoredLoudness) (entry : UInt8 × Ratio) :
    Consumes (do
        let code ← Read.byte
        let loudness ← Ratio.read
        return anchored.setCode code loudness)
      (entry.1 :: entry.2.encode) (anchored.setCode entry.1 entry.2.nearest) :=
  (Consumes.byte entry.1).bind (entry.2.consumes_nearest.bind_pure (anchored.setCode entry.1))

/-- Entries are read one after the other, each for its anchor. -/
theorem consumes_entries (entries : List (UInt8 × Ratio)) (anchored : AnchoredLoudness) :
    Consumes (Read.iterate (fun anchored => do
        let code ← Read.byte
        let loudness ← Ratio.read
        return anchored.setCode code loudness) entries.length anchored)
      (entries.flatMap fun entry => entry.1 :: entry.2.encode)
      (entries.foldl (fun anchored entry => anchored.setCode entry.1 entry.2.nearest)
        anchored) := by
  induction entries generalizing anchored with
  | nil => exact .iterate_zero _ _
  | cons entry entries ih =>
    exact .iterate_succ (consumes_entry anchored entry) (ih _)

theorem consumes_encode (anchored : AnchoredLoudness) :
    Consumes read anchored.encode anchored.received := by
  have hentries : (UInt8.ofNat anchored.entries.length).toNat = anchored.entries.length
      ∧ anchored.entries.foldl (fun anchored entry => anchored.setCode entry.1 entry.2.nearest) {}
        = anchored.received := by
    obtain ⟨_ | _, _ | _, _ | _⟩ := anchored <;> exact ⟨rfl, rfl⟩
  refine (Consumes.byte _).bind ?_
  rw [hentries.1, ← hentries.2]
  exact consumes_entries anchored.entries {}

/-- Loudness values without an entry are none at all. -/
theorem eq_empty {anchored : AnchoredLoudness} (h : anchored.entries = []) :
    anchored = {} := by
  obtain ⟨_ | _, _ | _, _ | _⟩ := anchored <;> first | rfl | cases h

end AnchoredLoudness

namespace SubmixLayout

theorem targetByte_eq (system : SoundSystem) :
    let byte := (0x80 : UInt8) ||| system.code <<< 2
    byte >>> 6 = 2 ∧ SoundSystem.ofCode? ((byte >>> 2) &&& 0xF) = some system := by
  cases system <;> decide

/-- A layout as it is read back. -/
def received (layout : SubmixLayout) : SubmixLayout where
  kind := layout.kind
  soundSystem := match layout.kind with
    | .loudspeakers => layout.soundSystem
    | .binaural => none
  integratedLoudness := layout.integratedLoudness.nearest
  digitalPeak := layout.digitalPeak.nearest
  truePeak := layout.truePeak.map (·.nearest)
  anchored := layout.anchored.received

theorem received_of_isReadable {layout : SubmixLayout} (h : layout.IsReadable) :
    layout.received = layout := by
  obtain ⟨kind, soundSystem, integratedLoudness, digitalPeak, truePeak, anchored⟩ := layout
  obtain ⟨hsystem, hintegrated, hdigital, htrue, hanchored⟩ := h
  have hpeak : truePeak.map (·.nearest) = truePeak := by
    cases truePeak with
    | none => rfl
    | some peak => exact congrArg some (Ratio.nearest_of_isQ8 (htrue peak rfl))
  have hanchoredSame := AnchoredLoudness.received_of_isReadable hanchored
  have hsame : ∀ {ratio : Ratio}, ratio.IsQ8 → ratio.nearest = ratio := Ratio.nearest_of_isQ8
  cases kind with
  | loudspeakers =>
    simp only [received, hpeak, hsame hintegrated, hsame hdigital, hanchoredSame]
  | binaural =>
    cases (hsystem rfl : soundSystem = none)
    simp only [received, hpeak, hsame hintegrated, hsame hdigital, hanchoredSame]

theorem consumes_encodeTarget {layout : SubmixLayout} {byte : UInt8}
    (hencode : layout.encodeTarget = .ok byte) :
    Consumes readTarget [byte] (layout.received.kind, layout.received.soundSystem) := by
  refine (Consumes.byte byte).bind_nil ?_
  rw [encodeTarget] at hencode
  simp only [received]
  cases hkind : layout.kind with
  | loudspeakers =>
    cases hsystem : layout.soundSystem with
    | none => simp [hkind, hsystem, outcome_throw_eq_ok] at hencode
    | some system =>
      simp only [hkind, hsystem, outcome_pure_eq_ok] at hencode
      obtain ⟨hcode, hofCode⟩ := targetByte_eq system
      rw [hencode] at hcode hofCode
      rw [if_pos hcode, hofCode]
      exact Takes.pure _
  | binaural =>
    simp only [hkind, outcome_pure_eq_ok] at hencode
    subst hencode
    rw [if_neg (by decide), if_pos (by decide)]
    exact Takes.pure _

/-- The bits of a layout that tell which optional parts there are. -/
def info (layout : SubmixLayout) : UInt8 :=
  (if layout.truePeak.isSome then 1 else 0)
    ||| (if layout.anchored.entries ≠ [] then 2 else 0)

/-- The bytes of the true peak, if there is one. -/
def encodeTruePeak (layout : SubmixLayout) : Bytes :=
  match layout.truePeak with
  | some peak => peak.encode
  | none => []

/-- The bytes of the anchored loudness, if there is any. -/
def encodeAnchored (layout : SubmixLayout) : Bytes :=
  if layout.anchored.entries ≠ [] then layout.anchored.encode else []

theorem encode_eq_ok {layout : SubmixLayout} {bytes : Bytes} (h : layout.encode = .ok bytes) :
    ∃ target, layout.encodeTarget = .ok target
      ∧ bytes = target :: layout.info :: (layout.integratedLoudness.encode
        ++ (layout.digitalPeak.encode ++ (layout.encodeTruePeak ++ layout.encodeAnchored))) := by
  simp only [encode, outcome_bind_eq_ok, outcome_pure_eq_ok] at h
  obtain ⟨target, htarget, rfl⟩ := h
  refine ⟨target, htarget, ?_⟩
  simp only [List.append_assoc, List.cons_append, List.nil_append]
  rfl

/-- The bits tell the optional parts; no extension is written. -/
theorem info_eq (layout : SubmixLayout) :
    layout.info.toNat.testBit 0 = layout.truePeak.isSome
      ∧ layout.info.toNat.testBit 1 = decide (layout.anchored.entries ≠ [])
      ∧ ¬4 ≤ layout.info := by
  rw [info]
  by_cases hempty : layout.anchored.entries = [] <;> cases layout.truePeak <;>
    simp only [hempty, Option.isSome_none, Option.isSome_some, ne_eq, not_true_eq_false,
      not_false_eq_true, Bool.false_eq_true, if_true, if_false] <;> decide

theorem consumes_encodeTruePeak (layout : SubmixLayout) :
    Consumes (readTruePeak layout.info) layout.encodeTruePeak layout.received.truePeak := by
  rw [readTruePeak, encodeTruePeak, layout.info_eq.1, received]
  cases layout.truePeak with
  | none => exact Takes.pure _
  | some peak => exact peak.consumes_nearest.map some

theorem consumes_encodeAnchored (layout : SubmixLayout) :
    Consumes (readAnchored layout.info) layout.encodeAnchored layout.received.anchored := by
  rw [readAnchored, encodeAnchored, layout.info_eq.2.1, received]
  by_cases hempty : layout.anchored.entries = []
  · rw [if_neg (by simpa using hempty), if_neg (by simpa using hempty),
      AnchoredLoudness.eq_empty hempty]
    exact Takes.pure _
  · rw [if_pos (by simpa using hempty), if_pos hempty]
    exact layout.anchored.consumes_encode

/-- A layout that was written is read back, with its gains rounded. -/
theorem consumes_encode {layout : SubmixLayout} {bytes : Bytes}
    (hencode : layout.encode = .ok bytes) :
    Consumes SubmixLayout.read bytes layout.received := by
  obtain ⟨target, htarget, rfl⟩ := encode_eq_ok hencode
  have hskip : Consumes (skipExtension layout.info) [] () := by
    rw [skipExtension, if_neg layout.info_eq.2.2]
    exact Takes.pure ()
  rw [read_eq]
  refine (consumes_encodeTarget htarget).bind ((Consumes.byte layout.info).bind ?_)
  refine layout.integratedLoudness.consumes_nearest.bind
    (layout.digitalPeak.consumes_nearest.bind ?_)
  refine layout.consumes_encodeTruePeak.bind (layout.consumes_encodeAnchored.bind_nil ?_)
  exact Takes.bind_of_nil hskip (Takes.pure layout.received)

theorem one_le_length {layout : SubmixLayout} {bytes : Bytes} (h : layout.encode = .ok bytes) :
    1 ≤ bytes.length := by
  obtain ⟨target, -, rfl⟩ := encode_eq_ok h
  exact Nat.le_add_left 1 _

end SubmixLayout

/-! ### Elements of a submix -/

/-- A definition that was written where a mix gain belongs is read back there. -/
theorem Parameter.consumes_encodeMixGain {mode : ReadMode} {site : Site} {scope : Scope}
    {parameter : Parameter} {bytes : Bytes} (hkind : parameter.kind = .mixGain)
    (hallows : scope.Allows site parameter) (hencode : parameter.encodeMixGain = .ok bytes) :
    Consumes (readDefinition mode .mixGain site scope) bytes
      (parameter, scope.store parameter) := by
  obtain ⟨written, hwritten, hread⟩ := consumes_encodeDefinition mode hallows
  rw [encodeMixGain, outcome_bind_eq_ok] at hencode
  obtain ⟨_, -, hencode⟩ := hencode
  cases hwritten.symm.trans hencode
  rwa [hkind] at hread

namespace SubmixElement

variable {mode : ReadMode} {registry : Registry} {labels : List String}

/-- Around the texts and the gain of an element everything is read back alike. -/
theorem consumes_of_encode (mode : ReadMode) {scope : Scope} {member : SubmixElement}
    {element : AudioElement} {bytes : Bytes}
    (helement : registry.audioElement? member.element = some element)
    (hencode : member.encode labels = .ok bytes) :
    ∃ annotations gain, member.annotations.encode labels = .ok annotations
      ∧ member.gain.encodeMixGain = .ok gain
      ∧ ∀ texts definition after, Consumes (Annotations.read labels) annotations texts →
        Consumes (Parameter.readDefinition mode .mixGain
          { element := some member.element, frameSize := element.frameSize? } scope) gain
          (definition, after) →
        Consumes (SubmixElement.read mode registry labels scope) bytes
          ({ element := member.element
             annotations := texts
             headphones := .ofCode (member.headphones.code <<< 6 >>> 6)
             gain := definition
             defaultGain := member.defaultGain.nearest }, after) := by
  simp only [encode, outcome_bind_eq_ok, outcome_pure_eq_ok] at hencode
  obtain ⟨annotations, hannotations, gain, hgain, rfl⟩ := hencode
  refine ⟨annotations, gain, hannotations, hgain, fun texts definition after htexts hread => ?_⟩
  simp only [List.append_assoc]
  refine (Leb128.consumes_encode member.element).bind ?_
  simp only [helement]
  refine htexts.bind ((Consumes.byte (member.headphones.code <<< 6)).bind ?_)
  refine (Leb128.consumes_encode 0).bind (Takes.bind_of_nil (Consumes.skipBytes []) ?_)
  exact hread.bind (member.defaultGain.consumes_nearest.bind_pure _)

theorem consumes_encode {scope : Scope} {member : SubmixElement} {bytes : Bytes}
    (h : member.IsReadable registry labels)
    (hallows : scope.Allows (member.placed registry).2 member.gain)
    (hencode : member.encode labels = .ok bytes) :
    Consumes (SubmixElement.read mode registry labels scope) bytes
      (member, scope.store member.gain) := by
  obtain ⟨element, helement⟩ := Option.isSome_iff_exists.1 h.resolved
  obtain ⟨annotations, gain, hannotations, hgain, hread⟩ :=
    consumes_of_encode mode helement hencode
  -- The definition of the gain stands where the reader expects it: at this element.
  simp only [placed, helement, Option.bind_some] at hallows
  have hmember := hread member.annotations member.gain _
    (Annotations.consumes_encode h.annotations hannotations)
    (Parameter.consumes_encodeMixGain h.gain hallows hgain)
  rwa [Read.shiftLeft_shiftRight (by decide) h.headphones.1, h.headphones.2,
    Ratio.nearest_of_isQ8 h.defaultGain] at hmember

theorem one_le_length {member : SubmixElement} {bytes : Bytes}
    (h : member.encode labels = .ok bytes) : 1 ≤ bytes.length := by
  simp only [encode, outcome_bind_eq_ok, outcome_pure_eq_ok] at h
  obtain ⟨_, -, _, -, rfl⟩ := h
  have hid := Leb128.size_le member.element
  simp only [List.length_append, Leb128.length_encode]
  omega

/-- The elements of a submix, each in the scope that those before it have left. -/
theorem chain_encode {members : List SubmixElement} {pieces : List Bytes}
    (hencode : List.Forall₂ (fun member bytes => encode labels member = .ok bytes)
      members pieces) :
    ∀ {scope : Scope}, (∀ member ∈ members, member.IsReadable registry labels) →
      scope.AllowsAll (members.map (·.placed registry)) →
      Chain (SubmixElement.read mode registry labels) scope members pieces
        (scope.storeAll (members.map (·.placed registry))) := by
  induction hencode with
  | nil => exact fun {scope} _ _ => .nil scope
  | cons hfirst _ ih =>
    intro scope hreadable hallows
    obtain ⟨hreadableFirst, hothers⟩ := List.forall_mem_cons.1 hreadable
    exact .cons (consumes_encode hreadableFirst hallows.1 hfirst) (ih hothers hallows.2)

end SubmixElement

/-- No piece is empty if what makes them makes no empty one. -/
theorem one_le_length_of_forall₂ {α : Type} {encode : α → Except Error Bytes} {items : List α}
    {pieces : List Bytes}
    (h : List.Forall₂ (fun item bytes => encode item = .ok bytes) items pieces)
    (hone : ∀ {item : α} {bytes : Bytes}, encode item = .ok bytes → 1 ≤ bytes.length) :
    items.length ≤ pieces.flatten.length := by
  rw [h.length_eq]
  refine Read.length_le_flatten ?_
  induction h with
  | nil => simp
  | cons hfirst _ ih => exact List.forall_mem_cons.2 ⟨hone hfirst, ih⟩

/-- No piece is longer than all of them. -/
theorem length_le_of_forall₂ {α : Type} {encode : α → Except Error Bytes} {items : List α}
    {pieces : List Bytes} {item : α} {bytes : Bytes}
    (h : List.Forall₂ (fun item bytes => encode item = .ok bytes) items pieces)
    (hmem : item ∈ items) (hencode : encode item = .ok bytes) :
    bytes.length ≤ pieces.flatten.length := by
  induction h with
  | nil => exact absurd hmem List.not_mem_nil
  | cons hfirst _ ih =>
    rw [List.flatten_cons, List.length_append]
    rcases List.mem_cons.1 hmem with rfl | hmem
    · cases hfirst.symm.trans hencode
      exact Nat.le_add_right _ _
    · exact Nat.le_add_left_of_le (ih hmem)

/-! ### Submixes -/

namespace Submix

variable {mode : ReadMode} {registry : Registry} {labels : List String}

/-- Around the elements and the gain of a submix everything is read back alike. -/
theorem consumes_of_encode (mode : ReadMode) {scope : Scope} {submix : Submix} {bytes : Bytes}
    (helementCount : submix.elements.length < 2 ^ 32)
    (hlayoutCount : submix.layouts.length < 2 ^ 32)
    (hencode : submix.encode labels = .ok bytes) :
    ∃ pieces gain,
      List.Forall₂ (fun member bytes => SubmixElement.encode labels member = .ok bytes)
        submix.elements pieces
      ∧ submix.gain.encodeMixGain = .ok gain
      ∧ ∀ members middle definition after,
        Chain (SubmixElement.read mode registry labels) scope members pieces middle →
        Consumes (Parameter.readDefinition mode .mixGain {} middle) gain (definition, after) →
        Consumes (Submix.read mode registry labels scope) bytes
          ({ elements := members
             layouts := submix.layouts.map (·.received)
             gain := definition
             defaultGain := submix.defaultGain.nearest }, after) := by
  simp only [encode, outcome_bind_eq_ok, outcome_pure_eq_ok] at hencode
  obtain ⟨elements, helements, gain, hgain, layouts, hlayouts, rfl⟩ := hencode
  have helements := outcome_mapM_eq_ok helements
  have hlayouts := outcome_mapM_eq_ok hlayouts
  refine ⟨elements, gain, helements, hgain,
    fun members middle definition after hmembers hread => ?_⟩
  have hlength : submix.elements.length = members.length :=
    helements.length_eq.trans hmembers.length_eq.symm
  simp only [List.append_assoc]
  refine (Leb128.consumes_encode _).bind ?_
  rw [Read.toNat_ofNat_count helementCount]
  refine Takes.checkCount_bind ?_ ?_
  · rw [List.length_append]
    exact Nat.le_add_right_of_le
      (one_le_length_of_forall₂ helements SubmixElement.one_le_length)
  rw [hlength]
  refine (Consumes.timesWith hmembers).bind (hread.bind ?_)
  refine submix.defaultGain.consumes_nearest.bind ((Leb128.consumes_encode _).bind ?_)
  rw [Read.toNat_ofNat_count hlayoutCount]
  refine Takes.checkCount_bind (one_le_length_of_forall₂ hlayouts SubmixLayout.one_le_length) ?_
  have hreceived : List.Forall₂ (fun layout bytes => Consumes SubmixLayout.read bytes layout)
      (submix.layouts.map (·.received)) layouts :=
    List.forall₂_map_left_iff.2 (hlayouts.imp fun _ _ h => SubmixLayout.consumes_encode h)
  have hsame : submix.layouts.length = (submix.layouts.map (·.received)).length :=
    (List.length_map _).symm
  rw [hsame]
  exact (Consumes.times hreceived).bind_pure _

theorem consumes_encode {scope : Scope} {submix : Submix} {bytes : Bytes}
    (h : submix.IsReadable registry labels) (hallows : scope.AllowsAll (submix.placed registry))
    (hencode : submix.encode labels = .ok bytes) :
    Consumes (Submix.read mode registry labels scope) bytes
      (submix, scope.storeAll (submix.placed registry)) := by
  obtain ⟨pieces, gain, helements, hgain, hread⟩ :=
    consumes_of_encode mode h.elementCount h.layoutCount hencode
  obtain ⟨hmembers, hlast, -⟩ := Scope.allowsAll_append.1 hallows
  have hsubmix := hread _ _ _ _ (SubmixElement.chain_encode helements h.elements hmembers)
    (Parameter.consumes_encodeMixGain h.gain hlast hgain)
  have hlayouts : submix.layouts.map (·.received) = submix.layouts :=
    (List.map_congr_left fun layout hmem =>
      SubmixLayout.received_of_isReadable (h.layouts layout hmem)).trans (List.map_id' _)
  rw [hlayouts, Ratio.nearest_of_isQ8 h.defaultGain] at hsubmix
  rw [placed, Scope.storeAll_append]
  exact hsubmix

theorem one_le_length {submix : Submix} {bytes : Bytes} (h : submix.encode labels = .ok bytes) :
    1 ≤ bytes.length := by
  simp only [encode, outcome_bind_eq_ok, outcome_pure_eq_ok] at h
  obtain ⟨_, -, _, -, _, -, rfl⟩ := h
  have hcount := Leb128.size_le (UInt32.ofNat submix.elements.length)
  simp only [List.length_append, Leb128.length_encode]
  omega

/-- No count is greater than the number of bytes. -/
theorem length_le_of_encode {submix : Submix} {bytes : Bytes}
    (h : submix.encode labels = .ok bytes) :
    submix.elements.length ≤ bytes.length ∧ submix.layouts.length ≤ bytes.length := by
  simp only [encode, outcome_bind_eq_ok, outcome_pure_eq_ok] at h
  obtain ⟨elements, helements, _, -, layouts, hlayouts, rfl⟩ := h
  have helementCount :=
    one_le_length_of_forall₂ (outcome_mapM_eq_ok helements) SubmixElement.one_le_length
  have hlayoutCount :=
    one_le_length_of_forall₂ (outcome_mapM_eq_ok hlayouts) SubmixLayout.one_le_length
  simp only [List.length_append]
  omega

/-- The submixes of a presentation, each in the scope that those before it have
left. -/
theorem chain_encode {submixes : List Submix} {pieces : List Bytes}
    (hencode : List.Forall₂ (fun submix bytes => encode labels submix = .ok bytes)
      submixes pieces) :
    ∀ {scope : Scope}, (∀ submix ∈ submixes, submix.IsReadable registry labels) →
      scope.AllowsAll (submixes.flatMap (·.placed registry)) →
      Chain (Submix.read mode registry labels) scope submixes pieces
        (scope.storeAll (submixes.flatMap (·.placed registry))) := by
  induction hencode with
  | nil => exact fun {scope} _ _ => .nil scope
  | cons hfirst _ ih =>
    intro scope hreadable hallows
    obtain ⟨hreadableFirst, hothers⟩ := List.forall_mem_cons.1 hreadable
    rw [List.flatMap_cons, Scope.allowsAll_append] at hallows
    rw [List.flatMap_cons, Scope.storeAll_append]
    exact .cons (consumes_encode hreadableFirst hallows.1 hfirst) (ih hothers hallows.2)

end Submix

/-! ### Presentations -/

namespace MixPresentation

/-- No count is greater than the number of bytes, and no submix is longer than the
presentation. -/
theorem length_le_of_encode {mix : MixPresentation} {body : Bytes} (h : mix.encode = .ok body) :
    mix.labels.length ≤ body.length ∧ mix.submixes.length ≤ body.length
      ∧ ∀ submix ∈ mix.submixes, ∀ bytes, submix.encode mix.labels = .ok bytes →
        bytes.length ≤ body.length := by
  simp only [encode, outcome_bind_eq_ok, outcome_pure_eq_ok] at h
  obtain ⟨labels, hlabels, _, -, pieces, hpieces, rfl⟩ := h
  have hpieces := outcome_mapM_eq_ok hpieces
  have hlabelCount :=
    one_le_length_of_forall₂ (outcome_mapM_eq_ok hlabels) Text.Terminated.one_le_length
  have hsubmixCount := one_le_length_of_forall₂ hpieces Submix.one_le_length
  simp only [List.length_append]
  refine ⟨by omega, by omega, fun submix hmem bytes hbytes => ?_⟩
  have hpiece := length_le_of_forall₂ hpieces hmem hbytes
  omega

/-- Around the texts and the submixes of a presentation everything is read back alike. -/
theorem parse_of_encode {registry : Registry} {mix : MixPresentation} {body : Bytes}
    {mode : ReadMode} (hfresh : registry.mixPresentation? mix.id = none)
    (hlabelCount : mix.labels.length < 2 ^ 32) (hsubmixCount : mix.submixes.length < 2 ^ 32)
    (hencode : mix.encode = .ok body) :
    ∃ annotations pieces, mix.annotations.encode mix.labels = .ok annotations
      ∧ List.Forall₂ (fun submix bytes => Submix.encode mix.labels submix = .ok bytes)
        mix.submixes pieces
      ∧ ∀ texts submixes after, Consumes (Annotations.read mix.labels) annotations texts →
        Chain (Submix.read mode registry mix.labels) { known := registry.parameters } submixes
          pieces after →
        parse mode registry body
          = .ok ({ mix with annotations := texts, submixes }, after.pending) := by
  simp only [encode, outcome_bind_eq_ok, outcome_pure_eq_ok] at hencode
  obtain ⟨labels, hlabels, annotations, hannotations, pieces, hpieces, rfl⟩ := hencode
  have hlabels := outcome_mapM_eq_ok hlabels
  have hpieces := outcome_mapM_eq_ok hpieces
  refine ⟨annotations, pieces, hannotations, hpieces, fun texts submixes after htexts hchain => ?_⟩
  have hlength : mix.submixes.length = submixes.length :=
    hpieces.length_eq.trans hchain.length_eq.symm
  refine Exhausts.parse ?_ "mix presentation"
  simp only [List.append_assoc]
  refine (Leb128.consumes_encode mix.id).bind (Takes.ensure_bind hfresh ?_)
  refine (Leb128.consumes_encode _).bind ?_
  rw [Read.toNat_ofNat_count hlabelCount]
  refine Takes.checkCount_bind ?_ ?_
  · rw [List.length_append]
    exact Nat.le_add_right_of_le
      (one_le_length_of_forall₂ hlabels Text.Terminated.one_le_length)
  have hread := hlabels.imp fun _ _ h => Text.Terminated.consumes_encode h
  refine (Consumes.times hread).bind (htexts.bind ?_)
  refine (Leb128.consumes_encode _).bind ?_
  rw [Read.toNat_ofNat_count hsubmixCount]
  refine Takes.checkCount_bind (one_le_length_of_forall₂ hpieces Submix.one_le_length) ?_
  rw [hlength]
  refine ((Consumes.timesWith hchain).weaken fun _ _ => trivial).bind_nil
    (Exhausts.finish_bind ?_)
  exact Takes.pure _

/-- A readable presentation that can be written is read back as it was, and
brings the latest of its definitions. -/
theorem parse_encode {registry : Registry} {mix : MixPresentation} {body : Bytes}
    (h : mix.Readable registry) (hencode : mix.encode = .ok body) (mode : ReadMode) :
    parse mode registry body = .ok (mix, (Scope.storeAll { known := registry.parameters }
      (mix.placed registry)).pending) := by
  obtain ⟨annotations, pieces, hannotations, hpieces, hparse⟩ :=
    parse_of_encode h.fresh h.labelCount h.submixCount hencode
  exact hparse mix.annotations mix.submixes _
    (Annotations.consumes_encode h.annotations hannotations)
    (Submix.chain_encode hpieces h.submixes h.allowed)

/-- What is read where a presentation was written has its id. -/
theorem identity_of_parse {registry : Registry} {mode : ReadMode} {mix read : MixPresentation}
    {definitions : List Parameter} {body : Bytes} (hencode : mix.encode = .ok body)
    (hparse : parse mode registry body = .ok (read, definitions)) : read.id = mix.id := by
  simp only [encode, outcome_bind_eq_ok, outcome_pure_eq_ok] at hencode
  obtain ⟨labels, -, annotations, -, submixes, -, rfl⟩ := hencode
  rw [parse, Read.parse_eq_ok] at hparse
  obtain ⟨after, hparse⟩ := hparse
  simp only [Reader.ofBytes, MixPresentation.read, List.append_assoc] at hparse
  rw [Takes.run_bind (Leb128.consumes_encode mix.id)] at hparse
  simp only [Read.bind_eq_ok, Read.pure_eq_ok, Prod.mk.injEq] at hparse
  obtain ⟨_, _, -, _, _, -, _, _, -, _, _, -, _, _, -, _, _, -, _, _, -, _, _, -, _, _, -,
    ⟨rfl, -⟩, -⟩ := hparse
  rfl

end MixPresentation

end Iamf
