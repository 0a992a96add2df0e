import Iamf.Proofs.Mix.Reencoded
import Iamf.Proofs.Registry.Coherent

/-!
# `Iamf.Proofs.Mix.Annotated`: the first text of a label stays

Annotations are made by inserting texts one after the other. Every label has one place,
that of its first insertion, and the text that came with it; what comes later for the same
label is dropped. A place with texts is written by its labels, not by the annotations: a
label that comes twice is written twice, and one without a text as an empty one. Reading
inserts again what was written, so each label is back at the place where it first came,
with the one text that it has.

* `labels_insertAll`, `get?_insertAll`: which labels there are, and which text each has.
* `exists_encode_iff_fits`: texts of up to 127 bytes without a NUL can be written.
* `first_text_stays`: what comes of any insertions, written and read by any labels.
-/

set_option autoImplicit false

namespace Iamf.Annotations

open Read (Consumes)

/-- The labels that have a text, in the order of insertion. -/
def labels (annotations : Annotations) : List String :=
  annotations.entries.map (·.1)

theorem mem_labels_iff {annotations : Annotations} {label : String} :
    label ∈ annotations.labels ↔ (annotations.get? label).isSome := by
  simp [labels, get?]

/-! ### Insertions -/

theorem labels_insert_of_mem {annotations : Annotations} {label : String} (text : String)
    (h : label ∈ annotations.labels) :
    (annotations.insert label text).labels = annotations.labels := by
  rw [insert_of_isSome text (mem_labels_iff.1 h)]

theorem insert_of_notMem {annotations : Annotations} {label : String} (text : String)
    (h : label ∉ annotations.labels) :
    annotations.insert label text = ⟨annotations.entries ++ [(label, text)]⟩ := by
  rw [insert, if_neg (mt mem_labels_iff.2 h)]

/-- Labels that are distinct stay distinct. -/
theorem nodup_labels_insert {annotations : Annotations} (h : annotations.labels.Nodup)
    (label text : String) : (annotations.insert label text).labels.Nodup := by
  by_cases hmem : label ∈ annotations.labels
  · rwa [labels_insert_of_mem text hmem]
  · have hfresh : annotations.entries.find? (·.1 = label) = none := by
      rwa [mem_labels_iff, get?, Option.isSome_map, Option.not_isSome_iff_eq_none] at hmem
    rw [insert_of_notMem text hmem]
    exact Registry.nodup_append_fresh h hfresh

theorem nodup_labels_insertAll {entries : List (String × String)} :
    ∀ {annotations : Annotations}, annotations.labels.Nodup →
      (annotations.insertAll entries).labels.Nodup := by
  induction entries with
  | nil => exact fun h => h
  | cons entry entries ih => exact fun h => ih (nodup_labels_insert h entry.1 entry.2)

/-- Behind the labels that are there come those that are not, where they first came. -/
theorem labels_insertAll (entries : List (String × String)) (annotations : Annotations) :
    (annotations.insertAll entries).labels
      = annotations.labels
        ++ ((entries.map (·.1)).removeAll annotations.labels).eraseDups := by
  induction entries generalizing annotations with
  | nil => simp [insertAll]
  | cons entry entries ih =>
    obtain ⟨label, text⟩ := entry
    rw [insertAll, List.foldl_cons, ih, List.map_cons, List.cons_removeAll]
    by_cases hmem : label ∈ annotations.labels
    · rw [labels_insert_of_mem text hmem, if_neg (by simpa using hmem)]
    · have hlabels : (annotations.insert label text).labels = annotations.labels ++ [label] := by
        rw [insert_of_notMem text hmem, labels, labels, List.map_append, List.map_singleton]
      rw [hlabels, if_pos (by simpa using hmem), List.eraseDups_cons, List.append_assoc,
        List.singleton_append]
      -- Of what is still to come, the label is passed over like those before it.
      congr 3
      simp only [List.removeAll, List.filter_filter]
      exact List.filter_congr fun other _ => by simp [beq_eq_decide, Bool.and_comm]

/-- A label has the text that it had, or else the first one that was inserted for it. -/
theorem get?_insertAll (entries : List (String × String)) (annotations : Annotations)
    (label : String) :
    (annotations.insertAll entries).get? label
      = (annotations.get? label <|> (entries.find? (·.1 = label)).map (·.2)) := by
  induction entries generalizing annotations with
  | nil => simp [insertAll]
  | cons entry entries ih =>
    obtain ⟨other, text⟩ := entry
    rw [insertAll, List.foldl_cons, ih, List.find?_cons]
    by_cases hother : other = label
    · subst hother
      cases hget : annotations.get? other with
      | some old => simp [get?_insert_of_eq_some text hget]
      | none => simp [get?_insert_self text hget]
    · simp [get?_insert_ne text hother, hother]

/-! ### Texts that were written -/

/-- Annotations with distinct labels consist of these and their texts. -/
theorem entries_eq_map {annotations : Annotations} (h : annotations.labels.Nodup) :
    annotations.entries
      = annotations.labels.map fun label => (label, annotations.textOf label) := by
  rw [labels, List.map_map]
  refine (List.map_id _).symm.trans (List.map_congr_left fun entry hmem => ?_)
  have hfind := Registry.find?_of_nodup h hmem
  simp [textOf, get?, hfind]

/-- The texts of some labels can be written just if each of them leaves room for a NUL and
holds none. -/
theorem exists_encode_iff_fits (annotations : Annotations) (labels : List String) :
    (∃ bytes, annotations.encode labels = .ok bytes)
      ↔ ∀ label ∈ labels, (Text.Utf8.encode (annotations.textOf label)).length ≤ 127
        ∧ 0 ∉ Text.Utf8.encode (annotations.textOf label) := by
  rw [encode, outcome_exists_bind_iff fun _ => outcome_exists_pure, and_true,
    outcome_exists_mapM_iff]
  refine forall₂_congr fun label _ => ?_
  rw [Text.Terminated.encode, outcome_exists_bind_iff fun _ => outcome_exists_pure, and_true]
  simp only [outcome_ensure_eq_ok, exists_const, Text.Terminated.fits, Text.Terminated.maxSize,
    Bool.and_eq_true, decide_eq_true_eq, Bool.not_eq_true', List.contains_eq_mem,
    decide_eq_false_iff_not, Nat.lt_succ_iff]

/-- The first of some labels that is a given one. -/
theorem find?_eq_some_self {labels : List String} {label : String} (h : label ∈ labels) :
    labels.find? (· = label) = some label := by
  cases hfind : labels.find? (· = label) with
  | none => simpa using List.find?_eq_none.1 hfind label h
  | some other =>
    have hother := List.find?_some hfind
    rw [of_decide_eq_true hother]

/-- What is read for some labels has a text for each of them, and each where it first
came. -/
theorem insertAll_map_textOf (annotations : Annotations) (labels : List String) :
    insertAll {} (labels.map fun label => (label, annotations.textOf label))
      = ⟨labels.eraseDups.map fun label => (label, annotations.textOf label)⟩ := by
  have hnodup : (insertAll {} (labels.map fun label =>
      (label, annotations.textOf label))).labels.Nodup :=
    nodup_labels_insertAll List.nodup_nil
  have hlabels : (insertAll {} (labels.map fun label =>
      (label, annotations.textOf label))).labels = labels.eraseDups := by
    rw [labels_insertAll, List.map_map]
    simp [Annotations.labels, Function.comp_def]
  -- Whichever of the texts of a label comes first, they are all the same.
  have htexts : ∀ label ∈ labels.eraseDups, (insertAll {} (labels.map fun label =>
      (label, annotations.textOf label))).textOf label = annotations.textOf label := by
    intro label hmem
    have hfound := find?_eq_some_self (List.mem_eraseDups.1 hmem)
    rw [textOf, get?_insertAll, List.find?_map]
    simp [get?, Function.comp_def, hfound]
  generalize insertAll {} _ = received at hnodup hlabels htexts ⊢
  calc received
      = ⟨received.labels.map fun label => (label, received.textOf label)⟩ :=
        congrArg Annotations.mk (entries_eq_map hnodup)
    _ = ⟨labels.eraseDups.map fun label => (label, annotations.textOf label)⟩ := by
        rw [hlabels, List.map_congr_left fun label hmem => by rw [htexts label hmem]]

/-- Whatever texts are inserted, one after the other: each label has one place, where it
first came, and its first text. And whatever labels they are then written for, repeated or
without a text: that can be done just if every text has at most 127 bytes and no NUL, and
what is written is read back, nothing left of it and nothing of what follows taken, as the
text of each label, or an empty one, where the label first came. -/
theorem first_text_stays (inserted : List (String × String)) (labels : List String) :
    (insertAll {} inserted).labels = (inserted.map (·.1)).eraseDups
      ∧ (insertAll {} inserted).labels.Nodup
      ∧ (∀ label, (insertAll {} inserted).get? label
        = (inserted.find? (·.1 = label)).map (·.2))
      ∧ ((∃ bytes, (insertAll {} inserted).encode labels = .ok bytes)
        ↔ ∀ label ∈ labels,
          (Text.Utf8.encode ((insertAll {} inserted).textOf label)).length ≤ 127
            ∧ 0 ∉ Text.Utf8.encode ((insertAll {} inserted).textOf label))
      ∧ ∀ bytes, (insertAll {} inserted).encode labels = .ok bytes →
        Consumes (read labels) bytes
          ⟨labels.eraseDups.map fun label => (label, (insertAll {} inserted).textOf label)⟩ := by
  refine ⟨?_, nodup_labels_insertAll List.nodup_nil, fun label => ?_,
    exists_encode_iff_fits _ labels, fun bytes hencode => ?_⟩
  · rw [labels_insertAll]
    simp [Annotations.labels]
  · rw [get?_insertAll]
    simp [get?]
  · simp only [encode, outcome_bind_eq_ok, outcome_pure_eq_ok] at hencode
    obtain ⟨pieces, hpieces, rfl⟩ := hencode
    have hread := consumes_go (insertAll {} inserted).textOf (outcome_mapM_eq_ok hpieces) {}
    rwa [insertAll_map_textOf] at hread

/-- A text of 127 bytes, as long as there may be. -/
def longText : String :=
  String.ofList (List.replicate 127 'a')

/-- The longest text there may be, for a label that got another one later. A label without a
text comes back with an empty one, and one that is asked for twice comes back once. -/
theorem first_text_stays_long :
    (insertAll {} [("fr", longText), ("en", "one"), ("fr", "deux")]).encode
        ["en", "de", "fr", "en"]
      = .ok ([0x6f, 0x6e, 0x65, 0] ++ [0] ++ (List.replicate 127 0x61 ++ [0])
        ++ [0x6f, 0x6e, 0x65, 0])
      ∧ Consumes (read ["en", "de", "fr", "en"])
        ([0x6f, 0x6e, 0x65, 0] ++ [0] ++ (List.replicate 127 0x61 ++ [0])
          ++ [0x6f, 0x6e, 0x65, 0])
        ⟨[("en", "one"), ("de", ""), ("fr", longText)]⟩ := by
  have hencode : (insertAll {} [("fr", longText), ("en", "one"), ("fr", "deux")]).encode
      ["en", "de", "fr", "en"]
      = .ok ([0x6f, 0x6e, 0x65, 0] ++ [0] ++ (List.replicate 127 0x61 ++ [0])
        ++ [0x6f, 0x6e, 0x65, 0]) := by
    decide +kernel
  have hread := (first_text_stays [("fr", longText), ("en", "one"), ("fr", "deux")]
    ["en", "de", "fr", "en"]).2.2.2.2 _ hencode
  have hannotations : (["en", "de", "fr", "en"].eraseDups.map fun label =>
      (label, (insertAll {} [("fr", longText), ("en", "one"), ("fr", "deux")]).textOf label))
      = [("en", "one"), ("de", ""), ("fr", longText)] := by
    decide +kernel
  rw [hannotations] at hread
  exact ⟨hencode, hread⟩

end Iamf.Annotations
