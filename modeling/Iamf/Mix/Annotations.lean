/-!
# `Iamf.Mix.Annotations`: texts by language label

Annotations keep their labels in the order of insertion, and the first text of
a label stays: inserting a label again changes nothing.

* `insert_of_isSome`, `get?_insert_self`, `get?_insert_ne`: what `insert`
  does to `get?`.
-/

set_option autoImplicit false

namespace Iamf

/-- Texts by label, in the order of insertion. -/
structure Annotations where
  /-- The labels with their texts. -/
  entries : List (String × String) := []
  deriving DecidableEq, Repr

namespace Annotations

/-- The text of a label. -/
def get? (annotations : Annotations) (label : String) : Option String :=
  (annotations.entries.find? (·.1 = label)).map (·.2)

/-- Adds a text for a label that has none yet. -/
def insert (annotations : Annotations) (label text : String) : Annotations :=
  if (annotations.get? label).isSome then annotations
  else { entries := annotations.entries ++ [(label, text)] }

/-- The number of labels with a text. -/
def size (annotations : Annotations) : Nat :=
  annotations.entries.length

/-- Whether there are no texts. -/
def isEmpty (annotations : Annotations) : Bool :=
  annotations.entries.isEmpty

/-- A label that has a text keeps it. -/
theorem insert_of_isSome {annotations : Annotations} {label : String} (text : String)
    (h : (annotations.get? label).isSome) : annotations.insert label text = annotations := by
  simp [insert, h]

/-- A label that has no text gets it. -/
theorem get?_insert_self {annotations : Annotations} {label : String} (text : String)
    (h : annotations.get? label = none) :
    (annotations.insert label text).get? label = some text := by
  have hfind : annotations.entries.find? (·.1 = label) = none := by
    simpa [get?] using h
  simp [insert, get?, List.find?_append, hfind]

/-- Other labels are left alone. -/
theorem get?_insert_ne {annotations : Annotations} {label other : String} (text : String)
    (h : label ≠ other) :
    (annotations.insert label text).get? other = annotations.get? other := by
  simp only [insert]
  split
  · rfl
  · simp [get?, List.find?_append, h]

end Annotations

end Iamf
