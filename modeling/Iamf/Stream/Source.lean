import Iamf.Stateful
import Iamf.Stream.Input

/-!
# `Iamf.Stream.Source`: an input with a small lookahead

A header has to be looked at before it is known whether its OBU is to be
consumed. `Source.fill` reads ahead; `Source.take` and `Source.skip` consume what
was read ahead first and then read on.

* `Source.fill_eq_ok`, `Source.consume_eq_ok`: what comes off the front of the input.
-/

set_option autoImplicit false

namespace Iamf

/-- An input and the bytes that were read ahead from it. -/
structure Source where
  /-- The bytes that were read ahead. -/
  lookahead : Bytes := []
  /-- The input behind them. -/
  input : Input
  /-- Whether the input was found at its end, after which nothing is read ahead. -/
  ended : Bool := false

namespace Source

/-- How many bytes are to come. -/
def remaining (source : Source) : Nat :=
  source.lookahead.length + source.input.rest.length

/-- Reads ahead until `want` bytes are there or the input ends. Bytes that came
before a failure stay read ahead. -/
def fill (want : Nat) : Stateful Source Unit := fun source =>
  if source.ended then .ok () source
  else
    let (bytes, outcome, input) := source.input.gather (want - source.lookahead.length)
    let filled := { source with lookahead := source.lookahead ++ bytes, input }
    match outcome with
    | .complete => .ok () filled
    | .ended => .ok () { filled with ended := true }
    | .failed text => .error (.io text) filled

/-- Consumes `count` bytes, which are part of the named structure: those that
were read ahead, and then those that `program` reads. -/
def consume (program : Nat → Input → Bytes × Outcome × Input) (count : Nat)
    (subject : String) : Stateful Source Bytes := fun source =>
  let (bytes, outcome, input) := program (count - source.lookahead.length) source.input
  let consumed := { source with lookahead := source.lookahead.drop count, input }
  match outcome with
  | .complete => .ok (source.lookahead.take count ++ bytes) consumed
  | .ended => .error (.truncated subject) { consumed with ended := true }
  | .failed text => .error (.io text) consumed

/-- Consumes `count` bytes and gives them. -/
def take (count : Nat) (subject : String) : Stateful Source Bytes :=
  consume Input.gatherChunks count subject

/-- Passes over `count` bytes. -/
def skip (count : Nat) (subject : String) : Stateful Source Unit := do
  let _ ← consume Input.gather count subject

/-- What is read ahead comes off the front of the input, no more of it than was
missing. -/
theorem fill_eq_ok {want : Nat} {source after : Source} {result : Unit}
    (h : fill want source = .ok result after) :
    ∃ count ≤ want - source.lookahead.length,
      after.lookahead = source.lookahead ++ source.input.rest.take count
        ∧ after.input.rest = source.input.rest.drop count := by
  simp only [fill] at h
  split at h
  · cases h
    exact ⟨0, Nat.zero_le _, (List.append_nil _).symm, rfl⟩
  · obtain ⟨hbytes, -, hrest, -⟩ :=
      Input.gather_eq (want - source.lookahead.length) source.input
    refine ⟨want - source.lookahead.length, Nat.le_refl _, ?_⟩
    split at h
    · cases h
      exact ⟨by rw [hbytes], hrest⟩
    · cases h
      exact ⟨by rw [hbytes], hrest⟩
    · cases h

/-- Reading ahead loses nothing. -/
theorem remaining_fill {want : Nat} {source after : Source} {result : Unit}
    (h : fill want source = .ok result after) : after.remaining = source.remaining := by
  obtain ⟨count, -, hlookahead, hrest⟩ := fill_eq_ok h
  simp only [remaining, hlookahead, hrest, List.length_append, List.length_take,
    List.length_drop]
  omega

/-- Consuming takes exactly `count` bytes off the front. -/
theorem consume_eq_ok {program : Nat → Input → Bytes × Outcome × Input}
    (hprogram : Input.Gathers program) {count : Nat} {subject : String}
    {source after : Source} {bytes : Bytes}
    (h : consume program count subject source = .ok bytes after) :
    source.lookahead ++ source.input.rest = bytes ++ (after.lookahead ++ after.input.rest)
      ∧ bytes.length = count ∧ after.remaining + count = source.remaining := by
  obtain ⟨hbytes, houtcome, hrest, -⟩ :=
    hprogram (count - source.lookahead.length) source.input
  simp only [consume] at h
  split at h
  · rename_i hcomplete
    rw [houtcome] at hcomplete
    split at hcomplete
    · rename_i hle
      cases h
      simp only [remaining, hbytes, hrest, List.length_append, List.length_take,
        List.length_drop]
      refine ⟨?_, by omega, by omega⟩
      rcases Nat.le_total count source.lookahead.length with hcount | hcount
      · simp [Nat.sub_eq_zero_of_le hcount, ← List.append_assoc]
      · simp [List.take_of_length_le hcount, List.drop_of_length_le hcount]
    · exact absurd hcomplete source.input.ending_ne_complete
  · cases h
  · cases h

theorem take_eq_ok {count : Nat} {subject : String} {source after : Source} {bytes : Bytes}
    (h : take count subject source = .ok bytes after) :
    source.lookahead ++ source.input.rest = bytes ++ (after.lookahead ++ after.input.rest)
      ∧ bytes.length = count ∧ after.remaining + count = source.remaining :=
  consume_eq_ok Input.gatherChunks_eq h

/-- Passing over bytes takes them off the front. -/
theorem skip_eq_ok {count : Nat} {subject : String} {source after : Source} {result : Unit}
    (h : skip count subject source = .ok result after) :
    after.remaining + count = source.remaining := by
  simp only [skip, Stateful.bind_eq_ok] at h
  obtain ⟨bytes, middle, hconsume, h⟩ := h
  cases h
  exact (consume_eq_ok Input.gather_eq hconsume).2.2

end Source

end Iamf
