import Iamf.Obu.Header
import Iamf.Proofs.Checked.Following
import Iamf.Stream.Source

/-!
# `Iamf.Proofs.Checked.Feed`: a source with a buffer and a position

What was read ahead stands in a buffer, and a position says how much of it has been
consumed. The buffer is filled from a chunk of a fixed size, and consumed bytes are
dropped from it before more are read. Bytes beyond the buffer are not put there: those
of a header are passed over, and those of a body are collected chunk by chunk.

A `Feed` shows the `Source` whose lookahead is what stands behind the position.

* `follows_fill`, `follows_skip`, `follows_take`: reading ahead and consuming.
-/

set_option autoImplicit false

namespace Iamf.Checked

/-- A source with its bookkeeping. -/
structure Feed where
  /-- The bytes that were read ahead. -/
  buffer : Bytes := []
  /-- How many of them have been consumed. -/
  position : Nat := 0
  /-- The input behind them. -/
  input : Input
  /-- Whether the input was found at its end. -/
  ended : Bool := false

namespace Feed

/-- Where bytes are put that are read ahead. -/
def chunk : Bytes :=
  List.replicate 64 0

/-- Reads ahead until `want` bytes are there or the input ends. -/
def fillRounds (want : Nat) : (rounds : Nat) → Run Feed Unit
  | 0 => throw (.faulted .endless)
  | rounds + 1 => do
    let feed ← get
    if feed.buffer.length < want ∧ feed.ended = false then do
      let missing ← sub want feed.buffer.length
      let room ← slice chunk 0 (min missing chunk.length)
      match feed.input.readSome room.length with
      | (.ok bytes, input) => do
        let read ← slice (bytes ++ chunk.drop bytes.length) 0 bytes.length
        set { feed with buffer := feed.buffer ++ read, input }
        fillRounds want rounds
      | (.error (.failed text), input) => do
        set { feed with input }
        fail (.io text)
      | (.error _, input) => do
        set { feed with input, ended := true }
        fillRounds want rounds
    else return ()

/-- Drops what has been consumed, and reads ahead. -/
def fill (want : Nat) : Run Feed Unit := do
  let feed ← get
  if 0 < feed.position then do
    let buffer ← slice feed.buffer feed.position feed.buffer.length
    set { feed with buffer, position := 0 }
  fillRounds want (want + 1)

/-- Passes over `count` bytes, which are part of the named structure. -/
def skip (count : Nat) (subject : String) : Run Feed Unit := do
  let feed ← get
  let buffered ← sub feed.buffer.length feed.position
  if count ≤ buffered then do
    let position ← add 64 feed.position count
    set { feed with position }
  else do
    let rest ← sub count buffered
    match feed.input.gather rest with
    | (_, .failed text, input) => do
      set { feed with position := feed.buffer.length, input }
      fail (.io text)
    | (bytes, _, input) =>
      if bytes.length < rest then do
        set { feed with position := feed.buffer.length, input, ended := true }
        fail (.truncated subject)
      else set { feed with position := feed.buffer.length, input }

/-- Collects bytes behind `out` until there are `count` of them, a chunk at a time. -/
def takeRounds (count : Nat) (subject : String) : (rounds : Nat) → Bytes → Run Feed Bytes
  | 0, _ => throw (.faulted .endless)
  | rounds + 1, out =>
    if out.length < count then do
      let missing ← sub count out.length
      let feed ← get
      match feed.input.gather (min missing Input.chunkSize) with
      | (_, .failed text, input) => do
        set { feed with input }
        fail (.io text)
      | (bytes, _, input) =>
        if bytes.length = 0 then do
          set { feed with input, ended := true }
          fail (.truncated subject)
        else do
          set { feed with input }
          takeRounds count subject rounds (out ++ bytes)
    else return out

/-- Consumes `count` bytes, which are part of the named structure, and gives them. -/
def take (count : Nat) (subject : String) : Run Feed Bytes := do
  let feed ← get
  let left ← sub feed.buffer.length feed.position
  let buffered := min left count
  let stop ← add 64 feed.position buffered
  let front ← slice feed.buffer feed.position stop
  let position ← add 64 feed.position buffered
  set { feed with position }
  takeRounds count subject (count + 1) front

/-- A feed shows the source that has yet to be consumed. Its buffer has room for a header. -/
structure Shows (feed : Feed) (source : Source) : Prop where
  inside : feed.position ≤ feed.buffer.length
  bounded : feed.buffer.length ≤ Obu.maxHeaderSize
  source_eq : source = ⟨feed.buffer.drop feed.position, feed.input, feed.ended⟩

/-! ### Reading ahead -/

theorem fillRounds_done {want rounds : Nat} {feed : Feed}
    (h : ¬ (feed.buffer.length < want ∧ feed.ended = false)) :
    fillRounds want (rounds + 1) feed = .ok () feed := by
  rw [fillRounds, state_get_bind, if_neg h]
  rfl

/-- One round of reading ahead. What is missing of a header is less than a chunk. -/
theorem fillRounds_of_lt {want rounds : Nat} {buffer : Bytes} {input : Input}
    (hshort : buffer.length < want) (hwant : want ≤ chunk.length) :
    fillRounds want (rounds + 1) ⟨buffer, 0, input, false⟩
      = match input.readSome (want - buffer.length) with
        | (.ok bytes, next) => fillRounds want rounds ⟨buffer ++ bytes, 0, next, false⟩
        | (.error (.failed text), next) =>
          .error (.failed (.io text)) ⟨buffer, 0, next, false⟩
        | (.error _, next) => fillRounds want rounds ⟨buffer, 0, next, true⟩ := by
  have hroom : ((chunk.take (min (want - buffer.length) chunk.length)).drop 0).length
      = want - buffer.length := by
    rw [List.drop_zero, List.length_take]
    omega
  rw [fillRounds, state_get_bind, if_pos ⟨hshort, rfl⟩, sub_of (Nat.le_of_lt hshort), pure_bind,
    slice_of (Nat.zero_le _) (Nat.min_le_right _ _), pure_bind, hroom]
  rcases input.readSome (want - buffer.length) with ⟨outcome | bytes, next⟩
  · cases outcome <;> rfl
  · simp only
    rw [slice_of (Nat.zero_le _) (by rw [List.length_append]; omega), pure_bind, state_set_bind,
      List.take_left, List.drop_zero]

/-- Reading ahead in rounds adds what gathering all of it does. -/
theorem fillRounds_eq (front taken : Bytes) (input : Input) {missing want left : Nat}
    (hmissing : missing = want - (front ++ taken.reverse).length) (hleft : missing ≤ left)
    (hwant : want ≤ chunk.length) :
    fillRounds want (left + 1) ⟨front ++ taken.reverse, 0, input, false⟩
      = match input.gatherFrom missing taken with
        | (bytes, .complete, next) => .ok () ⟨front ++ bytes, 0, next, false⟩
        | (bytes, .ended, next) => .ok () ⟨front ++ bytes, 0, next, true⟩
        | (bytes, .failed text, next) =>
          .error (.failed (.io text)) ⟨front ++ bytes, 0, next, false⟩ := by
  -- Induction on the reads of the gathering; each of them is a round.
  fun_induction Input.gatherFrom missing taken input generalizing left with
  | case1 taken input => exact fillRounds_done (by simp only; omega)
  | case2 missing taken input hsome bytes next hread ih =>
    obtain ⟨-, hbytes, hle, -⟩ := Input.readSome_eq_ok hsome hread
    have hpos := List.length_pos_iff.2 hbytes
    have hlength : missing - bytes.length
        = want - (front ++ (bytes.reverse ++ taken).reverse).length := by
      simp only [hmissing, List.length_append, List.length_reverse]
      omega
    obtain ⟨rounds, rfl⟩ : ∃ rounds, left = rounds + 1 := ⟨left - 1, by omega⟩
    have hnext := ih hlength (by omega : missing - bytes.length ≤ rounds)
    rw [fillRounds_of_lt (by omega) hwant, ← hmissing, hread]
    simpa only [List.reverse_append, List.reverse_reverse, List.append_assoc] using hnext
  | case3 missing taken input hsome outcome next hread =>
    rw [fillRounds_of_lt (by omega) hwant, ← hmissing, hread]
    cases outcome with
    | failed text => rfl
    | ended =>
      obtain ⟨rounds, rfl⟩ : ∃ rounds, left = rounds + 1 := ⟨left - 1, by omega⟩
      exact fillRounds_done (by simp)
    | complete =>
      obtain ⟨-, -, houtcome, -⟩ := Input.readSome_eq_error hread
      rw [Input.ending] at houtcome
      split at houtcome <;> cases houtcome

/-- The bytes that have been consumed are dropped first. -/
theorem fill_eq {feed : Feed} (h : feed.position ≤ feed.buffer.length) (want : Nat) :
    fill want feed
      = fillRounds want (want + 1)
          ⟨feed.buffer.drop feed.position, 0, feed.input, feed.ended⟩ := by
  rw [fill, state_get_bind]
  by_cases hpos : 0 < feed.position
  · rw [if_pos hpos, slice_of h (Nat.le_refl _), pure_bind, state_set_bind, List.take_length]
  · obtain ⟨buffer, position, input, ended⟩ := feed
    obtain rfl : position = 0 := Nat.eq_zero_of_not_pos hpos
    rw [if_neg hpos]
    rfl

/-- Reading ahead fills the buffer up from its front. -/
theorem follows_fill :
    Follows Shows Shows (fun _ feed source => feed.position = 0 ∧ Shows feed source)
      (fill Obu.maxHeaderSize) (Source.fill Obu.maxHeaderSize) := by
  rintro feed source ⟨hinside, hbounded, rfl⟩
  rw [fill_eq hinside]
  have hlength : (feed.buffer.drop feed.position).length ≤ Obu.maxHeaderSize := by
    rw [List.length_drop]
    omega
  cases hended : feed.ended with
  | true =>
    rw [fillRounds_done (by simp)]
    exact .ok ⟨rfl, Nat.zero_le _, hlength, rfl⟩
  | false =>
    have hrounds := fillRounds_eq (feed.buffer.drop feed.position) [] feed.input rfl
      (Nat.sub_le _ _) (by decide : Obu.maxHeaderSize ≤ chunk.length)
    have hbytes := (Input.gather_eq
      (Obu.maxHeaderSize - (feed.buffer.drop feed.position).length) feed.input).1
    rw [List.reverse_nil, List.append_nil, ← Input.gather] at hrounds
    rw [hrounds]
    simp only [Source.fill, Bool.false_eq_true, if_false]
    revert hbytes
    -- The buffer is not filled up beyond a header.
    generalize feed.input.gather _ = gathered
    obtain ⟨bytes, outcome, next⟩ := gathered
    rintro (hbytes : bytes = _)
    have hfilled : (feed.buffer.drop feed.position ++ bytes).length ≤ Obu.maxHeaderSize := by
      rw [hbytes, List.length_append, List.length_take]
      omega
    cases outcome with
    | complete => exact .ok ⟨rfl, Nat.zero_le _, hfilled, rfl⟩
    | ended => exact .ok ⟨rfl, Nat.zero_le _, hfilled, rfl⟩
    | failed text => exact .error _ ⟨Nat.zero_le _, hfilled, rfl⟩

/-! ### Consuming -/

/-- Bytes that were all there can be told from their number. -/
theorem complete_iff_of_gathers {program : Nat → Input → Bytes × Outcome × Input}
    (hprogram : Input.Gathers program) (want : Nat) (input : Input) :
    (program want input).2.1 = .complete ↔ ¬ (program want input).1.length < want := by
  obtain ⟨hbytes, houtcome, -, -⟩ := hprogram want input
  rw [hbytes, houtcome, List.length_take]
  split
  · rename_i hle
    simp only [true_iff]
    omega
  · rename_i hlt
    simp only [input.ending_ne_complete, false_iff]
    omega

theorem gather_zero (input : Input) : input.gather 0 = ([], .complete, input) := by
  rw [Input.gather, Input.gatherFrom, dif_pos rfl]
  rfl

theorem skip_eq (count : Nat) (subject : String) (source : Source) :
    Source.skip count subject source
      = match source.input.gather (count - source.lookahead.length) with
        | (_, .complete, input) =>
          .ok () { source with lookahead := source.lookahead.drop count, input }
        | (_, .ended, input) =>
          .error (.truncated subject)
            { lookahead := source.lookahead.drop count, input, ended := true }
        | (_, .failed text, input) =>
          .error (.io text) { source with lookahead := source.lookahead.drop count, input } := by
  simp only [Source.skip, Source.consume, Bind.bind, EStateM.bind]
  generalize source.input.gather _ = gathered
  obtain ⟨bytes, outcome, next⟩ := gathered
  cases outcome <;> rfl

theorem follows_skip (count : Nat) (subject : String) :
    Follows Shows Shows (fun _ => Shows) (skip count subject) (Source.skip count subject) := by
  rintro feed source ⟨hinside, hbounded, rfl⟩
  have hroom : Obu.maxHeaderSize < 2 ^ 64 := by decide
  have hbehind : (feed.buffer.drop feed.position).length = feed.buffer.length - feed.position :=
    List.length_drop
  rw [skip, state_get_bind, sub_of hinside, pure_bind, skip_eq]
  simp only [hbehind]
  by_cases hle : count ≤ feed.buffer.length - feed.position
  · rw [if_pos hle, add_of (by omega), pure_bind, Nat.sub_eq_zero_of_le hle, gather_zero]
    exact .ok ⟨by simp only; omega, hbounded, by rw [List.drop_drop]⟩
  · have hcomplete := complete_iff_of_gathers Input.gather_eq
      (count - (feed.buffer.length - feed.position)) feed.input
    rw [if_neg hle, sub_of (by omega), pure_bind]
    -- Nothing of the buffer is left.
    have hshows : ∀ input ended,
        Shows ⟨feed.buffer, feed.buffer.length, input, ended⟩
          ⟨(feed.buffer.drop feed.position).drop count, input, ended⟩ := by
      intro input ended
      refine ⟨Nat.le_refl _, hbounded, ?_⟩
      rw [List.drop_length, List.drop_drop, List.drop_of_length_le (by omega)]
    revert hcomplete
    generalize feed.input.gather _ = gathered
    obtain ⟨bytes, outcome, next⟩ := gathered
    intro hcomplete
    cases outcome with
    | complete =>
      simp only [if_neg (hcomplete.1 rfl)]
      exact .ok (hshows _ _)
    | ended =>
      have hshort : bytes.length < count - (feed.buffer.length - feed.position) :=
        Decidable.byContradiction fun hlong => by cases hcomplete.2 hlong
      simp only [if_pos hshort]
      exact .error _ (hshows _ _)
    | failed text => exact .error _ (hshows _ _)

/-- One round of collecting bytes. -/
theorem takeRounds_of_lt {count rounds : Nat} {subject : String} {out : Bytes} {feed : Feed}
    (h : out.length < count) :
    takeRounds count subject (rounds + 1) out feed
      = match feed.input.gather (min (count - out.length) Input.chunkSize) with
        | (_, .failed text, next) => .error (.failed (.io text)) { feed with input := next }
        | (bytes, _, next) =>
          if bytes = [] then
            .error (.failed (.truncated subject)) { feed with input := next, ended := true }
          else takeRounds count subject rounds (out ++ bytes) { feed with input := next } := by
  rw [takeRounds, if_pos h, sub_of (Nat.le_of_lt h), pure_bind, state_get_bind]
  generalize feed.input.gather _ = gathered
  obtain ⟨bytes, outcome, next⟩ := gathered
  cases outcome <;> cases bytes <;> rfl

/-- Collecting bytes in rounds puts those behind that reading chunk after chunk gives. -/
theorem takeRounds_eq {missing count left : Nat} {subject : String} {out : Bytes} {feed : Feed}
    (hmissing : missing = count - out.length) (hleft : missing ≤ left) :
    takeRounds count subject (left + 1) out feed
      = match feed.input.gatherChunks missing with
        | (bytes, .complete, next) => .ok (out ++ bytes) { feed with input := next }
        | (_, .ended, next) =>
          .error (.failed (.truncated subject)) { feed with input := next, ended := true }
        | (_, .failed text, next) =>
          .error (.failed (.io text)) { feed with input := next } := by
  obtain ⟨buffer, position, input, ended⟩ := feed
  -- Induction on the chunks; each of them is a round.
  fun_induction Input.gatherChunks missing input generalizing out left with
  | case1 input =>
    simp only [List.append_nil]
    rw [takeRounds, if_neg (by omega)]
    rfl
  | case2 missing input hsome bytes text next hchunk =>
    rw [takeRounds_of_lt (by omega), ← hmissing, hchunk]
  | case3 missing input hsome outcome next hsound hchunk =>
    rw [takeRounds_of_lt (by omega), ← hmissing, hchunk]
    cases outcome with
    | failed text => exact absurd rfl (hsound text)
    | complete | ended => rfl
  | case4 missing input hsome bytes outcome next hsound hchunk hbytes others outcome' last hothers
      ih =>
    have hpos := List.length_pos_iff.2 hbytes
    have hmore : 0 < missing := by omega
    obtain ⟨rounds, rfl⟩ : ∃ rounds, left = rounds + 1 := ⟨left - 1, by omega⟩
    have hlength : missing - bytes.length = count - (out ++ bytes).length := by
      rw [List.length_append]
      omega
    have hnext := ih hlength (by omega : missing - bytes.length ≤ rounds)
    rw [hothers] at hnext
    rw [takeRounds_of_lt (by omega), ← hmissing, hchunk]
    cases outcome with
    | failed text => exact absurd rfl (hsound text)
    | complete | ended =>
      simp only [if_neg hbytes, hnext]
      cases outcome' <;> simp only [List.append_assoc]

theorem follows_take (count : Nat) (subject : String) :
    Follows Shows Shows (fun _ => Shows) (take count subject) (Source.take count subject) := by
  rintro feed source ⟨hinside, hbounded, rfl⟩
  have hroom : Obu.maxHeaderSize < 2 ^ 64 := by decide
  have hbehind : (feed.buffer.drop feed.position).length = feed.buffer.length - feed.position :=
    List.length_drop
  have hstop : feed.position + min (feed.buffer.length - feed.position) count
      ≤ feed.buffer.length := by
    omega
  have hfront : (feed.buffer.take (feed.position
      + min (feed.buffer.length - feed.position) count)).drop feed.position
        = (feed.buffer.drop feed.position).take count := by
    rw [List.drop_take, Nat.add_sub_cancel_left, ← hbehind, Nat.min_comm, ← List.take_eq_take_min]
  rw [take, state_get_bind, sub_of hinside, pure_bind, add_of (by omega), pure_bind,
    slice_of (Nat.le_add_right _ _) hstop, pure_bind, pure_bind, state_set_bind, hfront,
    takeRounds_eq rfl (by omega)]
  have hmissing : count - ((feed.buffer.drop feed.position).take count).length
      = count - (feed.buffer.drop feed.position).length := by
    rw [List.length_take]
    omega
  -- The position has come as far as bytes were wanted and there.
  have hshows : ∀ input ended,
      Shows ⟨feed.buffer, feed.position + min (feed.buffer.length - feed.position) count, input,
          ended⟩
        ⟨(feed.buffer.drop feed.position).drop count, input, ended⟩ := by
    intro input ended
    have hdrop : feed.buffer.drop (feed.position + min (feed.buffer.length - feed.position) count)
        = (feed.buffer.drop feed.position).drop count := by
      rw [List.drop_drop]
      rcases Nat.le_total count (feed.buffer.length - feed.position) with hle | hle
      · rw [Nat.min_eq_right hle]
      · rw [Nat.min_eq_left hle, List.drop_of_length_le (by omega),
          List.drop_of_length_le (by omega)]
    exact ⟨hstop, hbounded, by rw [hdrop]⟩
  simp only [Source.take, Source.consume, hmissing]
  generalize feed.input.gatherChunks _ = gathered
  obtain ⟨bytes, outcome, next⟩ := gathered
  cases outcome with
  | complete => exact .ok (hshows _ _)
  | ended => exact .error _ (hshows _ _)
  | failed text => exact .error _ (hshows _ _)

end Feed

end Iamf.Checked
