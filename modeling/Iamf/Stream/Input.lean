import Iamf.Bytes

/-!
# `Iamf.Stream.Input`: bytes that arrive piece by piece

A stream comes from an input that decides by itself how much a read gives: any
number of bytes from one up to the number asked for. A read can also be
interrupted, and is then repeated. `Schedule` fixes these decisions, and
`Input.gather` is the read that hides them: it goes on until it has all bytes,
or the input ends or fails.

* `Input.gather_eq`: what `gather` gives does not depend on the schedule.
* `Input.gatherChunks_eq`: asking for many bytes in chunks gives the same.
-/

set_option autoImplicit false

namespace Iamf

/-- How an input answers reads. Reads that are answered otherwise than by an
interruption are counted from zero. -/
structure Schedule where
  /-- How often reads are interrupted before the given one. -/
  interruptions : Nat → Nat := fun _ => 0
  /-- One less than the most bytes that the given read gives. -/
  size : Nat → Nat := fun _ => 65535

/-- An input, as far as it has not been read. -/
structure Input where
  /-- The bytes to come. -/
  rest : Bytes
  /-- The failure behind them, if the input does not simply end. -/
  failure : Option String := none
  /-- How reads are answered. -/
  schedule : Schedule := {}
  /-- How many reads have been answered. -/
  answered : Nat := 0
  /-- How many reads have been interrupted since. -/
  interrupted : Nat := 0

/-- The answer to one read. -/
inductive Answer where
  /-- Some bytes. -/
  | data (bytes : Bytes)
  /-- Nothing yet; the read is to be repeated. -/
  | interrupted
  /-- There are no more bytes. -/
  | ended
  /-- The input is broken. -/
  | failed (text : String)
  deriving DecidableEq, Repr

/-- How a read of many bytes came out. -/
inductive Outcome where
  /-- All bytes were there. -/
  | complete
  /-- The input ended before. -/
  | ended
  /-- The input failed before. -/
  | failed (text : String)
  deriving DecidableEq, Repr

namespace Input

/-- How many more reads are interrupted before one is answered. -/
def interruptionsLeft (input : Input) : Nat :=
  input.schedule.interruptions input.answered - input.interrupted

/-- How a read at the end comes out. -/
def ending (input : Input) : Outcome :=
  match input.failure with
  | none => .ended
  | some text => .failed text

theorem ending_ne_complete (input : Input) : input.ending ≠ .complete := by
  rw [ending]
  split
  · exact nofun
  · exact nofun

/-- One read of at most `want` bytes, `want` not zero. -/
def read (want : Nat) (input : Input) : Answer × Input :=
  if 0 < input.interruptionsLeft then
    (.interrupted, { input with interrupted := input.interrupted + 1 })
  else
    let next := { input with answered := input.answered + 1, interrupted := 0 }
    if input.rest.isEmpty then
      match input.failure with
      | none => (.ended, next)
      | some text => (.failed text, next)
    else
      let count := min want (input.schedule.size input.answered + 1)
      (.data (input.rest.take count), { next with rest := input.rest.drop count })

/-- A read that gives bytes takes them, at least one and no more than asked
for, off the front. -/
theorem read_eq_data {want : Nat} {input next : Input} {bytes : Bytes} (hwant : want ≠ 0)
    (h : input.read want = (.data bytes, next)) :
    input.rest = bytes ++ next.rest ∧ bytes ≠ [] ∧ bytes.length ≤ want
      ∧ next.failure = input.failure := by
  simp only [read] at h
  split at h
  · exact absurd h (by simp)
  · split at h
    · split at h <;> exact absurd h (by simp)
    · rename_i hrest
      simp only [Prod.mk.injEq, Answer.data.injEq] at h
      obtain ⟨rfl, rfl⟩ := h
      refine ⟨(List.take_append_drop _ _).symm, ?_, ?_, rfl⟩
      · simp only [ne_eq, List.take_eq_nil_iff, not_or]
        exact ⟨by omega, by simpa using hrest⟩
      · simp only [List.length_take]
        omega

/-- An interruption uses up one of those to come, and nothing else. -/
theorem read_eq_interrupted {want : Nat} {input next : Input}
    (h : input.read want = (.interrupted, next)) :
    next.rest = input.rest ∧ next.interruptionsLeft < input.interruptionsLeft
      ∧ next.failure = input.failure := by
  simp only [read] at h
  split at h
  · rename_i hleft
    simp only [Prod.mk.injEq, true_and] at h
    subst h
    refine ⟨rfl, ?_, rfl⟩
    simp only [interruptionsLeft] at hleft ⊢
    omega
  · split at h
    · split at h <;> exact absurd h (by simp)
    · exact absurd h (by simp)

/-- A read that gives neither bytes nor an interruption finds nothing left. -/
theorem read_eq_ended {want : Nat} {input next : Input}
    (h : input.read want = (.ended, next)) :
    input.rest = [] ∧ input.failure = none ∧ next.rest = [] ∧ next.failure = none := by
  simp only [read] at h
  split at h
  · exact absurd h (by simp)
  · split at h
    · rename_i hrest
      rw [List.isEmpty_iff] at hrest
      split at h
      · rename_i hfailure
        cases h
        exact ⟨hrest, hfailure, hrest, hfailure⟩
      · exact absurd h (by simp)
    · exact absurd h (by simp)

/-- A read fails only with nothing left. -/
theorem read_eq_failed {want : Nat} {input next : Input} {text : String}
    (h : input.read want = (.failed text, next)) :
    input.rest = [] ∧ input.failure = some text ∧ next.rest = []
      ∧ next.failure = some text := by
  simp only [read] at h
  split at h
  · exact absurd h (by simp)
  · split at h
    · rename_i hrest
      rw [List.isEmpty_iff] at hrest
      split at h
      · exact absurd h (by simp)
      · rename_i hfailure
        cases h
        exact ⟨hrest, hfailure, hrest, hfailure⟩
    · exact absurd h (by simp)

/-- One read of at most `want` bytes, `want` not zero, repeated while it is
interrupted: some bytes, or how the input comes to its end. -/
def readSome (want : Nat) (input : Input) : Except Outcome Bytes × Input :=
  match _h : input.read want with
  | (.data bytes, next) => (.ok bytes, next)
  | (.interrupted, next) => readSome want next
  | (.ended, next) => (.error .ended, next)
  | (.failed text, next) => (.error (.failed text), next)
  termination_by input.interruptionsLeft
  decreasing_by exact (read_eq_interrupted _h).2.1

/-- Bytes come off the front, at least one and no more than asked for. -/
theorem readSome_eq_ok {want : Nat} {input next : Input} {bytes : Bytes} (hwant : want ≠ 0)
    (h : input.readSome want = (.ok bytes, next)) :
    input.rest = bytes ++ next.rest ∧ bytes ≠ [] ∧ bytes.length ≤ want
      ∧ next.failure = input.failure := by
  fun_induction readSome want input with
  | case1 input bytes next hread =>
    cases h
    exact read_eq_data hwant hread
  | case2 input middle hread ih =>
    obtain ⟨hrest, -, hfailure⟩ := read_eq_interrupted hread
    rw [← hrest, ← hfailure]
    exact ih h
  | case3 => cases h
  | case4 => cases h

/-- Without bytes there is nothing left, and the input ends as it has to. -/
theorem readSome_eq_error {want : Nat} {input next : Input} {outcome : Outcome}
    (h : input.readSome want = (.error outcome, next)) :
    input.rest = [] ∧ next.rest = [] ∧ outcome = input.ending
      ∧ next.failure = input.failure := by
  fun_induction readSome want input with
  | case1 => cases h
  | case2 input middle hread ih =>
    obtain ⟨hrest, -, hfailure⟩ := read_eq_interrupted hread
    have hending : middle.ending = input.ending := by simp only [ending, hfailure]
    rw [← hrest, ← hfailure, ← hending]
    exact ih h
  | case3 input middle hread =>
    obtain ⟨hrest, hfailure, hnext, hends⟩ := read_eq_ended hread
    cases h
    exact ⟨hrest, hnext, by simp [ending, hfailure], hends.trans hfailure.symm⟩
  | case4 input text middle hread =>
    obtain ⟨hrest, hfailure, hnext, hfails⟩ := read_eq_failed hread
    cases h
    exact ⟨hrest, hnext, by simp [ending, hfailure], hfails.trans hfailure.symm⟩

/-- Reads until there are `want` more bytes behind those in `taken`, last one
first, or the input ends or fails. -/
def gatherFrom (want : Nat) (taken : Bytes) (input : Input) : Bytes × Outcome × Input :=
  if _hwant : want = 0 then (taken.reverse, .complete, input)
  else
    match _h : input.readSome want with
    | (.ok bytes, next) => gatherFrom (want - bytes.length) (bytes.reverse ++ taken) next
    | (.error outcome, next) => (taken.reverse, outcome, next)
  termination_by want
  decreasing_by
    have := List.length_pos_iff.2 (readSome_eq_ok _hwant _h).2.1
    omega

/-- Reads `want` bytes, or as many as there are before the input ends or fails. -/
def gather (want : Nat) (input : Input) : Bytes × Outcome × Input :=
  gatherFrom want [] input

/-- Bytes off the front count towards those that are wanted. -/
theorem wanted_of_append {want : Nat} {input next : Input} {bytes : Bytes}
    (hrest : input.rest = bytes ++ next.rest) (hle : bytes.length ≤ want)
    (hfailure : next.failure = input.failure) :
    bytes ++ next.rest.take (want - bytes.length) = input.rest.take want
      ∧ (if want - bytes.length ≤ next.rest.length then .complete else next.ending)
          = (if want ≤ input.rest.length then .complete else input.ending)
      ∧ next.rest.drop (want - bytes.length) = input.rest.drop want := by
  rw [hrest]
  refine ⟨?_, ?_, ?_⟩
  · rw [List.take_append, List.take_of_length_le hle]
  · simp only [ending, hfailure, List.length_append]
    congr 1
    simp only [eq_iff_iff]
    omega
  · simp [List.drop_append, List.drop_of_length_le hle]

theorem gatherFrom_eq (want : Nat) (taken : Bytes) (input : Input) :
    (gatherFrom want taken input).1 = taken.reverse ++ input.rest.take want
      ∧ (gatherFrom want taken input).2.1
          = (if want ≤ input.rest.length then .complete else input.ending)
      ∧ (gatherFrom want taken input).2.2.rest = input.rest.drop want
      ∧ (gatherFrom want taken input).2.2.failure = input.failure := by
  fun_induction gatherFrom want taken input with
  | case1 taken input => simp
  | case2 want taken input hwant bytes next h ih =>
    obtain ⟨hrest, -, hle, hfailure⟩ := readSome_eq_ok hwant h
    obtain ⟨h₁, h₂, h₃, h₄⟩ := ih
    obtain ⟨htake, houtcome, hdrop⟩ := wanted_of_append hrest hle hfailure
    refine ⟨?_, h₂.trans houtcome, h₃.trans hdrop, h₄.trans hfailure⟩
    rw [h₁, ← htake, List.reverse_append, List.reverse_reverse, List.append_assoc]
  | case3 want taken input hwant outcome next h =>
    obtain ⟨hrest, hnext, rfl, hfailure⟩ := readSome_eq_error h
    simp [hrest, hnext, hfailure, hwant]

/-- A way of reading many bytes whose result depends on the bytes to come and
what is behind them, not on the schedule: it gives as many bytes as are wanted
and there, and leaves the others. -/
def Gathers (program : Nat → Input → Bytes × Outcome × Input) : Prop :=
  ∀ (want : Nat) (input : Input),
    (program want input).1 = input.rest.take want
      ∧ (program want input).2.1
          = (if want ≤ input.rest.length then .complete else input.ending)
      ∧ (program want input).2.2.rest = input.rest.drop want
      ∧ (program want input).2.2.failure = input.failure

theorem gather_eq : Gathers gather := fun want input => by
  simpa [gather] using gatherFrom_eq want [] input

/-- The most bytes that are asked for at once. -/
def chunkSize : Nat := 65536

/-- Reads `want` bytes, or as many as there are before the input ends or fails,
without making room for more than a chunk ahead of the bytes that come. The end
of the input shows as a chunk without bytes. -/
def gatherChunks (want : Nat) (input : Input) : Bytes × Outcome × Input :=
  if _hwant : want = 0 then ([], .complete, input)
  else
    match input.gather (min want chunkSize) with
    | (bytes, .failed text, next) => (bytes, .failed text, next)
    | (bytes, _, next) =>
      if _hbytes : bytes = [] then ([], .ended, next)
      else
        let (others, outcome, last) := gatherChunks (want - bytes.length) next
        (bytes ++ others, outcome, last)
  termination_by want
  decreasing_by
    have := List.length_pos_iff.2 _hbytes
    omega

/-- Reading chunk after chunk gives and leaves what reading at once does. -/
theorem gatherChunks_eq : Gathers gatherChunks := fun want input => by
  fun_induction gatherChunks want input with
  | case1 input => simp
  | case2 want input hwant bytes text next h =>
    have hgather := gather_eq (min want chunkSize) input
    simp only [h] at hgather ⊢
    obtain ⟨rfl, houtcome, hrest, hfailure⟩ := hgather
    -- A chunk that fails is cut short, and so is all that was wanted.
    have hshort : input.rest.length < min want chunkSize := by
      rcases Nat.lt_or_ge input.rest.length (min want chunkSize) with hlt | hle
      · exact hlt
      · rw [if_pos hle] at houtcome
        cases houtcome
    rw [if_neg (by omega)] at houtcome
    refine ⟨?_, by rw [if_neg (by omega), houtcome], ?_, hfailure⟩
    · rw [List.take_of_length_le (by omega), List.take_of_length_le (by omega)]
    · rw [hrest, List.drop_of_length_le (by omega), List.drop_of_length_le (by omega)]
  | case3 want input hwant outcome next hsound h =>
    have hgather := gather_eq (min want chunkSize) input
    rw [h] at hgather
    obtain ⟨hbytes, houtcome, hrest, hfailure⟩ := hgather
    have hpos : 0 < min want chunkSize := by
      rw [chunkSize]
      omega
    have hnil : input.rest = [] := by
      rcases List.take_eq_nil_iff.1 hbytes.symm with hzero | hnil
      · omega
      · exact hnil
    have hending : input.ending = .ended := by
      rw [hnil, List.length_nil, if_neg (by omega)] at houtcome
      cases hfails : input.failure with
      | none => simp only [ending, hfails]
      | some text =>
        rw [ending, hfails] at houtcome
        exact absurd houtcome (hsound text)
    rw [hnil, List.length_nil, if_neg (by omega), hending]
    exact ⟨List.take_nil.symm, rfl, hrest.trans (by rw [hnil, List.drop_nil, List.drop_nil]),
      hfailure⟩
  | case4 want input hwant bytes outcome next _ h hbytes others outcome' last hothers ih =>
    have hgather := gather_eq (min want chunkSize) input
    rw [h] at hgather
    obtain ⟨rfl, -, hrest, hfailure⟩ := hgather
    rw [hothers] at ih
    obtain ⟨rfl, rfl, h₃, h₄⟩ := ih
    have hle : (input.rest.take (min want chunkSize)).length ≤ want := by
      rw [List.length_take]
      omega
    obtain ⟨htake, houtcome, hdrop⟩ :=
      wanted_of_append (by rw [hrest, List.take_append_drop]) hle hfailure
    exact ⟨htake, houtcome, h₃.trans hdrop, h₄.trans hfailure⟩

end Input

end Iamf
