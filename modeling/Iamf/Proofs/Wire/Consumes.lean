import Iamf.Parameter.Definition
import Iamf.Stateful
import Mathlib.Algebra.Ring.Nat
import Mathlib.Data.List.Forall2

/-!
# `Iamf.Proofs.Wire.Consumes`: programs that take back what was written

An encoder is a function into byte strings and a reader is a program on what
is left to read, so the two are inverse when the program, started on the
encoded bytes, gives the value back and leaves exactly what was behind them.
`Read.Takes` says that, with a condition on what may be behind: anything
(`Consumes`), or nothing (`Exhausts`), since the end of a body is looked at.
It composes along `bind` as byte strings compose along `++`, which is how every
record of the format is read back: field by field, never by position.

* `Takes.bind`, `Consumes.times`, `Consumes.timesWith`: sequences.
* `consumes_uint16`, `consumes_int16`, `consumes_uint32`: words.
-/

set_option autoImplicit false

namespace Iamf

/-- A test that holds changes nothing. -/
theorem ensure_of {m : Type → Type} [Monad m] [MonadExceptOf Error m] {condition : Prop}
    [Decidable condition] {error : Error} (h : condition) :
    (ensure condition error : m Unit) = pure () :=
  if_pos h

/-! ### When an outcome is a value -/

theorem outcome_bind_eq_ok {α β : Type} {outcome : Except Error α} {next : α → Except Error β}
    {result : β} :
    (outcome >>= next) = .ok result ↔ ∃ value, outcome = .ok value ∧ next value = .ok result := by
  cases outcome with
  | error error => simp [bind, Except.bind]
  | ok value =>
    constructor
    · exact fun h => ⟨value, rfl, h⟩
    · rintro ⟨_, ⟨⟩, h⟩
      exact h

theorem outcome_ensure_eq_ok {condition : Prop} [Decidable condition] {error : Error}
    {result : Unit} : (ensure condition error : Except Error Unit) = .ok result ↔ condition := by
  rw [ensure]
  split <;> simp_all [pure, Except.pure, throw, throwThe, MonadExceptOf.throw]

theorem outcome_throw_eq_ok {α : Type} {error : Error} {result : α} :
    (throw error : Except Error α) = .ok result ↔ False := by
  simp [throw, throwThe, MonadExceptOf.throw]

theorem outcome_map_eq_ok {α β : Type} {f : α → β} {outcome : Except Error α} {result : β} :
    outcome.map f = .ok result ↔ ∃ value, outcome = .ok value ∧ f value = result := by
  cases outcome with
  | error error =>
    constructor
    · intro h
      cases h
    · rintro ⟨_, ⟨⟩, _⟩
  | ok value =>
    constructor
    · intro h
      cases h
      exact ⟨value, rfl, rfl⟩
    · rintro ⟨_, ⟨⟩, rfl⟩
      rfl

theorem outcome_pure_eq_ok {α : Type} {value result : α} :
    (pure value : Except Error α) = .ok result ↔ value = result := by
  simp [pure, Except.pure]

/-- Outcomes that are all values, one for each item. -/
theorem outcome_mapM_eq_ok {α β : Type} {f : α → Except Error β} {items : List α} :
    ∀ {values : List β}, items.mapM f = .ok values →
      List.Forall₂ (fun item value => f item = .ok value) items values := by
  induction items with
  | nil =>
    intro values h
    rw [List.mapM_nil, outcome_pure_eq_ok] at h
    exact h ▸ .nil
  | cons item items ih =>
    intro values h
    simp only [List.mapM_cons, outcome_bind_eq_ok, outcome_pure_eq_ok] at h
    obtain ⟨value, hvalue, others, hothers, rfl⟩ := h
    exact .cons hvalue (ih hothers)

/-- Where what follows has a value does not depend on the value before it, both are asked
for one by one. -/
theorem outcome_exists_bind_iff {α β : Type} {outcome : Except Error α}
    {next : α → Except Error β} {follows : Prop}
    (h : ∀ value, (∃ result, next value = .ok result) ↔ follows) :
    (∃ result, outcome >>= next = .ok result) ↔ (∃ value, outcome = .ok value) ∧ follows := by
  simp only [outcome_bind_eq_ok]
  constructor
  · rintro ⟨result, value, hvalue, hresult⟩
    exact ⟨⟨value, hvalue⟩, (h value).1 ⟨result, hresult⟩⟩
  · rintro ⟨⟨value, hvalue⟩, hfollows⟩
    obtain ⟨result, hresult⟩ := (h value).2 hfollows
    exact ⟨result, value, hvalue, hresult⟩

theorem outcome_exists_pure {α : Type} {value : α} :
    (∃ result, (pure value : Except Error α) = .ok result) ↔ True :=
  iff_true_intro ⟨value, rfl⟩

/-- The outcomes of all items are values just if that of each one is. -/
theorem outcome_exists_mapM_iff {α β : Type} {f : α → Except Error β} {items : List α} :
    (∃ values, items.mapM f = .ok values) ↔ ∀ item ∈ items, ∃ value, f item = .ok value := by
  induction items with
  | nil => exact ⟨fun _ => by simp, fun _ => ⟨[], rfl⟩⟩
  | cons item items ih =>
    rw [List.mapM_cons, List.forall_mem_cons, ← ih, outcome_exists_bind_iff]
    intro value
    rw [outcome_exists_bind_iff fun _ => outcome_exists_pure, and_true]

/-! ### Running programs on a state -/

namespace Stateful

variable {σ α β : Type}

theorem bind_of_ok {first : Stateful σ α} {next : α → Stateful σ β} {state middle : σ}
    {value : α} (h : first state = .ok value middle) :
    (first >>= next) state = next value middle := by
  simp only [bind, EStateM.bind, h]

theorem bind_of_error {first : Stateful σ α} {next : α → Stateful σ β} {state middle : σ}
    {error : Error} (h : first state = .error error middle) :
    (first >>= next) state = .error error middle := by
  simp only [bind, EStateM.bind, h]

/-- A settled outcome, in front of a program. -/
theorem lift_bind (outcome : Except Error α) (next : α → Stateful σ β) (state : σ) :
    (liftExcept outcome >>= next) state
      = match outcome with
        | .ok value => next value state
        | .error error => .error error state := by
  cases outcome <;> rfl

/-- A program that starts with a look at the state. -/
theorem get_bind (next : σ → Stateful σ α) (state : σ) :
    (get >>= next) state = next state state := rfl

theorem ensure_eq_ok {condition : Prop} [Decidable condition] {error : Error}
    {state after : σ} {result : Unit} :
    (ensure condition error : Stateful σ Unit) state = .ok result after
      ↔ condition ∧ state = after := by
  rw [ensure]
  split
  · rename_i hcondition
    rw [pure_eq_ok]
    exact ⟨fun h => ⟨hcondition, h.2⟩, fun h => ⟨rfl, h.2⟩⟩
  · rename_i hcondition
    constructor
    · rintro ⟨⟩
    · exact fun h => absurd h.1 hcondition

end Stateful

end Iamf

namespace Iamf.Read

variable {α β σ : Type}

/-- At a byte boundary, with bytes behind that satisfy `behind`, the program
takes exactly the given bytes off the front and gives this value. -/
def Takes (behind : Bytes → Prop) (program : Read α) (bytes : Bytes) (value : α) : Prop :=
  ∀ (subject : String) (rest : Bytes), behind rest →
    program ⟨subject, [], bytes ++ rest⟩ = .ok (value, ⟨subject, [], rest⟩)

/-- The program takes exactly these bytes, whatever is behind them. -/
abbrev Consumes (program : Read α) (bytes : Bytes) (value : α) : Prop :=
  Takes (fun _ => True) program bytes value

/-- The program takes these bytes when they are all that is left. -/
abbrev Exhausts (program : Read α) (bytes : Bytes) (value : α) : Prop :=
  Takes (· = []) program bytes value

namespace Takes

variable {behind : Bytes → Prop}

theorem weaken {other : Bytes → Prop} {program : Read α} {bytes : Bytes} {value : α}
    (h : Takes behind program bytes value) (himp : ∀ rest, other rest → behind rest) :
    Takes other program bytes value :=
  fun subject rest hrest => h subject rest (himp rest hrest)

theorem pure (value : α) : Takes behind (Pure.pure value) [] value :=
  fun _ _ _ => rfl

/-- Two programs in a row take two byte strings in a row; the second string is
behind the first. -/
theorem bind_of {between : Bytes → Prop} {first : Read α} {next : α → Read β}
    {front back : Bytes} {value : α} {result : β} (hfirst : Takes between first front value)
    (hbetween : ∀ rest, behind rest → between (back ++ rest))
    (hnext : Takes behind (next value) back result) :
    Takes behind (first >>= next) (front ++ back) result := by
  intro subject rest hrest
  rw [List.append_assoc, bind_eq_ok]
  exact ⟨value, _, hfirst subject (back ++ rest) (hbetween rest hrest), hnext subject rest hrest⟩

/-- Two programs in a row, the first of which does not mind what is behind. -/
theorem bind {first : Read α} {next : α → Read β} {front back : Bytes} {value : α}
    {result : β} (hfirst : Consumes first front value)
    (hnext : Takes behind (next value) back result) :
    Takes behind (first >>= next) (front ++ back) result :=
  bind_of hfirst (fun _ _ => trivial) hnext

/-- What comes of a sequence whose first program takes what is in front. -/
theorem run_bind {first : Read α} {front : Bytes} {value : α}
    (hfirst : Consumes first front value) (next : α → Read β) (subject : String) (rest : Bytes) :
    (first >>= next) ⟨subject, [], front ++ rest⟩ = next value ⟨subject, [], rest⟩ := by
  simp only [Bind.bind, StateT.bind, hfirst subject rest trivial, Except.bind]

theorem map {program : Read α} {bytes : Bytes} {value : α} (f : α → β)
    (h : Takes behind program bytes value) : Takes behind (f <$> program) bytes (f value) := by
  intro subject rest hrest
  rw [map_eq_ok]
  exact ⟨value, _, h subject rest hrest, rfl⟩

/-- A program that takes everything, in front of one that reads nothing. -/
theorem bind_nil {first : Read α} {next : α → Read β} {bytes : Bytes} {value : α}
    {result : β} (hfirst : Takes behind first bytes value)
    (hnext : Takes behind (next value) [] result) :
    Takes behind (first >>= next) bytes result := by
  rw [← List.append_nil bytes]
  exact bind_of hfirst (fun _ hrest => hrest) hnext

/-- A program that ends by handing on what it read. -/
theorem bind_pure {program : Read α} {bytes : Bytes} {value : α} (f : α → β)
    (h : Takes behind program bytes value) :
    Takes behind (program >>= fun value => Pure.pure (f value)) bytes (f value) :=
  bind_nil h (pure (f value))

/-- A program that reads nothing, in front of another. -/
theorem bind_of_nil {first : Read α} {next : α → Read β} {value : α} {bytes : Bytes}
    {result : β} (hfirst : Consumes first [] value)
    (hnext : Takes behind (next value) bytes result) :
    Takes behind (first >>= next) bytes result := by
  rw [← List.nil_append bytes]
  exact bind hfirst hnext

/-- A test that holds takes nothing. -/
theorem ensure {condition : Prop} [Decidable condition] (error : Error) (h : condition) :
    Takes behind (Iamf.ensure condition error) [] () := by
  intro subject rest _
  rw [ensure_eq_ok]
  exact ⟨h, rfl⟩

/-- A test that holds, in front of a program. -/
theorem ensure_bind {condition : Prop} [Decidable condition] {error : Error}
    {program : Unit → Read α} {bytes : Bytes} {value : α} (h : condition)
    (hprogram : Takes behind (program ()) bytes value) :
    Takes behind (Iamf.ensure condition error >>= program) bytes value :=
  bind_of_nil (ensure error h) hprogram

/-- An outcome that was settled without reading. -/
theorem lift {outcome : Except Error α} {value : α} (h : outcome = .ok value) :
    Takes behind (liftExcept outcome) [] value := by
  subst h
  exact pure value

/-- A count passes the early test when that many bytes are sure to be there. -/
theorem checkCount_bind_of {mode : ReadMode} {count : Nat} {subject : String}
    {program : Unit → Read α} {bytes : Bytes} {value : α}
    (h : ∀ rest, behind rest → count ≤ (bytes ++ rest).length)
    (hprogram : Takes behind (program ()) bytes value) :
    Takes behind (mode.checkCount count subject >>= program) bytes value := by
  intro name rest hrest
  rw [bind_eq_ok]
  refine ⟨(), _, ?_, hprogram name rest hrest⟩
  rw [ReadMode.checkCount, bind_eq_ok]
  exact ⟨_, _, rfl, ensure_eq_ok.2 ⟨fun _ => h rest hrest, rfl⟩⟩

/-- A count of items that are all there passes the early test. -/
theorem checkCount_bind {mode : ReadMode} {count : Nat} {subject : String}
    {program : Unit → Read α} {bytes : Bytes} {value : α} (h : count ≤ bytes.length)
    (hprogram : Takes behind (program ()) bytes value) :
    Takes behind (mode.checkCount count subject >>= program) bytes value := by
  refine checkCount_bind_of ?_ hprogram
  intro rest _
  rw [List.length_append]
  omega

end Takes

namespace Exhausts

/-- What a program does on a whole byte string. -/
theorem parse {program : Read α} {bytes : Bytes} {value : α}
    (h : Exhausts program bytes value) (subject : String) :
    program.parse subject bytes = .ok value := by
  have hread := h subject [] rfl
  rw [List.append_nil] at hread
  exact parse_eq_ok.2 ⟨_, hread⟩

/-- The end of a body. -/
theorem finish (kind : Obu.Kind) (strict : Bool) : Exhausts (Read.finish kind strict) [] () := by
  rintro subject _ rfl
  rw [Read.finish, bind_eq_ok]
  exact ⟨0, _, rfl, ensure_eq_ok.2 ⟨Or.inl rfl, rfl⟩⟩

/-- The end of a body, in front of what is done then. -/
theorem finish_bind {kind : Obu.Kind} {strict : Bool} {program : Unit → Read α} {value : α}
    (h : Exhausts (program ()) [] value) :
    Exhausts (Read.finish kind strict >>= program) [] value :=
  (finish kind strict).bind_nil h

theorem remaining (bytes : Bytes) : Exhausts Read.remaining bytes bytes := by
  rintro subject _ rfl
  rw [List.append_nil]
  rfl

end Exhausts

namespace Consumes

/-- What a program does on a byte string that goes on behind what it takes. -/
theorem parse {program : Read α} {bytes : Bytes} {value : α} (h : Consumes program bytes value)
    (subject : String) (rest : Bytes) : program.parse subject (bytes ++ rest) = .ok value :=
  parse_eq_ok.2 ⟨_, h subject rest trivial⟩

/-- The end of a body that is not read strictly may have bytes behind it. -/
theorem finish (kind : Obu.Kind) : Consumes (Read.finish kind false) [] () := by
  intro subject rest _
  rw [Read.finish, bind_eq_ok]
  exact ⟨_, _, rfl, ensure_eq_ok.2 ⟨Or.inr rfl, rfl⟩⟩

theorem byte (value : UInt8) : Consumes Read.byte [value] value :=
  fun subject rest _ => byte_cons subject value rest

theorem bytes (value : Bytes) : Consumes (Read.bytes value.length) value value :=
  fun subject rest _ => bytes_append subject rest rfl

theorem skipBytes (value : Bytes) : Consumes (Read.skipBytes value.length) value () :=
  (bytes value).bind_pure fun _ => ()

/-- As many items as were written, one after the other. -/
theorem times {item : Read α} {items : List α} {pieces : List Bytes}
    (h : List.Forall₂ (fun value bytes => Consumes item bytes value) items pieces) :
    Consumes (Read.times items.length item) pieces.flatten items := by
  induction h with
  | nil => exact fun _ _ _ => rfl
  | @cons first bytes others pieces hfirst _ ih =>
    intro subject rest _
    have hfirst := hfirst subject (pieces.flatten ++ rest) trivial
    have hothers := ih subject rest trivial
    rw [List.length_cons, times_succ, List.flatten_cons, List.append_assoc, hfirst]
    simp only [hothers, Except.map]

/-- Items that are each written by one function. -/
theorem times_flatMap {item : Read α} (encode : α → Bytes) {items : List α}
    (h : ∀ value ∈ items, Consumes item (encode value) value) :
    Consumes (Read.times items.length item) (items.flatMap encode) items := by
  rw [List.flatMap_def]
  refine times ?_
  rw [List.forall₂_map_right_iff, List.forall₂_same]
  exact h

end Consumes

/-- As many items as bytes are there, when no piece is empty. -/
theorem length_le_flatten {pieces : List Bytes} (h : ∀ bytes ∈ pieces, 1 ≤ bytes.length) :
    pieces.length ≤ pieces.flatten.length := by
  induction pieces with
  | nil => exact Nat.zero_le _
  | cons bytes pieces ih =>
    obtain ⟨hfirst, hothers⟩ := List.forall_mem_cons.1 h
    have hlength := ih hothers
    rw [List.flatten_cons, List.length_append, List.length_cons]
    omega

theorem length_le_flatMap {encode : α → Bytes} {items : List α}
    (h : ∀ value ∈ items, 1 ≤ (encode value).length) :
    items.length ≤ (items.flatMap encode).length := by
  rw [List.flatMap_def, ← List.length_map (f := encode)]
  exact length_le_flatten (List.forall_mem_map.2 h)

theorem liftExcept_eq_ok {outcome : Except Error α} {reader : Reader} {result : α × Reader} :
    (liftExcept outcome : Read α) reader = .ok result
      ↔ ∃ value, outcome = .ok value ∧ result = (value, reader) := by
  cases outcome with
  | error error => simp [liftExcept, throw_eq_ok]
  | ok value => simp [liftExcept, pure_eq_ok]

theorem byte_eq_ok {subject : String} {bytes : Bytes} {value : UInt8} {after : Reader}
    (h : byte ⟨subject, [], bytes⟩ = .ok (value, after)) :
    ∃ rest, bytes = value :: rest ∧ after = ⟨subject, [], rest⟩ := by
  cases bytes with
  | nil =>
    rw [byte_nil] at h
    cases h
  | cons head rest =>
    rw [byte_cons] at h
    cases h
    exact ⟨rest, rfl, rfl⟩

/-- Whole bytes that are read are the next ones that have not been begun. -/
theorem bytes_eq_ok {count : Nat} {reader after : Reader} {value : Bytes}
    (h : bytes count reader = .ok (value, after)) :
    value.length = count ∧ reader.rest = value ++ after.rest ∧ after.pending = [] := by
  simp only [bytes, bind_eq_ok] at h
  obtain ⟨_, _, ⟨⟩, _, _, ⟨⟩, h⟩ := h
  cases hsplit : Bytes.split? count reader.rest with
  | none => exact absurd h (by simp [hsplit, truncated])
  | some pair =>
    obtain ⟨front, rest⟩ := pair
    obtain ⟨hrest, hlength⟩ := Bytes.split?_eq_some_iff.1 hsplit
    simp only [hsplit] at h
    cases h
    exact ⟨hlength, hrest, rfl⟩

/-- One item more is read in front of the others. -/
theorem times_succ_eq_ok {item : Read α} {count : Nat} {values : List α} {reader after : Reader} :
    times (count + 1) item reader = .ok (values, after)
      ↔ ∃ first middle others, item reader = .ok (first, middle)
        ∧ times count item middle = .ok (others, after) ∧ values = first :: others := by
  rw [times_succ]
  constructor
  · intro h
    split at h
    · rename_i first middle hfirst
      cases hothers : times count item middle with
      | error error => exact absurd h (by simp [hothers, Except.map])
      | ok pair =>
        simp only [hothers, Except.map, Except.ok.injEq, Prod.mk.injEq] at h
        obtain ⟨rfl, rfl⟩ := h
        exact ⟨first, middle, pair.1, hfirst, hothers, rfl⟩
    · exact absurd h (by simp)
  · rintro ⟨first, middle, others, hfirst, hothers, rfl⟩
    simp only [hfirst, hothers, Except.map]

/-- Repeated reads that succeed give as many items as asked for, each of which
was read from somewhere. -/
theorem times_eq_ok {item : Read α} {count : Nat} :
    ∀ {items : List α} {reader after : Reader}, times count item reader = .ok (items, after) →
      items.length = count
        ∧ ∀ value ∈ items, ∃ before behind, item before = .ok (value, behind) := by
  induction count with
  | zero =>
    intro items reader after h
    simp only [times_zero, Except.ok.injEq, Prod.mk.injEq] at h
    exact h.1 ▸ ⟨rfl, by simp⟩
  | succ count ih =>
    intro items reader after h
    obtain ⟨first, middle, others, hfirst, hothers, rfl⟩ := times_succ_eq_ok.1 h
    obtain ⟨hlength, hitems⟩ := ih hothers
    refine ⟨by rw [List.length_cons, hlength], ?_⟩
    intro value hmem
    rcases List.mem_cons.1 hmem with rfl | hmem
    · exact ⟨_, _, hfirst⟩
    · exact hitems value hmem

/-- Items of another kind are read where these are, if one of them always can. -/
theorem times_eq_ok_of {item : Read α} {other : Read β}
    (h : ∀ reader value after, item reader = .ok (value, after) →
      ∃ result, other reader = .ok (result, after)) {count : Nat} :
    ∀ {items : List α} {reader after : Reader}, times count item reader = .ok (items, after) →
      ∃ results, times count other reader = .ok (results, after) := by
  induction count with
  | zero =>
    intro items reader after hread
    simp only [times_zero, Except.ok.injEq, Prod.mk.injEq] at hread
    exact ⟨[], hread.2 ▸ rfl⟩
  | succ count ih =>
    intro items reader after hread
    obtain ⟨first, middle, others, hfirst, hothers, rfl⟩ := times_succ_eq_ok.1 hread
    obtain ⟨result, hresult⟩ := h _ _ _ hfirst
    obtain ⟨results, hresults⟩ := ih hothers
    exact ⟨result :: results, times_succ_eq_ok.2 ⟨result, middle, results, hresult, hresults, rfl⟩⟩

/-- Items that are read in a row from a byte boundary have a piece of the bytes each. -/
theorem exists_pieces_of_times {item : Read α} {spells : Bytes → α → Prop}
    (hitem : ∀ {subject bytes value after}, item ⟨subject, [], bytes⟩ = .ok (value, after) →
      ∃ front rest, bytes = front ++ rest ∧ after = ⟨subject, [], rest⟩ ∧ spells front value)
    {subject : String} {count : Nat} :
    ∀ {bytes : Bytes} {values : List α} {after : Reader},
      times count item ⟨subject, [], bytes⟩ = .ok (values, after) →
      ∃ pieces rest, bytes = pieces.flatten ++ rest ∧ after = ⟨subject, [], rest⟩
        ∧ List.Forall₂ spells pieces values := by
  induction count with
  | zero =>
    intro bytes values after h
    cases h
    exact ⟨[], bytes, rfl, rfl, .nil⟩
  | succ count ih =>
    intro bytes values after h
    obtain ⟨first, middle, others, hfirst, hothers, rfl⟩ := times_succ_eq_ok.1 h
    obtain ⟨front, _, rfl, rfl, hfront⟩ := hitem hfirst
    obtain ⟨pieces, rest, rfl, rfl, hpieces⟩ := ih hothers
    exact ⟨front :: pieces, rest, by rw [List.flatten_cons, List.append_assoc], rfl,
      .cons hfront hpieces⟩

/-! ### Items that pass a state on -/

/-- One step more hands its state to the others. -/
theorem iterate_succ (step : σ → Read σ) (count : Nat) (state : σ) :
    iterate step (count + 1) state = step state >>= iterate step count := by
  funext reader
  simp only [iterate, bind, StateT.bind, Except.bind]
  cases step state reader <;> rfl

/-- Some steps more hand their state to the others. -/
theorem iterate_add (step : σ → Read σ) (first others : Nat) (state : σ) :
    iterate step (first + others) state = iterate step first state >>= iterate step others := by
  induction first generalizing state with
  | zero => rw [Nat.zero_add]; rfl
  | succ first ih =>
    rw [Nat.succ_add, iterate_succ, iterate_succ, bind_assoc]
    exact congrArg _ (funext ih)

/-- No step takes nothing. -/
theorem Takes.iterate_zero {behind : Bytes → Prop} (step : σ → Read σ) (state : σ) :
    Takes behind (iterate step 0 state) [] state :=
  fun _ _ _ => rfl

/-- One step takes its bytes, and the others go on from the state after it. -/
theorem Takes.iterate_succ {behind : Bytes → Prop} {step : σ → Read σ} {count : Nat}
    {state middle final : σ} {front back : Bytes} (hfirst : Consumes (step state) front middle)
    (hothers : Takes behind (iterate step count middle) back final) :
    Takes behind (iterate step (count + 1) state) (front ++ back) final := by
  rw [Read.iterate_succ]
  exact hfirst.bind hothers

/-- One step alone. -/
theorem Consumes.iterate_one {step : σ → Read σ} {state next : σ} {bytes : Bytes}
    (h : Consumes (step state) bytes next) : Consumes (iterate step 1 state) bytes next := by
  rw [← List.append_nil bytes]
  exact .iterate_succ h (.iterate_zero step next)

/-- Some steps take their bytes, and the others go on from the state after them. -/
theorem Takes.iterate_add {behind : Bytes → Prop} {step : σ → Read σ} {first others : Nat}
    {state middle final : σ} {front back : Bytes}
    (hfirst : Consumes (iterate step first state) front middle)
    (hothers : Takes behind (iterate step others middle) back final) :
    Takes behind (iterate step (first + others) state) (front ++ back) final := by
  rw [Read.iterate_add]
  exact hfirst.bind hothers

/-- What every step keeps holds after all of them. -/
theorem iterate_induction {step : σ → Read σ} (keeps : σ → Prop)
    (hstep : ∀ state reader next after, keeps state →
      step state reader = .ok (next, after) → keeps next) {count : Nat} :
    ∀ {state final : σ} {reader after : Reader}, keeps state →
      iterate step count state reader = .ok (final, after) → keeps final := by
  induction count with
  | zero =>
    intro state final reader after hstate h
    simp only [iterate, Except.ok.injEq, Prod.mk.injEq] at h
    exact h.1 ▸ hstate
  | succ count ih =>
    intro state final reader after hstate h
    rw [iterate_succ, bind_eq_ok] at h
    obtain ⟨next, middle, hnext, h⟩ := h
    exact ih (hstep state reader next middle hstate hnext) h

/-- Induction over the items that were read, the first one first. -/
theorem timesWith_induction {item : σ → Read (α × σ)} {motive : σ → List α → σ → Prop}
    (nil : ∀ state, motive state [] state)
    (cons : ∀ state reader first middle after others final,
      item state reader = .ok ((first, middle), after) → motive middle others final →
      motive state (first :: others) final) {count : Nat} {state final : σ} {items : List α}
    {reader after : Reader}
    (h : timesWith count state item reader = .ok ((items, final), after)) :
    items.length = count ∧ motive state items final := by
  -- The loop keeps what it has read in reverse.
  have hloop : ∀ {count : Nat} {read : List α} {state : σ} {result : List α × σ}
      {reader after : Reader},
      iterate (fun (items, state) => do
        let (next, state) ← item state
        return (next :: items, state)) count (read, state) reader = .ok (result, after) →
      ∃ items, result.1 = items.reverse ++ read ∧ items.length = count
        ∧ motive state items result.2 := by
    intro count
    induction count with
    | zero =>
      intro read state result reader after h
      simp only [iterate, Except.ok.injEq, Prod.mk.injEq] at h
      obtain ⟨rfl, -⟩ := h
      exact ⟨[], rfl, rfl, nil state⟩
    | succ count ih =>
      intro read state result reader after h
      rw [iterate_succ, bind_eq_ok] at h
      obtain ⟨_, middle, hfirst, h⟩ := h
      simp only [bind_eq_ok, pure_eq_ok, Prod.mk.injEq] at hfirst
      obtain ⟨⟨first, next⟩, _, hfirst, rfl, rfl⟩ := hfirst
      obtain ⟨items, hitems, hlength, hmotive⟩ := ih h
      exact ⟨first :: items, by simp [hitems], by rw [List.length_cons, hlength],
        cons _ _ _ _ _ _ _ hfirst hmotive⟩
  simp only [timesWith, bind_eq_ok, pure_eq_ok, Prod.mk.injEq] at h
  obtain ⟨⟨all, last⟩, _, hall, ⟨rfl, rfl⟩, -⟩ := h
  obtain ⟨items, hitems, hlength, hmotive⟩ := hloop hall
  rw [List.append_nil] at hitems
  simp only at hitems
  rw [hitems, List.reverse_reverse]
  exact ⟨hlength, hmotive⟩

/-- A list of items, each of which takes one piece in the state that the items
before it have left. -/
inductive Chain (item : σ → Read (α × σ)) :
    (before : σ) → List α → List Bytes → (after : σ) → Prop where
  | nil (state : σ) : Chain item state [] [] state
  | cons {state middle after : σ} {first : α} {others : List α} {bytes : Bytes}
      {pieces : List Bytes} (hfirst : Consumes (item state) bytes (first, middle))
      (hothers : Chain item middle others pieces after) :
      Chain item state (first :: others) (bytes :: pieces) after

/-- Every item of a chain has its piece. -/
theorem Chain.length_eq {item : σ → Read (α × σ)} {state after : σ} {items : List α}
    {pieces : List Bytes} (h : Chain item state items pieces after) :
    items.length = pieces.length := by
  induction h with
  | nil => rfl
  | cons _ _ ih => rw [List.length_cons, List.length_cons, ih]

/-- The loop of `timesWith` keeps what it has read in reverse, in front of its
state. -/
private abbrev timesStep (item : σ → Read (α × σ)) (pair : List α × σ) :
    Read (List α × σ) :=
  item pair.2 >>= fun next => Pure.pure (next.1 :: pair.1, next.2)

/-- A chain of items is read in a row, and its last state is handed on. -/
theorem Consumes.timesWith {item : σ → Read (α × σ)} {state after : σ} {items : List α}
    {pieces : List Bytes} (h : Chain item state items pieces after) :
    Consumes (Read.timesWith items.length state item) pieces.flatten (items, after) := by
  have hloop : ∀ read : List α,
      Consumes (iterate (timesStep item) items.length (read, state)) pieces.flatten
        (items.reverse ++ read, after) := by
    induction h with
    | nil state => exact fun read _ _ _ => rfl
    | @cons state middle after first others bytes pieces hfirst _ ih =>
      intro read
      rw [List.length_cons, iterate_succ, List.flatten_cons, List.reverse_cons,
        List.append_assoc]
      exact (hfirst.bind_pure fun next => (next.1 :: read, next.2)).bind (ih (first :: read))
  have hread := hloop []
  rw [List.append_nil] at hread
  have hresult := hread.bind_pure fun pair => (pair.1.reverse, pair.2)
  rwa [List.reverse_reverse] at hresult

/-! ### Bits of a byte -/

/-- The high bits of a byte, as a number. -/
theorem toNat_shiftRight_lt (value : UInt8) {count : UInt8} (h : count.toNat < 8) :
    (value >>> count).toNat < 2 ^ (8 - count.toNat) := by
  have hlt : value.toNat < 2 ^ (8 - count.toNat) * 2 ^ count.toNat := by
    rw [← Nat.pow_add, Nat.sub_add_cancel (Nat.le_of_lt h)]
    exact value.toNat_lt
  rw [UInt8.toNat_shiftRight, Nat.mod_eq_of_lt h, Nat.shiftRight_eq_div_pow]
  exact (Nat.div_lt_iff_lt_mul (Nat.two_pow_pos _)).2 hlt

/-- A number that fits into the high bits of a byte is found there again. -/
theorem shiftLeft_shiftRight {value count : UInt8} (hcount : count.toNat < 8)
    (h : value.toNat < 2 ^ (8 - count.toNat)) : value <<< count >>> count = value := by
  have hlt : value.toNat * 2 ^ count.toNat < 2 ^ 8 := by
    rw [← Nat.sub_add_cancel (Nat.le_of_lt hcount), Nat.pow_add]
    exact Nat.mul_lt_mul_of_pos_right h (Nat.two_pow_pos _)
  apply UInt8.toNat_inj.1
  rw [UInt8.toNat_shiftRight, UInt8.toNat_shiftLeft, Nat.mod_eq_of_lt hcount,
    Nat.shiftRight_eq_div_pow, Nat.shiftLeft_eq, Nat.mod_eq_of_lt hlt,
    Nat.mul_div_cancel _ (Nat.two_pow_pos _)]

/-- Bits that are shifted out of a byte do not count. -/
theorem shiftLeft_shiftRight_shiftLeft (value count : UInt8) (hcount : count.toNat < 8) :
    value <<< count >>> count <<< count = value <<< count := by
  have hdvd : 2 ^ count.toNat ∣ value.toNat * 2 ^ count.toNat % 2 ^ 8 :=
    (Nat.dvd_mod_iff (Nat.pow_dvd_pow 2 (Nat.le_of_lt hcount))).2 (Nat.dvd_mul_left _ _)
  apply UInt8.toNat_inj.1
  rw [UInt8.toNat_shiftLeft, UInt8.toNat_shiftRight, UInt8.toNat_shiftLeft,
    Nat.mod_eq_of_lt hcount, Nat.shiftRight_eq_div_pow, Nat.shiftLeft_eq, Nat.shiftLeft_eq,
    Nat.div_mul_cancel hdvd, Nat.mod_mod]

/-! ### Words -/

/-- A count of less than 32 bits is written as it is. -/
theorem toNat_ofNat_count {count : Nat} (h : count < 2 ^ 32) :
    (UInt32.ofNat count).toNat = count := by
  rw [UInt32.toNat_ofNat', Nat.mod_eq_of_lt h]

/-- The low byte of a number, as a number. -/
theorem toNat_ofNat_byte (value : Nat) : (UInt8.ofNat value).toNat = value % 256 := by
  rw [UInt8.toNat_ofNat']

theorem consumes_uint16 (value : UInt16) : Consumes uint16 (Bytes.ofUInt16 value) value := by
  have hvalue : UInt16.ofNat ((UInt8.ofNat (value.toNat / 256)).toNat * 256
      + (UInt8.ofNat value.toNat).toNat) = value := by
    have hlt := value.toNat_lt
    rw [toNat_ofNat_byte, toNat_ofNat_byte,
      show value.toNat / 256 % 256 * 256 + value.toNat % 256 = value.toNat by omega,
      UInt16.ofNat_toNat]
  have hread : Consumes uint16 (Bytes.ofUInt16 value)
      (UInt16.ofNat ((UInt8.ofNat (value.toNat / 256)).toNat * 256
        + (UInt8.ofNat value.toNat).toNat)) :=
    (Consumes.byte (UInt8.ofNat (value.toNat / 256))).bind
      ((Consumes.byte (UInt8.ofNat value.toNat)).bind_pure _)
  rwa [hvalue] at hread

theorem consumes_int16 (value : Int16) : Consumes int16 (Bytes.ofInt16 value) value := by
  have hread := (consumes_uint16 value.toUInt16).map UInt16.toInt16
  rwa [Int16.toInt16_toUInt16] at hread

theorem consumes_uint32 (value : UInt32) : Consumes uint32 (Bytes.ofUInt32 value) value := by
  have hlt := value.toNat_lt
  -- A word is two words of half the size, the upper one first.
  have hhigh : Consumes uint16 [UInt8.ofNat (value.toNat / 16777216),
      UInt8.ofNat (value.toNat / 65536)] (UInt16.ofNat (value.toNat / 65536)) := by
    have hread := consumes_uint16 (UInt16.ofNat (value.toNat / 65536))
    rwa [Bytes.ofUInt16, UInt16.toNat_ofNat',
      show value.toNat / 65536 % 2 ^ 16 = value.toNat / 65536 by omega,
      Nat.div_div_eq_div_mul] at hread
  have hlow : Consumes uint16 [UInt8.ofNat (value.toNat / 256), UInt8.ofNat value.toNat]
      (UInt16.ofNat value.toNat) := by
    have hread := consumes_uint16 (UInt16.ofNat value.toNat)
    have hbyte : ∀ number : Nat, UInt8.ofNat (number % 2 ^ 16 / 256) = UInt8.ofNat (number / 256)
        ∧ UInt8.ofNat (number % 2 ^ 16) = UInt8.ofNat number := by
      intro number
      constructor <;> apply UInt8.toNat_inj.1 <;> rw [toNat_ofNat_byte, toNat_ofNat_byte] <;> omega
    rwa [Bytes.ofUInt16, UInt16.toNat_ofNat', (hbyte value.toNat).1, (hbyte value.toNat).2]
      at hread
  have hvalue : UInt32.ofNat ((UInt16.ofNat (value.toNat / 65536)).toNat * 65536
      + (UInt16.ofNat value.toNat).toNat) = value := by
    rw [UInt16.toNat_ofNat', UInt16.toNat_ofNat',
      show value.toNat / 65536 % 2 ^ 16 * 65536 + value.toNat % 2 ^ 16 = value.toNat by omega,
      UInt32.ofNat_toNat]
  have hread : Consumes uint32 (Bytes.ofUInt32 value)
      (UInt32.ofNat ((UInt16.ofNat (value.toNat / 65536)).toNat * 65536
        + (UInt16.ofNat value.toNat).toNat)) :=
    hhigh.bind (hlow.bind_pure _)
  rwa [hvalue] at hread

end Iamf.Read
