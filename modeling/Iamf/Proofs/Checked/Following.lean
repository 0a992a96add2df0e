import Iamf.Proofs.Checked.Arithmetic

/-!
# `Iamf.Proofs.Checked.Following`: checked programs on states

A demuxer goes on after a failure from where it stopped, so a checked program on a
state has to be compared with a plain one also where they fail: they leave states that
belong together. `Follows` says that two programs that start in such states come out
alike, and that the checked one has no fault.

* `Follows.bind`, `Follows.get_bind`, `Follows.onPart`: programs that are put together.
* `Follows.noting`: what is known of every value of the plain program.
-/

set_option autoImplicit false

namespace Iamf.Checked

/-- A program on a state that outlives a stop. -/
abbrev Run (τ α : Type) := EStateM Stop τ α

section

variable {σ τ α β : Type}

/-- Two runs came out with the same value, or with the same error in states that belong
together. -/
inductive Concurs (kept : τ → σ → Prop) (after : α → τ → σ → Prop) :
    EStateM.Result Stop τ α → EStateM.Result Error σ α → Prop where
  | ok {value : α} {one : τ} {other : σ} (states : after value one other) :
      Concurs kept after (.ok value one) (.ok value other)
  | error (error : Error) {one : τ} {other : σ} (states : kept one other) :
      Concurs kept after (.error (.failed error) one) (.error error other)

theorem Concurs.of_ok {kept : τ → σ → Prop} {after : α → τ → σ → Prop} {value : α} {other : σ}
    {fast : EStateM.Result Stop τ α} (h : Concurs kept after fast (.ok value other)) :
    ∃ one, fast = .ok value one ∧ after value one other := by
  cases h with
  | ok states => exact ⟨_, rfl, states⟩

theorem Concurs.of_error {kept : τ → σ → Prop} {after : α → τ → σ → Prop} {error : Error}
    {other : σ} {fast : EStateM.Result Stop τ α}
    (h : Concurs kept after fast (.error error other)) :
    ∃ one, fast = .error (.failed error) one ∧ kept one other := by
  cases h with
  | error _ states => exact ⟨_, rfl, states⟩

/-- Run in states that belong together, the checked program comes out as the plain one
does, which excludes a fault. -/
def Follows (kept before : τ → σ → Prop) (after : α → τ → σ → Prop) (fast : Run τ α)
    (slow : Stateful σ α) : Prop :=
  ∀ ⦃one : τ⦄ ⦃other : σ⦄, before one other → Concurs kept after (fast one) (slow other)

theorem state_get_bind (next : τ → Run τ α) (state : τ) :
    (get >>= next) state = next state state := rfl

theorem state_set_bind (next : PUnit → Run τ α) (state changed : τ) :
    (set changed >>= next) state = next ⟨⟩ changed := rfl

theorem state_bind_of_ok {first : Run τ β} {next : β → Run τ α} {state middle : τ} {value : β}
    (h : first state = .ok value middle) : (first >>= next) state = next value middle := by
  simp only [Bind.bind, EStateM.bind, h]

theorem state_bind_of_error {first : Run τ β} {next : β → Run τ α} {state middle : τ} {stop : Stop}
    (h : first state = .error stop middle) : (first >>= next) state = .error stop middle := by
  simp only [Bind.bind, EStateM.bind, h]

variable {kept before : τ → σ → Prop} {after : α → τ → σ → Prop}

theorem follows_pure {value : α} (h : ∀ one other, before one other → after value one other) :
    Follows kept before after (pure value) (pure value) :=
  fun _ _ hstates => .ok (h _ _ hstates)

theorem Follows.bind {middle : β → τ → σ → Prop} {fast : Run τ β} {slow : Stateful σ β}
    {fastNext : β → Run τ α} {slowNext : β → Stateful σ α}
    (h : Follows kept before middle fast slow)
    (hnext : ∀ value, Follows kept (middle value) after (fastNext value) (slowNext value)) :
    Follows kept before after (fast >>= fastNext) (slow >>= slowNext) := by
  intro one other hstates
  have hconcurs := h hstates
  simp only [Bind.bind, EStateM.bind]
  -- Where the first programs fail, the second ones do not run on either side.
  revert hconcurs
  generalize fast one = first
  generalize slow other = second
  rintro (hstates | ⟨error, hstates⟩)
  · exact hnext _ hstates
  · exact .error error hstates

/-- States that belong together in a closer way. -/
theorem Follows.of_imp {closer : τ → σ → Prop} {fast : Run τ α} {slow : Stateful σ α}
    (h : Follows kept before after fast slow)
    (himp : ∀ one other, closer one other → before one other) :
    Follows kept closer after fast slow :=
  fun _ _ hstates => h (himp _ _ hstates)

theorem Follows.mono {other : α → τ → σ → Prop} {fast : Run τ α} {slow : Stateful σ α}
    (h : Follows kept before after fast slow)
    (himp : ∀ value one two, after value one two → other value one two) :
    Follows kept before other fast slow := by
  intro one two hstates
  have hconcurs := h hstates
  revert hconcurs
  generalize fast one = first
  generalize slow two = second
  rintro (hstates | ⟨error, hstates⟩)
  · exact .ok (himp _ _ _ hstates)
  · exact .error error hstates

/-- What is known of the states is at hand for the programs. -/
theorem Follows.given {fact : Prop} {fast : Run τ α} {slow : Stateful σ α}
    (h : fact → Follows kept before after fast slow) :
    Follows kept (fun one other => fact ∧ before one other) after fast slow :=
  fun _ _ hstates => h hstates.1 hstates.2

/-- What holds of every value that the plain program gives. -/
theorem Follows.noting {fact : α → Prop} {fast : Run τ α} {slow : Stateful σ α}
    (h : Follows kept before after fast slow)
    (hfact : ∀ other value next, slow other = .ok value next → fact value) :
    Follows kept before (fun value one other => fact value ∧ after value one other) fast slow := by
  intro one other hstates
  have hconcurs := h hstates
  have hvalue := hfact other
  -- What is known of the plain program is kept apart from the outcome, which is generalized.
  revert hconcurs hvalue
  generalize fast one = first
  generalize slow other = second
  rintro (hstates | ⟨error, hstates⟩) hvalue
  · exact .ok ⟨hvalue _ _ rfl, hstates⟩
  · exact .error error hstates

/-- A look at states that belong together. -/
theorem Follows.get_bind {fast : τ → Run τ α} {slow : σ → Stateful σ α}
    (h : ∀ one other, before one other → Follows kept before after (fast one) (slow other)) :
    Follows kept before after (get >>= fast) (get >>= slow) :=
  fun one other hstates => h one other hstates hstates

theorem follows_set {one : τ} {other : σ} (h : kept one other) :
    Follows kept before (fun _ => kept) (set one) (set other) :=
  fun _ _ _ => .ok h

theorem follows_modify {f : τ → τ} {g : σ → σ}
    (h : ∀ one other, before one other → kept (f one) (g other)) :
    Follows kept before (fun _ => kept) (modify f) (modify g) :=
  fun one other hstates => .ok (h one other hstates)

/-- A test. -/
theorem follows_require {condition : Prop} [Decidable condition] {error : Error} :
    Follows kept kept (fun _ => kept) (require condition error) (ensure condition error) := by
  intro one other hstates
  by_cases hcondition : condition
  · rw [require_of hcondition, ensure, if_pos hcondition]
    exact .ok hstates
  · rw [require_of_not hcondition, ensure, if_neg hcondition]
    exact .error error hstates

/-- An outcome that was settled before. -/
theorem follows_lift {fast : Except Stop α} {slow : Except Error α} (h : fast = raise slow) :
    Follows kept kept (fun value one other => slow = .ok value ∧ kept one other)
      (liftExcept fast) (liftExcept slow) := by
  subst h
  intro one other hstates
  cases slow with
  | ok value => exact .ok ⟨rfl, hstates⟩
  | error error => exact .error error hstates

/-- Runs a program on a part of the state. -/
def onPart {υ : Type} (part : τ → υ) (update : τ → υ → τ) (program : Run υ α) : Run τ α :=
  fun state =>
    match program (part state) with
    | .ok value after => .ok value (update state after)
    | .error stop after => .error stop (update state after)

/-- Programs on parts that go hand in hand, with states that do so again when the parts
are put back. -/
theorem Follows.onPart {υ ρ : Type} {keptPart beforePart : υ → ρ → Prop}
    {afterPart : α → υ → ρ → Prop} {part : τ → υ} {update : τ → υ → τ} {partOf : σ → ρ}
    {updateOf : σ → ρ → σ} {fast : Run υ α} {slow : Stateful ρ α}
    (h : Follows keptPart beforePart afterPart fast slow)
    (hpart : ∀ one other, before one other → beforePart (part one) (partOf other))
    (hafter : ∀ one other value first second, before one other → afterPart value first second →
      after value (update one first) (updateOf other second))
    (hkept : ∀ one other first second, before one other → keptPart first second →
      kept (update one first) (updateOf other second)) :
    Follows kept before after (Checked.onPart part update fast)
      (Stateful.onPart partOf updateOf slow) := by
  intro one other hstates
  have hconcurs := h (hpart one other hstates)
  simp only [Checked.onPart, Stateful.onPart]
  revert hconcurs
  generalize fast (part one) = first
  generalize slow (partOf other) = second
  rintro (hparts | ⟨error, hparts⟩)
  · exact .ok (hafter _ _ _ _ _ hstates hparts)
  · exact .error error (hkept _ _ _ _ hstates hparts)

/-- A program on the state that computes nothing. -/
def plain (program : Stateful τ α) : Run τ α := fun state =>
  match program state with
  | .ok value after => .ok value after
  | .error error after => .error (.failed error) after

theorem plain_get_bind (next : τ → Stateful τ α) (state : τ) :
    plain (get >>= next) state = plain (next state) state := rfl

theorem plain_lift_bind (outcome : Except Error β) (next : β → Stateful τ α) (state : τ) :
    plain (liftExcept outcome >>= next) state
      = (liftExcept (raise outcome) >>= fun value => plain (next value)) state := by
  cases outcome <;> rfl

end

end Iamf.Checked
