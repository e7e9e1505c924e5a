import Mathlib.Tactic.Common

/-!
# Programs that may stop the machine

A program takes a state and either returns a value with a new state, stops the
machine with a message, or never returns. The stopped state is kept, so that a
law can speak about what was written before the stop. A loop whose measure runs
out is `diverged`; it is never confused with a return or with a stop.

`Sat` is the contract used throughout: every return meets the postcondition, the
program does not diverge, and a stop is permitted. Contracts compose along `bind`.
-/

namespace Library

universe u v w

/-- What running a program from one state produces. -/
inductive Outcome (σ : Type u) (α : Type v) where
  | done (value : α) (state : σ)
  | panicked (message : String) (state : σ)
  | diverged

/-- A program over states of type `σ`. -/
def Program (σ : Type u) (α : Type v) := σ → Outcome σ α

namespace Outcome

variable {σ : Type u} {α : Type v} {β : Type w} {outcome : Outcome σ α} {post : α → σ → Prop}
  {state : σ} {rest : α → Program σ β} {value : α}

/-- Continue after a return; a stop or a divergence is final. -/
def andThen (outcome : Outcome σ α) (rest : α → Program σ β) : Outcome σ β :=
  match outcome with
  | .done value state => rest value state
  | .panicked message state => .panicked message state
  | .diverged => .diverged

@[simp] theorem andThen_panicked (message : String) (state : σ) (rest : α → Program σ β) :
    (Outcome.panicked message state : Outcome σ α).andThen rest = .panicked message state := rfl

@[simp] theorem andThen_diverged (rest : α → Program σ β) :
    (Outcome.diverged : Outcome σ α).andThen rest = .diverged := rfl

/-- Every return meets the postcondition and the program does not diverge.
A stop satisfies every postcondition: nothing runs after it. -/
def Sat (outcome : Outcome σ α) (post : α → σ → Prop) : Prop :=
  match outcome with
  | .done value state => post value state
  | .panicked _ _ => True
  | .diverged => False

/-- The value and the state of a return. -/
def result (outcome : Outcome σ α) : Option (α × σ) :=
  match outcome with
  | .done value state => some (value, state)
  | _ => none

@[simp] theorem sat_panicked (message : String) (state : σ) (post : α → σ → Prop) :
    (Outcome.panicked message state).Sat post := trivial

/-- A contract may be replaced by a weaker one. -/
theorem Sat.mono {weaker : α → σ → Prop} (satisfied : outcome.Sat post)
    (weaken : ∀ value state, post value state → weaker value state) : outcome.Sat weaker := by
  cases outcome with
  | done value state => exact weaken value state satisfied
  | panicked message state => trivial
  | diverged => exact satisfied

/-- Two contracts of one program hold together. -/
theorem Sat.and {other : α → σ → Prop} (left : outcome.Sat post) (right : outcome.Sat other) :
    outcome.Sat fun value state => post value state ∧ other value state := by
  cases outcome with
  | done value state => exact ⟨left, right⟩
  | panicked message state => trivial
  | diverged => exact left

/-- A returned outcome exposes its postcondition. -/
theorem Sat.of_done (satisfied : outcome.Sat post) (returns : outcome = .done value state) :
    post value state := by
  subst returns
  exact satisfied

/-- Sequential composition of contracts. -/
theorem Sat.andThen {final : β → σ → Prop} (satisfied : outcome.Sat post)
    (continues : ∀ value state, post value state → (rest value state).Sat final) :
    (outcome.andThen rest).Sat final := by
  cases outcome with
  | done value state => exact continues value state satisfied
  | panicked message state => trivial
  | diverged => exact satisfied

end Outcome

namespace Program

variable {σ : Type u} {α : Type v}

instance : Monad (Program σ) where
  pure value := fun state => .done value state
  bind first rest := fun state => (first state).andThen rest

/-- The current state. -/
def current : Program σ σ := fun state => .done state state

/-- Replace the state by its image. -/
def update (change : σ → σ) : Program σ PUnit := fun state => .done ⟨⟩ (change state)

/-- Stop the machine. -/
def panic (message : String) : Program σ α := fun state => .panicked message state

/-- Never return. -/
def diverge : Program σ α := fun _ => .diverged

end Program

/-! ## Running programs -/

section Run

variable {σ : Type u} {α β : Type v} {outcome : Outcome σ α} {state : σ} {value : α}
  {rest : α → Program σ β}

@[simp] theorem andThen_done (value : α) (state : σ) (rest : α → Program σ β) :
    (Outcome.done value state).andThen rest = rest value state := rfl

@[simp] theorem sat_done (value : α) (state : σ) (post : α → σ → Prop) :
    (Outcome.done value state).Sat post ↔ post value state := Iff.rfl

@[simp] theorem pure_apply (value : α) (state : σ) :
    (pure value : Program σ α) state = .done value state := rfl

@[simp] theorem bind_apply (first : Program σ α) (rest : α → Program σ β) (state : σ) :
    (first >>= rest) state = (first state).andThen rest := rfl

@[simp] theorem current_apply (state : σ) :
    (Program.current : Program σ σ) state = .done state state := rfl

@[simp] theorem Program.update_apply (change : σ → σ) (state : σ) :
    Program.update change state = .done ⟨⟩ (change state) := rfl

@[simp] theorem panic_apply (message : String) (state : σ) :
    (Program.panic message : Program σ α) state = .panicked message state := rfl

@[simp] theorem diverge_apply (state : σ) : (Program.diverge : Program σ α) state = .diverged := rfl

/-- A conditional program runs the selected branch. -/
@[simp] theorem ite_run (condition : Prop) [Decidable condition] (yes no : Program σ α) (state : σ) :
    (if condition then yes else no) state = if condition then yes state else no state := by
  split <;> rfl

/-- A first step that returns is replaced by its result. -/
theorem bind_done {first : Program σ α} {next : σ} (returns : first state = .done value next) :
    (first >>= rest) state = rest value next := by
  simp [returns]

/-- A composition returns when both parts do. -/
theorem bind_eq_done {first : Program σ α} {final : σ} {value : β} :
    (first >>= rest) state = .done value final ↔
      ∃ middle next, first state = .done middle next ∧ rest middle next = .done value final := by
  rw [bind_apply]
  cases first state with
  | done middle next => simp
  | panicked message next => simp
  | diverged => simp

/-- A result comes from a return. -/
theorem result_eq_some : outcome.result = some (value, state) ↔ outcome = .done value state := by
  cases outcome <;> simp [Outcome.result]

/-- What is seen of a result is seen of a return. -/
theorem done_of_map {view : α × σ → β} {facts : β} (seen : outcome.result.map view = some facts) :
    ∃ value state, outcome = .done value state ∧ view (value, state) = facts := by
  obtain ⟨⟨value, state⟩, returned, same⟩ := Option.map_eq_some_iff.mp seen
  exact ⟨value, state, result_eq_some.mp returned, same⟩

/-- A value that was seen is the value of a return. -/
theorem done_of_value (seen : outcome.result.map Prod.fst = some value) :
    ∃ state, outcome = .done value state := by
  obtain ⟨found, state, returned, rfl⟩ := done_of_map seen
  exact ⟨state, returned⟩

/-- What was seen of a return. -/
theorem done_of_facts {facts : σ → β} {values : β}
    (seen : outcome.result.map (Prod.map id facts) = some (value, values)) :
    ∃ state, outcome = .done value state ∧ facts state = values := by
  obtain ⟨found, state, returned, same⟩ := done_of_map seen
  obtain ⟨rfl, isValues⟩ := Prod.mk.inj same
  exact ⟨state, returned, isValues⟩

/-- The bind rule for contracts. -/
theorem sat_bind {first : Program σ α} {post : α → σ → Prop} {final : β → σ → Prop}
    (satisfied : (first state).Sat post) (continues : ∀ value next, post value next → (rest value next).Sat final) :
    ((first >>= rest) state).Sat final :=
  satisfied.andThen continues

end Run

end Library
