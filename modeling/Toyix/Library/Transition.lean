import Mathlib.Tactic.Common

/-!
# Runs of a step function

A system takes labelled steps; a label that is refused in a state, or that stops
the machine, has no successor. `Reaches` collects the states met along every run
whose steps all meet a condition on the state and the label. Its induction is
packaged once, so a safety law needs only the initial state and one step.

`runAll` executes a list of labels and checks the condition on the way. A run it
completes is a run in the sense of `Reaches`.
-/

namespace Library

universe u v

variable {σ : Type u} {ι : Type v}

/-- The states reached from `start` by permitted steps. -/
inductive Reaches (step : ι → σ → Option σ) (allowed : σ → ι → Prop) (start : σ) : σ → Prop where
  | start : Reaches step allowed start start
  | step {state next : σ} {label : ι} (before : Reaches step allowed start state)
      (permitted : allowed state label) (taken : step label state = some next) :
      Reaches step allowed start next

variable {step : ι → σ → Option σ} {allowed allowed' : σ → ι → Prop} {start state : σ}

/-- What holds at the start and survives every permitted step holds throughout. -/
theorem Reaches.invariant (reached : Reaches step allowed start state) (property : σ → Prop)
    (initially : property start)
    (preserved : ∀ state label next, property state → allowed state label →
      step label state = some next → property next) : property state := by
  induction reached with
  | start => exact initially
  | step before permitted taken ih => exact preserved _ _ _ ih permitted taken

/-- A condition may be replaced by a weaker one. -/
theorem Reaches.mono (reached : Reaches step allowed start state)
    (weaken : ∀ state label, allowed state label → allowed' state label) :
    Reaches step allowed' start state := by
  induction reached with
  | start => exact .start
  | step before permitted taken ih => exact ih.step (weaken _ _ permitted) taken

section Executed

variable [∀ state label, Decidable (allowed state label)] {labels : List ι} {final : σ}

/-- Execute a list of labels, refusing those that do not meet the condition. -/
def runAll (step : ι → σ → Option σ) (allowed : σ → ι → Prop)
    [∀ state label, Decidable (allowed state label)] : List ι → σ → Option σ
  | [], state => some state
  | label :: rest, state =>
    if allowed state label then (step label state).bind (runAll step allowed rest) else none

/-- Extend a run by an executed list of labels. -/
theorem Reaches.append_run (reached : Reaches step allowed start state)
    (completed : runAll step allowed labels state = some final) :
    Reaches step allowed start final := by
  induction labels generalizing state with
  | nil =>
    obtain rfl := Option.some.inj completed
    exact reached
  | cons label rest ih =>
    simp only [runAll] at completed
    split at completed
    · rename_i permitted
      obtain ⟨next, taken, remaining⟩ := Option.bind_eq_some_iff.mp completed
      exact ih (.step reached permitted taken) remaining
    · simp at completed

/-- An executed list of labels is a run. -/
theorem Reaches.of_run (completed : runAll step allowed labels start = some final) :
    Reaches step allowed start final :=
  Reaches.append_run .start completed

/-- What is seen after an executed run is seen in a state that is reached. -/
theorem Reaches.of_facts {β : Type*} {facts : σ → β} {values : β}
    (completed : (runAll step allowed labels start).map facts = some values) :
    ∃ final, Reaches step allowed start final ∧ facts final = values := by
  obtain ⟨final, ran, seen⟩ := Option.map_eq_some_iff.mp completed
  exact ⟨final, .of_run ran, seen⟩

end Executed

end Library
