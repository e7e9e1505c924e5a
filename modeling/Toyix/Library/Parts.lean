import Toyix.Library.Outcome

/-!
# Programs on a part of the state

A program that works on one component of a larger state, and contracts that also speak about the
state in which the machine stops.
-/

namespace Library

universe u v w

namespace Outcome

variable {σ : Type u} {τ : Type w} {α β : Type v}

/-- Translate the state. -/
def mapState (outcome : Outcome τ α) (change : τ → σ) : Outcome σ α :=
  match outcome with
  | .done value part => .done value (change part)
  | .panicked message part => .panicked message (change part)
  | .diverged => .diverged

/-- A contract for the part is one for the whole. -/
theorem Sat.mapState {outcome : Outcome τ α} {post : α → τ → Prop} {final : α → σ → Prop}
    {change : τ → σ} (satisfied : outcome.Sat post)
    (translated : ∀ value part, post value part → final value (change part)) :
    (outcome.mapState change).Sat final := by
  cases outcome with
  | done value part => exact translated value part satisfied
  | panicked message part => trivial
  | diverged => exact satisfied

/-- What a return and a stop leave. Nothing is said of a program that diverges. -/
def Leaves (outcome : Outcome σ α) (returned : α → σ → Prop) (stopped : σ → Prop) : Prop :=
  match outcome with
  | .done value state => returned value state
  | .panicked _ state => stopped state
  | .diverged => True

theorem Leaves.mono {outcome : Outcome σ α} {returned weaker : α → σ → Prop} {stopped : σ → Prop}
    (leaves : outcome.Leaves returned stopped)
    (weaken : ∀ value state, returned value state → weaker value state) :
    outcome.Leaves weaker stopped := by
  cases outcome with
  | done value state => exact weaken value state leaves
  | panicked message state => exact leaves
  | diverged => trivial

theorem Leaves.andThen {outcome : Outcome σ α} {returned : α → σ → Prop} {stopped : σ → Prop}
    {rest : α → Program σ β} {final : β → σ → Prop} (leaves : outcome.Leaves returned stopped)
    (continues : ∀ value state, returned value state → (rest value state).Leaves final stopped) :
    (outcome.andThen rest).Leaves final stopped := by
  cases outcome with
  | done value state => exact continues value state leaves
  | panicked message state => exact leaves
  | diverged => trivial

/-- The program does not diverge, and the state it leaves, by a return or by a stop, has the
property. -/
def Ends (outcome : Outcome σ α) (property : σ → Prop) : Prop :=
  match outcome with
  | .done _ state => property state
  | .panicked _ state => property state
  | .diverged => False

theorem Leaves.ends {outcome : Outcome σ α} {returned : α → σ → Prop} {property : σ → Prop}
    (leaves : outcome.Leaves returned property) {post : α → σ → Prop} (terminates : outcome.Sat post)
    (sufficient : ∀ value state, returned value state → property state) : outcome.Ends property := by
  cases outcome with
  | done value state => exact sufficient value state leaves
  | panicked message state => exact leaves
  | diverged => exact terminates

end Outcome

namespace Program

variable {σ : Type u} {τ : Type w} {α : Type v}

/-- Run a program on a part of the state. -/
def within (get : σ → τ) (set : σ → τ → σ) (program : Program τ α) : Program σ α := fun state =>
  (program (get state)).mapState (set state)

theorem within_apply (get : σ → τ) (set : σ → τ → σ) (program : Program τ α) (state : σ) :
    within get set program state = (program (get state)).mapState (set state) := rfl

/-- A part that returns is replaced by its result. -/
theorem within_done {get : σ → τ} {set : σ → τ → σ} {program : Program τ α} {state : σ} {value : α}
    {part : τ} (returns : program (get state) = .done value part) :
    within get set program state = .done value (set state part) := by
  rw [within_apply, returns]
  rfl

end Program

end Library
