import Mathlib.Algebra.BigOperators.Group.Finset.Basic
import Mathlib.Algebra.BigOperators.Fin
import Mathlib.Data.Fintype.BigOperators
import Mathlib.Tactic.Common

/-!
# A resource behind a queue of waiting threads

Threads take units of a resource and give them back. A thread that finds nothing to
take joins a queue and is blocked; whoever gives a unit back afterwards removes the
first thread of the queue and wakes it. Taking, giving, joining, removing and waking
are separate atomic steps, and any thread that is not blocked may take the next one.
A thread that was woken has no claim on the unit it was woken for: it looks again,
and may have to queue again.

`Gate` holds what is particular to the resource. The laws are about the queue: who is
in it, who is about to be woken, and that a thread is not left in it while units are
to be had and nobody is on the way to wake it.
-/

namespace Library

open Function

universe u v

/-- The atomic operations on the resource. `refused` and a `give` without a result
stop the machine. -/
structure Gate (ι : Type u) (ρ : Type v) where
  refused : ι → ρ → Bool
  available : ρ → Bool
  take : ι → ρ → ρ
  give : ι → ρ → Option ρ

namespace Gate

/-- Where a thread stands. `woken` tells whether it has been removed from the queue
since it began to wait. -/
inductive Stage (ι : Type u) where
  | outside
  | waiting (woken : Bool)
  | queued
  | popped
  | ready
  | retrying (woken : Bool)
  | giving
  | waking (thread : ι)
  deriving DecidableEq

/-- The resource, the queue and the threads, with the number of units taken and given
so far. -/
structure State (ι : Type u) (ρ : Type v) where
  resource : ρ
  queue : List ι
  stage : ι → Stage ι
  taken : Nat
  given : Nat

/-- A thread calls one of the operations, or takes the next step of its call. -/
inductive Label (ι : Type u) where
  | acquire (thread : ι)
  | tryAcquire (thread : ι)
  | release (thread : ι)
  | advance (thread : ι)
  deriving DecidableEq

/-- The thread that takes the step. -/
def Label.thread {ι : Type u} : Label ι → ι
  | .acquire thread => thread
  | .tryAcquire thread => thread
  | .release thread => thread
  | .advance thread => thread

variable {ι : Type u} {ρ : Type v} [DecidableEq ι] {thread : ι} {units : ρ → Int}

/-- Nobody has called anything. -/
def State.initial (resource : ρ) : State ι ρ := ⟨resource, [], fun _ => .outside, 0, 0⟩

/-- The thread goes on at another place. -/
def State.moved (state : State ι ρ) (thread : ι) (stage : Stage ι) : State ι ρ :=
  { state with stage := update state.stage thread stage }

/-- The thread takes a unit and leaves the operation. -/
def State.took (state : State ι ρ) (gate : Gate ι ρ) (thread : ι) : State ι ρ :=
  { state.moved thread .outside with
    resource := gate.take thread state.resource
    taken := state.taken + 1 }

/-- The thread joins the queue and is blocked. -/
def State.joined (state : State ι ρ) (thread : ι) : State ι ρ :=
  { state.moved thread .queued with queue := state.queue ++ [thread] }

/-- The thread has given a unit back; the wakeup is still to come. -/
def State.gave (state : State ι ρ) (thread : ι) (resource : ρ) : State ι ρ :=
  { state.moved thread .giving with resource := resource, given := state.given + 1 }

/-- The first thread of the queue is removed by `thread`. -/
def State.removed (state : State ι ρ) (thread first : ι) (rest : List ι) : State ι ρ :=
  { (state.moved first .popped).moved thread (.waking first) with queue := rest }

/-- Take a unit if there is one, otherwise begin to wait. -/
def attempt (gate : Gate ι ρ) (thread : ι) (woken : Bool) (state : State ι ρ) : State ι ρ :=
  if gate.available state.resource then state.took gate thread
  else state.moved thread (.waiting woken)

/-- Stop waiting if there is a unit, otherwise join the queue. -/
def await (gate : Gate ι ρ) (thread : ι) (woken : Bool) (state : State ι ρ) : State ι ρ :=
  if gate.available state.resource then state.moved thread (.retrying woken)
  else state.joined thread

/-- Make a blocked thread runnable; the waker leaves the operation. -/
def wake (thread target : ι) (state : State ι ρ) : State ι ρ :=
  if state.stage target = .queued ∨ state.stage target = .popped then
    (state.moved target .ready).moved thread .outside
  else state.moved thread .outside

/-- The next step of a call. A thread outside has none, nor has a blocked one. -/
def advance (gate : Gate ι ρ) (thread : ι) (state : State ι ρ) : Option (State ι ρ) :=
  match state.stage thread with
  | .outside => none
  | .waiting woken => some (gate.await thread woken state)
  | .queued => none
  | .popped => none
  | .ready => some (gate.await thread true state)
  | .retrying woken => some (gate.attempt thread woken state)
  | .giving =>
    match state.queue with
    | [] => some (state.moved thread .outside)
    | first :: rest => some (state.removed thread first rest)
  | .waking target => some (wake thread target state)

/-- One step of one thread. -/
def step (gate : Gate ι ρ) : Label ι → State ι ρ → Option (State ι ρ)
  | .acquire thread, state =>
    if state.stage thread = .outside ∧ gate.refused thread state.resource = false then
      some (gate.attempt thread false state)
    else none
  | .tryAcquire thread, state =>
    if state.stage thread = .outside then
      some (if gate.available state.resource then state.took gate thread else state)
    else none
  | .release thread, state =>
    if state.stage thread = .outside then
      (gate.give thread state.resource).map (state.gave thread)
    else none
  | .advance thread, state => gate.advance thread state

/-! ## What a step can do -/

/-- The places that have nothing to do with a removed thread. -/
def Stage.quiet : Stage ι → Prop
  | .queued => False
  | .popped => False
  | .waking _ => False
  | _ => True

/-- One for a thread that is on its way to wake another one, or that was removed from
the queue and has neither taken a unit nor joined again. -/
def Stage.weight : Stage ι → Nat
  | .outside => 0
  | .waiting woken => if woken then 1 else 0
  | .queued => 0
  | .popped => 1
  | .ready => 1
  | .retrying woken => if woken then 1 else 0
  | .giving => 1
  | .waking _ => 0

/-- The effects of a step. Only a call that releases gives a unit. -/
inductive Moves (gate : Gate ι ρ) (state : State ι ρ) (label : Label ι) : State ι ρ → Prop where
  | still : Moves gate state label state
  | shift {thread : ι} {stage : Stage ι} (before : (state.stage thread).quiet) (after : stage.quiet)
      (same : stage.weight = (state.stage thread).weight) :
      Moves gate state label (state.moved thread stage)
  | take {thread : ι} (called : label.thread = thread) (before : (state.stage thread).quiet)
      (available : gate.available state.resource = true) :
      Moves gate state label (state.took gate thread)
  | join {thread : ι} (before : (state.stage thread).quiet)
      (unavailable : gate.available state.resource = false) :
      Moves gate state label (state.joined thread)
  | give {thread : ι} {resource : ρ} (called : label = .release thread)
      (before : state.stage thread = .outside)
      (given : gate.give thread state.resource = some resource) :
      Moves gate state label (state.gave thread resource)
  | nobody {thread : ι} (before : state.stage thread = .giving) (empty : state.queue = []) :
      Moves gate state label (state.moved thread .outside)
  | remove {thread first : ι} {rest : List ι} (before : state.stage thread = .giving)
      (queue : state.queue = first :: rest) : Moves gate state label (state.removed thread first rest)
  | wake {thread target : ι} (before : state.stage thread = .waking target) :
      Moves gate state label (Gate.wake thread target state)

variable {gate : Gate ι ρ} {state next : State ι ρ} {label : Label ι}

theorem attempt_moves {woken : Bool} (called : label.thread = thread)
    (before : (state.stage thread).quiet)
    (same : (state.stage thread).weight = if woken then 1 else 0) :
    Moves gate state label (gate.attempt thread woken state) := by
  unfold attempt
  split
  · rename_i available
    exact .take called before available
  · exact .shift before trivial same.symm

theorem await_moves {woken : Bool} (before : (state.stage thread).quiet)
    (same : (state.stage thread).weight = if woken then 1 else 0) :
    Moves gate state label (gate.await thread woken state) := by
  unfold await
  split
  · exact .shift before trivial same.symm
  · rename_i unavailable
    exact .join before (Bool.eq_false_iff.mpr unavailable)

theorem advance_moves (taken : gate.advance thread state = some next) :
    Moves gate state (.advance thread) next := by
  unfold advance at taken
  cases place : state.stage thread with
  | outside => simp [place] at taken
  | queued => simp [place] at taken
  | popped => simp [place] at taken
  | waiting woken =>
    simp only [place, Option.some.injEq] at taken
    subst taken
    apply await_moves <;> rw [place]
    · trivial
    · rfl
  | ready =>
    simp only [place, Option.some.injEq] at taken
    subst taken
    apply await_moves <;> rw [place]
    · trivial
    · rfl
  | retrying woken =>
    simp only [place, Option.some.injEq] at taken
    subst taken
    have called : (Label.advance thread).thread = thread := rfl
    apply attempt_moves called <;> rw [place]
    · trivial
    · rfl
  | giving =>
    cases queue : state.queue with
    | nil =>
      simp only [place, queue, Option.some.injEq] at taken
      subst taken
      exact .nobody place queue
    | cons first rest =>
      simp only [place, queue, Option.some.injEq] at taken
      subst taken
      exact .remove place queue
  | waking target =>
    simp only [place, Option.some.injEq] at taken
    subst taken
    exact .wake place

/-- Every step has one of the effects. -/
theorem step_moves (taken : gate.step label state = some next) : Moves gate state label next := by
  cases label with
  | acquire thread =>
    simp only [step] at taken
    split at taken
    · rename_i entering
      obtain rfl := Option.some.inj taken
      have called : (Label.acquire thread).thread = thread := rfl
      apply attempt_moves called <;> rw [entering.1]
      · trivial
      · rfl
    · simp at taken
  | tryAcquire thread =>
    simp only [step] at taken
    split at taken
    · rename_i outside
      obtain rfl := Option.some.inj taken
      split
      · rename_i available
        refine .take rfl ?_ available
        rw [outside]
        trivial
      · exact .still
    · simp at taken
  | release thread =>
    simp only [step] at taken
    split at taken
    · rename_i outside
      obtain ⟨resource, given, rfl⟩ := Option.map_eq_some_iff.mp taken
      exact .give rfl outside given
    · simp at taken
  | advance thread => exact advance_moves taken

/-! ## Who is in the queue -/

/-- The queue holds exactly the threads blocked in it, each once, and every thread
that is about to be woken has been removed by exactly one other. -/
structure Sound (state : State ι ρ) : Prop where
  nodup : state.queue.Nodup
  queued : ∀ thread, thread ∈ state.queue ↔ state.stage thread = .queued
  waking : ∀ thread target, state.stage thread = .waking target → state.stage target = .popped
  single : ∀ thread thread' target, state.stage thread = .waking target →
    state.stage thread' = .waking target → thread = thread'

omit [DecidableEq ι] in
theorem initial_sound (resource : ρ) : Sound (State.initial resource : State ι ρ) := by
  constructor <;> simp [State.initial]

/-- A thread that was neither blocked nor waking another one goes on elsewhere. -/
theorem Sound.moved (sound : Sound state) {stage : Stage ι} (before : (state.stage thread).quiet)
    (after : stage.quiet) : Sound (state.moved thread stage) := by
  constructor
  · exact sound.nodup
  · intro other
    have isQueued := sound.queued other
    simp only [State.moved, update_apply]
    grind [Stage.quiet]
  · intro other target isWaking
    have known := sound.waking other target
    simp only [State.moved, update_apply] at isWaking ⊢
    grind [Stage.quiet]
  · intro other other' target isWaking isWaking'
    have known := sound.single other other' target
    simp only [State.moved, update_apply] at isWaking isWaking'
    grind [Stage.quiet]

omit [DecidableEq ι] in
/-- The queue depends on nothing but the queue and the stages. -/
theorem Sound.congr (sound : Sound state) (sameQueue : next.queue = state.queue)
    (sameStage : next.stage = state.stage) : Sound next := by
  constructor
  · rw [sameQueue]
    exact sound.nodup
  · rw [sameQueue, sameStage]
    exact sound.queued
  · rw [sameStage]
    exact sound.waking
  · rw [sameStage]
    exact sound.single

theorem Sound.joined (sound : Sound state) (before : (state.stage thread).quiet) :
    Sound (state.joined thread) := by
  have absent : thread ∉ state.queue := by
    intro member
    rw [(sound.queued thread).mp member] at before
    exact before
  constructor
  · simp only [State.joined, List.nodup_append, List.mem_singleton, List.nodup_singleton]
    refine ⟨sound.nodup, trivial, ?_⟩
    rintro other member single rfl rfl
    exact absent member
  · intro other
    have isQueued := sound.queued other
    simp only [State.joined, State.moved, update_apply, List.mem_append, List.mem_singleton]
    grind
  · intro other target isWaking
    have known := sound.waking other target
    simp only [State.joined, State.moved, update_apply] at isWaking ⊢
    grind [Stage.quiet]
  · intro other other' target isWaking isWaking'
    have known := sound.single other other' target
    simp only [State.joined, State.moved, update_apply] at isWaking isWaking'
    grind

theorem Sound.removed (sound : Sound state) {first : ι} {rest : List ι}
    (before : state.stage thread = .giving) (queue : state.queue = first :: rest) :
    Sound (state.removed thread first rest) := by
  have nodup := sound.nodup
  rw [queue, List.nodup_cons] at nodup
  have blocked : state.stage first = .queued := by
    apply (sound.queued first).mp
    rw [queue]
    exact List.mem_cons_self
  have unclaimed : ∀ other, state.stage other ≠ .waking first := by
    intro other isWaking
    have gone := sound.waking other first isWaking
    rw [blocked] at gone
    simp at gone
  constructor
  · exact nodup.2
  · intro other
    have isQueued := sound.queued other
    rw [queue, List.mem_cons] at isQueued
    simp only [State.removed, State.moved, update_apply]
    grind
  · intro other target isWaking
    have known := sound.waking other target
    simp only [State.removed, State.moved, update_apply] at isWaking ⊢
    grind
  · intro other other' target isWaking isWaking'
    have known := sound.single other other' target
    simp only [State.removed, State.moved, update_apply] at isWaking isWaking'
    grind

theorem Sound.woken (sound : Sound state) {target : ι}
    (before : state.stage thread = .waking target) : Sound (wake thread target state) := by
  have gone := sound.waking thread target before
  have taken : wake thread target state = (state.moved target .ready).moved thread .outside := by
    simp only [wake, gone, or_true, ↓reduceIte]
  rw [taken]
  constructor
  · exact sound.nodup
  · intro other
    have isQueued := sound.queued other
    simp only [State.moved, update_apply]
    grind
  · intro other target' isWaking
    have known := sound.waking other target'
    have same := sound.single other thread target'
    simp only [State.moved, update_apply] at isWaking ⊢
    grind
  · intro other other' target' isWaking isWaking'
    have known := sound.single other other' target'
    simp only [State.moved, update_apply] at isWaking isWaking'
    grind

/-- The queue stays sound. -/
theorem Moves.sound (moves : Moves gate state label next) (sound : Sound state) : Sound next := by
  cases moves with
  | still => exact sound
  | shift before after same => exact sound.moved before after
  | @take thread called before available =>
    have left : Sound (state.moved thread .outside) := sound.moved before trivial
    exact left.congr rfl rfl
  | join before unavailable => exact sound.joined before
  | @give thread resource called before given =>
    have quiet : (state.stage thread).quiet := by
      rw [before]
      trivial
    have moved : Sound (state.moved thread .giving) := sound.moved quiet trivial
    exact moved.congr rfl rfl
  | nobody before empty =>
    apply sound.moved
    · rw [before]
      trivial
    · trivial
  | remove before queue => exact sound.removed before queue
  | wake before => exact sound.woken before

/-! ## Wakeups in flight -/

variable [Fintype ι]

/-- The threads that have given a unit and not yet looked at the queue, and those
removed from it that have neither taken a unit nor joined again. -/
def wakeups (state : State ι ρ) : Nat := ∑ thread, (state.stage thread).weight

theorem wakeups_moved (state : State ι ρ) (thread : ι) (stage : Stage ι) :
    wakeups (state.moved thread stage) + (state.stage thread).weight =
      wakeups state + stage.weight := by
  have after : wakeups (state.moved thread stage) = stage.weight +
      ∑ other ∈ Finset.univ \ {thread}, (state.stage other).weight := by
    have pushed : (fun other => ((state.moved thread stage).stage other).weight) =
        update (fun other => (state.stage other).weight) thread stage.weight := by
      funext other
      simp only [State.moved, update_apply]
      split <;> rfl
    rw [wakeups, pushed, Finset.sum_update_of_mem (Finset.mem_univ thread)]
  have before : wakeups state = (state.stage thread).weight +
      ∑ other ∈ Finset.univ \ {thread}, (state.stage other).weight := by
    rw [wakeups, ← Finset.sum_sdiff (Finset.subset_univ {thread}), Finset.sum_singleton, add_comm]
  omega

omit [DecidableEq ι] [Fintype ι] in
theorem weight_le_one (stage : Stage ι) : stage.weight ≤ 1 := by
  cases stage with
  | waiting woken => cases woken <;> simp [Stage.weight]
  | retrying woken => cases woken <;> simp [Stage.weight]
  | _ => simp [Stage.weight]

/-- Removing a thread passes the wakeup on to it. -/
theorem wakeups_removed (sound : Sound state) {first : ι} {rest : List ι}
    (before : state.stage thread = .giving) (queue : state.queue = first :: rest) :
    wakeups (state.removed thread first rest) = wakeups state := by
  have blocked : state.stage first = .queued := by
    apply (sound.queued first).mp
    rw [queue]
    exact List.mem_cons_self
  have other : thread ≠ first := by
    rintro rfl
    rw [blocked] at before
    simp at before
  have kept : (state.moved first .popped).stage thread = .giving := by
    simp only [State.moved, update_apply, other, ↓reduceIte, before]
  have leaving := wakeups_moved state first .popped
  have passing := wakeups_moved (state.moved first .popped) thread (.waking first)
  rw [blocked] at leaving
  rw [kept] at passing
  simp only [Stage.weight] at leaving passing
  have same : wakeups (state.removed thread first rest) =
      wakeups ((state.moved first .popped).moved thread (.waking first)) := rfl
  omega

/-- Waking the removed thread leaves it a wakeup. -/
theorem wakeups_wake (sound : Sound state) {target : ι}
    (before : state.stage thread = .waking target) :
    (wake thread target state).queue = state.queue ∧
      (wake thread target state).resource = state.resource ∧
      wakeups (wake thread target state) = wakeups state := by
  have gone := sound.waking thread target before
  have other : thread ≠ target := by
    rintro rfl
    rw [gone] at before
    simp at before
  have kept : (state.moved target .ready).stage thread = .waking target := by
    simp only [State.moved, update_apply, other, ↓reduceIte, before]
  have rising := wakeups_moved state target .ready
  have leaving := wakeups_moved (state.moved target .ready) thread .outside
  rw [gone] at rising
  rw [kept] at leaving
  simp only [wake, gone, or_true, ↓reduceIte]
  simp only [Stage.weight] at rising leaving
  refine ⟨rfl, rfl, ?_⟩
  omega

/-- The number of units to be had is at most that of the wakeups in flight, whenever
a thread is in the queue. -/
def Covered (units : ρ → Int) (state : State ι ρ) : Prop :=
  state.queue ≠ [] → units state.resource ≤ wakeups state

/-- What a resource has to satisfy at one step. -/
structure Counts (gate : Gate ι ρ) (units : ρ → Int) (resource : ρ) (label : Label ι) : Prop where
  available : gate.available resource = true ↔ 0 < units resource
  take : ∀ thread, gate.available resource = true →
    units (gate.take thread resource) = units resource - 1
  give : ∀ thread resource', label = .release thread →
    gate.give thread resource = some resource' → units resource' = units resource + 1

/-- Nobody is left behind by a step.

Proof: a unit that is given comes with a wakeup, and removing a thread passes that
wakeup on to it. A thread that stops being a wakeup takes a unit, or has just seen
that there is none. A thread that joins an empty queue has just seen the same. -/
theorem Moves.covered (moves : Moves gate state label next) (sound : Sound state)
    (counts : Counts gate units state.resource label) (covered : Covered units state) :
    Covered units next := by
  intro nonempty
  cases moves with
  | still => exact covered nonempty
  | @shift thread stage before after same =>
    have change := wakeups_moved state thread stage
    have covers := covered nonempty
    have enough : units state.resource ≤ wakeups (state.moved thread stage) := by omega
    exact enough
  | @take thread called before available =>
    have change := wakeups_moved state thread .outside
    have light := weight_le_one (state.stage thread)
    have spent := counts.take thread available
    have covers := covered nonempty
    have enough : units (gate.take thread state.resource) ≤
        wakeups (state.moved thread .outside) := by omega
    exact enough
  | @join thread before unavailable =>
    have nothing : ¬ 0 < units state.resource := by
      rw [← counts.available, unavailable]
      simp
    have enough : units state.resource ≤ wakeups (state.moved thread .queued) := by omega
    exact enough
  | @give thread resource called outside given =>
    have change := wakeups_moved state thread .giving
    have more := counts.give thread resource called given
    have covers := covered nonempty
    rw [outside] at change
    simp only [Stage.weight] at change
    have enough : units resource ≤ wakeups (state.moved thread .giving) := by omega
    exact enough
  | nobody before empty => exact absurd empty nonempty
  | @remove thread first rest before queue =>
    have present : state.queue ≠ [] := by
      rw [queue]
      simp
    rw [wakeups_removed sound before queue]
    exact covered present
  | @wake thread target before =>
    obtain ⟨sameQueue, sameResource, same⟩ := wakeups_wake sound before
    rw [sameQueue] at nonempty
    rw [sameResource, same]
    exact covered nonempty

/-- The laws of a counted resource: the units are those there were at the start and
those given, without those taken; there are never fewer than none; and no thread is
left in the queue. -/
structure Balanced (units : ρ → Int) (start : Int) (state : State ι ρ) : Prop where
  sound : Sound state
  account : units state.resource = start + state.given - state.taken
  nonneg : 0 ≤ units state.resource
  covered : Covered units state

omit [DecidableEq ι] in
theorem initial_balanced {resource : ρ} (nonneg : 0 ≤ units resource) :
    Balanced units (units resource) (State.initial resource : State ι ρ) := by
  refine ⟨initial_sound resource, ?_, nonneg, ?_⟩
  · simp [State.initial]
  · intro nonempty
    exact absurd rfl nonempty

theorem Moves.balanced {start : Int} (moves : Moves gate state label next)
    (counts : Counts gate units state.resource label) (balanced : Balanced units start state) :
    Balanced units start next := by
  obtain ⟨sound, account, nonneg, covered⟩ := balanced
  have units' : units next.resource = start + next.given - next.taken ∧ 0 ≤ units next.resource := by
    cases moves with
    | still => exact ⟨account, nonneg⟩
    | shift before after same => exact ⟨account, nonneg⟩
    | join before unavailable => exact ⟨account, nonneg⟩
    | nobody before empty => exact ⟨account, nonneg⟩
    | remove before queue => exact ⟨account, nonneg⟩
    | @take thread called before available =>
      have spent := counts.take thread available
      have some := counts.available.mp available
      simp only [State.took, State.moved]
      omega
    | @give thread resource called outside given =>
      have more := counts.give thread resource called given
      simp only [State.gave, State.moved]
      omega
    | wake before =>
      unfold Gate.wake
      split <;> exact ⟨account, nonneg⟩
  exact ⟨moves.sound sound, units'.1, units'.2, moves.covered sound counts covered⟩

/-- Every thread is outside the operations or blocked in the queue. -/
def Settled (state : State ι ρ) : Prop :=
  ∀ thread, state.stage thread = .outside ∨ thread ∈ state.queue

omit [DecidableEq ι] in
/-- When every thread is outside or in the queue, no wakeup is in flight, and a thread
in the queue waits for a unit that is not there. -/
theorem Balanced.not_stuck {start : Int} (balanced : Balanced units start state) :
    ¬ (Settled state ∧ 0 < units state.resource ∧ state.queue ≠ []) := by
  rintro ⟨settled, positive, nonempty⟩
  have none : wakeups state = 0 := by
    apply Finset.sum_eq_zero
    intro thread _
    rcases settled thread with outside | member
    · rw [outside]
      rfl
    · rw [(balanced.sound.queued thread).mp member]
      rfl
  have covers := balanced.covered nonempty
  omega

end Gate

end Library
