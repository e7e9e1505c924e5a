import Toyix.Library.Gate
import Toyix.Library.Transition
import Toyix.Library.Words

/-!
# Semaphores and mutexes

`kernel/sync.c` builds both on the same pattern. `semaphore_wait` and `mutex_lock`
take a unit inside an `irq_save` section when there is one; otherwise they leave the
section and call `wait_queue_wait`, which looks at the condition again and, in one
section, joins the queue, blocks and yields. `semaphore_signal` and `mutex_unlock`
give the unit back in one section, remove the first waiter in a second one and wake
it in a third.

The sections are the steps of `Library.Gate`; between them any other thread may run.
The scheduler is left open: whichever thread is not blocked may take the next step.
-/

namespace Toyix.Sync

open Library Library.Gate

universe u

variable {ι : Type u} [DecidableEq ι]

/-! ## Semaphores -/

/-- `semaphore_available_condition`. -/
def semaphoreAvailableCondition (count : Int) : Bool := decide (count > 0)

/-- The sections of `semaphore_wait`, `semaphore_try_wait` and `semaphore_signal` that
read or write `count`. -/
def semaphoreGate (ι : Type u) : Gate ι Int where
  refused _ _ := false
  available := semaphoreAvailableCondition
  take _ count := int32 (count - 1)
  give _ count := some (int32 (count + 1))

/-- `semaphore_init`, which refuses a negative count. -/
def semaphoreInit (initialCount : Int) : Option (State ι Int) :=
  if initialCount < 0 then none else some (State.initial initialCount)

/-! ## Mutexes -/

/-- The fields of `mutex_t` besides its queue; a null owner is `none`. -/
structure Mutex (ι : Type u) where
  locked : Bool
  owner : Option ι
  deriving DecidableEq

/-- `mutex_available_condition`. -/
def mutexAvailableCondition (mutex : Mutex ι) : Bool := !mutex.locked

/-- The sections of `mutex_lock`, `mutex_try_lock` and `mutex_unlock` that read or write
the fields. A thread that locks what it holds, or unlocks what is not locked or not its
own, stops the machine. -/
def mutexGate (ι : Type u) [DecidableEq ι] : Gate ι (Mutex ι) where
  refused self mutex := mutex.locked && decide (mutex.owner = some self)
  available := mutexAvailableCondition
  take self _ := ⟨true, some self⟩
  give self mutex :=
    if mutex.locked = false then none
    else if mutex.owner ≠ some self then none
    else some ⟨false, none⟩

/-- `mutex_init`. -/
def mutexInit : State ι (Mutex ι) := State.initial ⟨false, none⟩

/-- `1 - locked`. -/
def Mutex.units (mutex : Mutex ι) : Int := if mutex.locked then 0 else 1

/-! ## Counting -/

/-- The condition on a signal: the count has not reached the largest value of its type. -/
def SignalsBelow (initialCount : Int) (state : State ι Int) : Label ι → Prop
  | .release _ => initialCount + state.given + 1 < 2 ^ 31
  | .acquire _ => True
  | .tryAcquire _ => True
  | .advance _ => True

instance (initialCount : Int) (state : State ι Int) (label : Label ι) :
    Decidable (SignalsBelow initialCount state label) :=
  match label with
  | .release _ => inferInstanceAs (Decidable (_ < _))
  | .acquire _ => isTrue trivial
  | .tryAcquire _ => isTrue trivial
  | .advance _ => isTrue trivial

omit [DecidableEq ι] in
/-- The units of a semaphore are its count, as long as a signal does not overflow it. -/
theorem semaphore_counts {count : Int} {label : Label ι} (nonneg : 0 ≤ count)
    (bounded : count < 2 ^ 31) (below : ∀ thread, label = .release thread → count + 1 < 2 ^ 31) :
    Counts (semaphoreGate ι) id count label := by
  constructor
  · simp [semaphoreGate, semaphoreAvailableCondition]
  · intro thread available
    have positive : 0 < count := by
      simpa [semaphoreGate, semaphoreAvailableCondition] using available
    apply int32_of_range <;> omega
  · intro thread count' signals given
    have small := below thread signals
    obtain rfl : int32 (count + 1) = count' := Option.some.inj given
    apply int32_of_range <;> omega

/-- The unit of a mutex is there when it is not locked. -/
theorem mutex_counts (mutex : Mutex ι) (label : Label ι) :
    Counts (mutexGate ι) Mutex.units mutex label := by
  constructor
  · cases locked : mutex.locked <;> simp [mutexGate, mutexAvailableCondition, Mutex.units, locked]
  · intro thread available
    have free : mutex.locked = false := by
      simpa [mutexGate, mutexAvailableCondition] using available
    simp [mutexGate, Mutex.units, free]
  · intro thread mutex' _ given
    simp only [mutexGate] at given
    split at given
    · simp at given
    · rename_i locked
      split at given
      · simp at given
      · obtain rfl := Option.some.inj given
        simp [Mutex.units, locked]

/-! ## Whole runs -/

variable [Fintype ι]

/-- Every state of a semaphore is balanced, as long as the signals do not overflow it. -/
theorem semaphore_balanced {initialCount : Int} {start state : State ι Int}
    (bounded : initialCount < 2 ^ 31) (started : semaphoreInit initialCount = some start)
    (reached : Reaches (semaphoreGate ι).step (SignalsBelow initialCount) start state) :
    Balanced id initialCount state ∧ initialCount + state.given < 2 ^ 31 := by
  unfold semaphoreInit at started
  split at started
  · simp at started
  · rename_i nonneg
    obtain rfl := Option.some.inj started
    apply reached.invariant fun state =>
      Balanced id initialCount state ∧ initialCount + state.given < 2 ^ 31
    · refine ⟨initial_balanced (by simpa using nonneg), ?_⟩
      simpa [State.initial] using bounded
    · rintro state label next ⟨balanced, small⟩ allowed taken
      have account : state.resource = initialCount + state.given - state.taken := balanced.account
      have below : ∀ thread, label = .release thread → initialCount + state.given + 1 < 2 ^ 31 := by
        rintro thread rfl
        exact allowed
      have moves := step_moves taken
      refine ⟨moves.balanced (semaphore_counts balanced.nonneg ?_ ?_) balanced, ?_⟩
      · omega
      · intro thread signals
        have total := below thread signals
        omega
      · cases moves with
        | @give thread resource called before given =>
          have total := below thread called
          simp only [State.gave]
          push_cast
          omega
        | wake before =>
          unfold Gate.wake
          split <;> exact small
        | _ => exact small

/-- Every state of a mutex is balanced. -/
theorem mutex_balanced {state : State ι (Mutex ι)}
    (reached : Reaches (mutexGate ι).step (fun _ _ => True) mutexInit state) :
    Balanced Mutex.units 1 state := by
  apply reached.invariant (Balanced Mutex.units 1)
  · have one : (0 : Int) ≤ Mutex.units (⟨false, none⟩ : Mutex ι) := by simp [Mutex.units]
    exact initial_balanced one
  · intro state label next balanced _ taken
    exact (step_moves taken).balanced (mutex_counts state.resource label) balanced

/-- The count of a semaphore is its initial value, plus the signals whose increment has
run, less the waits that have taken a unit, and is never negative. While a thread is
in the queue the count is at most the number of wakeups in flight. So the threads
never all rest, outside the operations or in the queue, with a unit to be had and a
thread in the queue. The same holds of a mutex, with `1 - locked` for the count.

Proof: both are gates whose sections take and give one unit; the laws of `Library.Gate`
hold initially and survive every step. -/
theorem no_wakeup_lost :
    (∀ (initialCount : Int) (start state : State ι Int), initialCount < 2 ^ 31 →
      semaphoreInit initialCount = some start →
      Reaches (semaphoreGate ι).step (SignalsBelow initialCount) start state →
        state.resource = initialCount + state.given - state.taken ∧ 0 ≤ state.resource ∧
          (state.queue ≠ [] → state.resource ≤ wakeups state) ∧
          ¬ (Settled state ∧ 0 < state.resource ∧ state.queue ≠ [])) ∧
      ∀ state : State ι (Mutex ι), Reaches (mutexGate ι).step (fun _ _ => True) mutexInit state →
        state.resource.units = 1 + state.given - state.taken ∧ 0 ≤ state.resource.units ∧
          (state.queue ≠ [] → state.resource.units ≤ wakeups state) ∧
          ¬ (Settled state ∧ 0 < state.resource.units ∧ state.queue ≠ []) := by
  constructor
  · intro initialCount start state bounded started reached
    obtain ⟨balanced, -⟩ := semaphore_balanced bounded started reached
    exact ⟨balanced.account, balanced.nonneg, balanced.covered, balanced.not_stuck⟩
  · intro state reached
    have balanced := mutex_balanced reached
    exact ⟨balanced.account, balanced.nonneg, balanced.covered, balanced.not_stuck⟩

/-- A thread waits on a semaphore and on a mutex; in both cases another thread has
given the unit back and has not yet looked at the queue. -/
theorem wakeup_in_flight :
    (∃ state : State (Fin 2) Int, state.queue = [0] ∧ state.resource = 1 ∧
      state.resource ≤ wakeups state) ∧
    ∃ state : State (Fin 2) (Mutex (Fin 2)), state.queue = [0] ∧ state.resource.units = 1 ∧
      state.resource.units ≤ wakeups state := by
  constructor
  · have completed : ((runAll (semaphoreGate (Fin 2)).step (SignalsBelow 0)
        [.acquire 0, .advance 0, .release 1] (State.initial 0)).map fun state =>
          (state.queue, state.resource)) = some ([0], 1) := by decide
    obtain ⟨state, reached, shape⟩ := Reaches.of_facts completed
    obtain ⟨queue, count⟩ := Prod.mk.inj shape
    have laws := no_wakeup_lost.1 0 (State.initial 0) state (by decide) rfl reached
    exact ⟨state, queue, count, laws.2.2.1 (by simp [queue])⟩
  · have completed : ((runAll (mutexGate (Fin 2)).step (fun _ _ => True)
        [.acquire 1, .acquire 0, .advance 0, .release 1] mutexInit).map fun state =>
          (state.queue, state.resource.units)) = some ([0], 1) := by decide
    obtain ⟨state, reached, shape⟩ := Reaches.of_facts completed
    obtain ⟨queue, unit⟩ := Prod.mk.inj shape
    have laws := no_wakeup_lost.2 state reached
    exact ⟨state, queue, unit, laws.2.2.1 (by simp [queue])⟩

end Toyix.Sync
