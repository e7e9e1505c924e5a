import Toyix.Sync.Waiting

/-!
# Mutual exclusion

Threads lock, try to lock and unlock one mutex. What a thread does between its lock
and its unlock is that of `sync_mutex_worker`: it reads the shared counter, may sleep
or be preempted for as long as it likes, writes back the value it read plus one, and
unlocks. A thread may also unlock without having written.
-/

namespace Toyix.Sync

open Library Library.Gate Function

universe u

variable {ι : Type u} [DecidableEq ι] {thread : ι}

/-- How far a thread is with its section: without the mutex, or holding it and before
the read, between the read and the write, or after the write. -/
inductive Place where
  | without
  | holding
  | loaded (oldValue : UInt32)
  | stored
  deriving DecidableEq

/-- The mutex, the sections of the threads, the shared counter and the number of
completed sections. -/
structure Workers (ι : Type u) where
  mutex : State ι (Mutex ι)
  place : ι → Place
  sharedCounter : UInt32
  sections : Nat

/-- A call of the mutex or a step of one, or an access to the shared counter. -/
inductive Work (ι : Type u) where
  | call (label : Label ι)
  | load (thread : ι)
  | store (thread : ι)

/-- `mutex_init`, with some value in the counter. -/
def Workers.initial (start : UInt32) : Workers ι := ⟨mutexInit, fun _ => .without, start, 0⟩

/-- What a step of the mutex does to the sections: a lock that succeeds begins one, and
an unlock ends it. -/
def Workers.followed (workers : Workers ι) (label : Label ι) (mutex : State ι (Mutex ι)) : Workers ι :=
  match label with
  | .release thread =>
    { workers with
      mutex := mutex
      place := update workers.place thread .without
      sections := workers.sections + if workers.place thread = .stored then 1 else 0 }
  | _ =>
    if mutex.taken = workers.mutex.taken then { workers with mutex := mutex }
    else { workers with
      mutex := mutex
      place := update workers.place label.thread .holding }

/-- One step of one thread. -/
def Workers.step : Work ι → Workers ι → Option (Workers ι)
  | .call label, workers => ((mutexGate ι).step label workers.mutex).map (workers.followed label)
  | .load thread, workers =>
    match workers.place thread with
    | .holding => some { workers with
        place := update workers.place thread (.loaded workers.sharedCounter) }
    | _ => none
  | .store thread, workers =>
    match workers.place thread with
    | .loaded oldValue => some { workers with
        place := update workers.place thread .stored
        sharedCounter := oldValue + 1 }
    | _ => none

/-- The thread is between a successful lock and its unlock. -/
def Workers.Inside (workers : Workers ι) (thread : ι) : Prop := workers.place thread ≠ .without

/-- Threads unlock only what they locked. -/
def UnlocksOwn (workers : Workers ι) : Work ι → Prop
  | .call (.release thread) => workers.Inside thread
  | _ => True

instance (workers : Workers ι) (work : Work ι) : Decidable (UnlocksOwn workers work) :=
  match work with
  | .call (.release thread) => inferInstanceAs (Decidable (workers.place thread ≠ .without))
  | .call (.acquire _) | .call (.tryAcquire _) | .call (.advance _) | .load _ | .store _ =>
    isTrue trivial

/-! ## The step of a mutex -/

/-- Unlocking succeeds for the owner only, and leaves the mutex free. -/
theorem mutex_give_some {mutex mutex' : Mutex ι} :
    (mutexGate ι).give thread mutex = some mutex' ↔
      mutex.locked = true ∧ mutex.owner = some thread ∧ mutex' = ⟨false, none⟩ := by
  cases locked : mutex.locked with
  | false => simp [mutexGate, locked]
  | true =>
    by_cases isOwner : mutex.owner = some thread
    · simp only [mutexGate, locked, isOwner, Bool.true_eq_false, ↓reduceIte, ne_eq, not_true_eq_false,
        Option.some.injEq, true_and]
      exact eq_comm
    · simp [mutexGate, locked, isOwner]

/-- A step other than an unlock takes a free mutex for the thread that runs, or leaves
the mutex as it is. -/
theorem mutex_step_cases {label : Label ι} {mutex next : State ι (Mutex ι)}
    (other : ∀ thread, label ≠ .release thread)
    (taken : (mutexGate ι).step label mutex = some next) :
    (next.taken = mutex.taken ∧ next.resource = mutex.resource) ∨
      (next.taken = mutex.taken + 1 ∧ mutex.resource.locked = false ∧
        next.resource = ⟨true, some label.thread⟩) := by
  cases step_moves taken with
  | take called before available =>
    subst called
    refine Or.inr ⟨rfl, ?_, rfl⟩
    simpa [mutexGate, mutexAvailableCondition] using available
  | give called before given => exact absurd called (other _)
  | wake before =>
    unfold Gate.wake
    split <;> exact Or.inl ⟨rfl, rfl⟩
  | _ => exact Or.inl ⟨rfl, rfl⟩

/-! ## The invariant -/

/-- The owner is the thread inside, a value read inside is still the counter's, and the
counter has counted the completed sections and the one that has written. -/
structure Exclusive (start : UInt32) (workers : Workers ι) : Prop where
  owner : ∀ thread, workers.Inside thread ↔ workers.mutex.resource.owner = some thread
  locked : workers.mutex.resource.locked = workers.mutex.resource.owner.isSome
  loaded : ∀ thread oldValue, workers.place thread = .loaded oldValue →
    oldValue = workers.sharedCounter
  written : ∀ thread, workers.place thread = .stored →
    workers.sharedCounter = start + UInt32.ofNat workers.sections + 1
  counted : (∀ thread, workers.place thread ≠ .stored) →
    workers.sharedCounter = start + UInt32.ofNat workers.sections

variable {start : UInt32} {workers next : Workers ι}

omit [DecidableEq ι] in
/-- At most one thread is inside. -/
theorem Exclusive.single (exclusive : Exclusive start workers) {thread' : ι}
    (inside : workers.Inside thread) (inside' : workers.Inside thread') : thread = thread' := by
  have owned := (exclusive.owner thread).mp inside
  have owned' := (exclusive.owner thread').mp inside'
  exact Option.some.inj (owned.symm.trans owned')

omit [DecidableEq ι] in
/-- When one thread is inside, no other one is. -/
theorem Exclusive.others (exclusive : Exclusive start workers) {other : ι}
    (inside : workers.Inside thread) (different : other ≠ thread) :
    workers.place other = .without := by
  by_contra isInside
  exact different (exclusive.single isInside inside)

omit [DecidableEq ι] in
theorem initial_exclusive : Exclusive start (Workers.initial start : Workers ι) := by
  constructor <;> simp [Workers.initial, Workers.Inside, mutexInit, State.initial]

section Exclusive

variable (exclusive : Exclusive start workers)

include exclusive

/-- A lock that succeeds begins a section; nobody else is inside. -/
theorem Exclusive.lock {mutex : State ι (Mutex ι)} (free : workers.mutex.resource.locked = false)
    (owned : mutex.resource = ⟨true, some thread⟩) :
    Exclusive start { workers with
      mutex := mutex
      place := update workers.place thread .holding } := by
  have nobody : ∀ other, workers.place other = .without := by
    intro other
    by_contra inside
    have isOwner := (exclusive.owner other).mp inside
    have isLocked := exclusive.locked
    rw [isOwner, free] at isLocked
    simp at isLocked
  have counted : workers.sharedCounter = start + UInt32.ofNat workers.sections := by
    apply exclusive.counted
    intro other
    rw [nobody other]
    simp
  constructor
  · intro other
    simp only [Workers.Inside, owned, update_apply]
    split
    · rename_i same
      simp [same]
    · rename_i different
      simp [nobody other, Ne.symm different]
  · simp [owned]
  · intro other oldValue
    simp only [update_apply]
    split
    · simp
    · simp [nobody other]
  · intro other
    simp only [update_apply]
    split
    · simp
    · simp [nobody other]
  · intro _
    exact counted

/-- An unlock ends the section of the owner; nobody is inside afterwards. -/
theorem Exclusive.unlock {mutex : State ι (Mutex ι)} (inside : workers.Inside thread)
    (free : mutex.resource = ⟨false, none⟩) :
    Exclusive start { workers with
      mutex := mutex
      place := update workers.place thread .without
      sections := workers.sections + if workers.place thread = .stored then 1 else 0 } := by
  have nobody : ∀ other, update workers.place thread .without other = .without := by
    intro other
    simp only [update_apply]
    split
    · rfl
    · rename_i different
      exact exclusive.others inside different
  constructor
  · intro other
    simp [Workers.Inside, nobody other, free]
  · simp [free]
  · intro other oldValue isLoaded
    simp [nobody other] at isLoaded
  · intro other isStored
    simp [nobody other] at isStored
  · intro _
    by_cases stored : workers.place thread = .stored
    · have written := exclusive.written thread stored
      simp only [stored, ↓reduceIte]
      rw [written, UInt32.ofNat_add, ← UInt32.add_assoc]
      rfl
    · simp only [stored, ↓reduceIte, Nat.add_zero]
      apply exclusive.counted
      intro other isStored
      by_cases same : other = thread
      · rw [same] at isStored
        exact stored isStored
      · rw [exclusive.others inside same] at isStored
        simp at isStored

/-- A change of place inside the section keeps the owner. -/
theorem Exclusive.inside_update {place : Place} (inside : workers.Inside thread)
    (still : place ≠ .without) (other : ι) :
    update workers.place thread place other ≠ .without ↔
      workers.mutex.resource.owner = some other := by
  rw [← exclusive.owner other]
  simp only [update_apply]
  split
  · rename_i same
    subst same
    simp [still, inside]
  · rfl

/-- The read of a thread inside. -/
theorem Exclusive.load (holding : workers.place thread = .holding) :
    Exclusive start { workers with
      place := update workers.place thread (.loaded workers.sharedCounter) } := by
  have inside : workers.Inside thread := by simp [Workers.Inside, holding]
  constructor
  · exact exclusive.inside_update inside (by simp)
  · exact exclusive.locked
  · intro other oldValue
    simp only [update_apply]
    split
    · intro same
      exact (Place.loaded.inj same).symm
    · exact exclusive.loaded other oldValue
  · intro other
    simp only [update_apply]
    split
    · simp
    · exact exclusive.written other
  · intro none
    apply exclusive.counted
    intro other isStored
    apply none other
    simp only [update_apply]
    split
    · rename_i same
      rw [same, holding] at isStored
      simp at isStored
    · exact isStored

/-- The write of a thread inside.

Proof: nobody else is inside, so nobody has written since the value was read. -/
theorem Exclusive.store {oldValue : UInt32} (loaded : workers.place thread = .loaded oldValue) :
    Exclusive start { workers with
      place := update workers.place thread .stored
      sharedCounter := oldValue + 1 } := by
  have inside : workers.Inside thread := by simp [Workers.Inside, loaded]
  have alone : ∀ other, other ≠ thread → workers.place other = .without :=
    fun other different => exclusive.others inside different
  have counted : workers.sharedCounter = start + UInt32.ofNat workers.sections := by
    apply exclusive.counted
    intro other isStored
    by_cases same : other = thread
    · rw [same, loaded] at isStored
      simp at isStored
    · rw [alone other same] at isStored
      simp at isStored
  constructor
  · exact exclusive.inside_update inside (by simp)
  · exact exclusive.locked
  · intro other value
    simp only [update_apply]
    split
    · simp
    · rename_i different
      simp [alone other different]
  · intro other _
    simp only [exclusive.loaded thread oldValue loaded, counted]
  · intro none
    exact absurd (by simp) (none thread)

/-- Every step of threads that unlock their own mutex keeps the invariant. -/
theorem workers_step {work : Work ι} (own : UnlocksOwn workers work)
    (taken : Workers.step work workers = some next) : Exclusive start next := by
  cases work with
  | call label =>
    obtain ⟨mutex, stepped, rfl⟩ := Option.map_eq_some_iff.mp taken
    by_cases isRelease : ∃ thread, label = .release thread
    · obtain ⟨thread, rfl⟩ := isRelease
      simp only [Gate.step] at stepped
      split at stepped
      · obtain ⟨mutex', given, rfl⟩ := Option.map_eq_some_iff.mp stepped
        exact exclusive.unlock own (mutex_give_some.mp given).2.2
      · simp at stepped
    · have other : ∀ thread, label ≠ .release thread := fun thread same => isRelease ⟨thread, same⟩
      have followed : workers.followed label mutex =
          if mutex.taken = workers.mutex.taken then { workers with mutex := mutex }
          else { workers with
            mutex := mutex
            place := update workers.place label.thread .holding } := by
        cases label with
        | release thread => exact absurd rfl (other thread)
        | _ => rfl
      rw [followed]
      rcases mutex_step_cases other stepped with ⟨same, resource⟩ | ⟨more, free, owned⟩
      · rw [if_pos same]
        obtain ⟨owner, locked, loaded, written, counted⟩ := exclusive
        refine ⟨?_, ?_, loaded, written, counted⟩
        · intro thread
          rw [resource]
          exact owner thread
        · rw [resource]
          exact locked
      · rw [if_neg (by omega)]
        exact exclusive.lock free owned
  | load thread =>
    simp only [Workers.step] at taken
    split at taken
    · rename_i holding
      obtain rfl := Option.some.inj taken
      exact exclusive.load holding
    · simp at taken
  | store thread =>
    simp only [Workers.step] at taken
    split at taken
    · rename_i oldValue loaded
      obtain rfl := Option.some.inj taken
      exact exclusive.store loaded
    · simp at taken

end Exclusive

/-! ## Whole runs -/

/-- At most one thread is between a successful lock and its unlock; the mutex is locked
exactly when it has an owner, and has an owner exactly when a thread is inside, which
is the owner. An unlock by that thread is not refused. After `sections` completed
sections the counter has grown by that number, and by one more when the thread inside
has already written. -/
theorem mutual_exclusion (reached : Reaches Workers.step UnlocksOwn (Workers.initial start) workers) :
    (∀ thread thread', workers.Inside thread → workers.Inside thread' → thread = thread') ∧
    (workers.mutex.resource.locked = true ↔ workers.mutex.resource.owner ≠ none) ∧
    (workers.mutex.resource.owner ≠ none ↔ ∃ thread, workers.Inside thread) ∧
    (∀ thread, workers.Inside thread → workers.mutex.resource.owner = some thread ∧
      (mutexGate ι).give thread workers.mutex.resource ≠ none) ∧
    ((∀ thread, workers.place thread ≠ .stored) →
      workers.sharedCounter = start + UInt32.ofNat workers.sections) ∧
    ∀ thread, workers.place thread = .stored →
      workers.sharedCounter = start + UInt32.ofNat workers.sections + 1 := by
  have exclusive : Exclusive start workers := by
    apply reached.invariant (Exclusive start)
    · exact initial_exclusive
    · intro workers work next exclusive own taken
      exact workers_step exclusive own taken
  have owned : ∀ thread, workers.Inside thread → workers.mutex.resource.owner = some thread :=
    fun thread => (exclusive.owner thread).mp
  refine ⟨?_, ?_, ?_, ?_, exclusive.counted, exclusive.written⟩
  · intro thread thread' inside inside'
    exact exclusive.single inside inside'
  · rw [exclusive.locked, Option.isSome_iff_ne_none]
  · rw [Option.ne_none_iff_exists']
    exact exists_congr fun thread => (exclusive.owner thread).symm
  · intro thread inside
    have isOwner := owned thread inside
    refine ⟨isOwner, ?_⟩
    have isLocked : workers.mutex.resource.locked = true := by
      rw [exclusive.locked, isOwner]
      rfl
    rw [mutex_give_some.mpr ⟨isLocked, isOwner, rfl⟩]
    simp

/-- Two workers run a section each; the second one has to wait while the first one is
between its read and its write. -/
theorem two_sections_counted : ∃ workers : Workers (Fin 2),
    workers.sections = 2 ∧ workers.sharedCounter = 7 + UInt32.ofNat workers.sections := by
  have completed : ((runAll Workers.step UnlocksOwn
      [.call (.acquire 0), .load 0, .call (.acquire 1), .call (.advance 1), .store 0,
        .call (.release 0), .call (.advance 0), .call (.advance 0), .call (.advance 1),
        .call (.advance 1), .load 1, .store 1, .call (.release 1)]
      (Workers.initial 7)).map fun workers : Workers (Fin 2) => (workers.sections, workers.place 0, workers.place 1)) =
        some (2, .without, .without) := by decide
  obtain ⟨workers, reached, shape⟩ := Reaches.of_facts completed
  simp only [Prod.mk.injEq] at shape
  have laws := mutual_exclusion reached
  refine ⟨workers, shape.1, laws.2.2.2.2.1 ?_⟩
  rw [Fin.forall_fin_two]
  constructor
  · simp [shape.2.1]
  · simp [shape.2.2]

end Toyix.Sync
