import Toyix.Heap.Clients

/-!
# Threads that allocate at the same time

Nothing in `kernel/heap.c` disables interrupts, so the timer can switch threads
inside `kmalloc`. Here a call is two steps: it finds a block, growing the heap if
it must, and later splits the block and marks it used. Between the two any other
thread may take its own steps. `kfree` and a client's writes are single steps.

The second step does not look again whether the block is free. Two threads that
find the same block are given the same pointer. When every second step meets a
block that is still listed, free and large enough, the runs give what the
sequential allocator gives.
-/

namespace Toyix.Heap

open Library Library.Links Function

variable {σ : Type} {layer : PageLayer σ}

/-- A thread between the two steps of `kmalloc`. -/
structure Pending where
  block : Nat
  wanted : Nat
  size : Nat

/-- The heap, what is live in it, and the threads that have found a block. -/
structure HeapThreads (σ : Type) where
  client : Client σ
  pending : Nat → Option Pending

/-- A step of one of the threads. -/
inductive ThreadCall where
  | find (thread : Nat) (size : UInt32)
  | commit (thread : Nat)
  | kfree (thread : Nat) (ptr : Nat)
  | write (thread : Nat) (address : Nat) (byte : UInt8)

/-- One step. A thread inside `kmalloc` can only finish it. -/
def HeapThreads.step (layer : PageLayer σ) : ThreadCall → HeapThreads σ → Option (HeapThreads σ)
  | .find thread size, threads =>
    if (threads.pending thread).isSome then none
    else (kmallocStart layer size.toNat threads.client.system).result.map fun (found, system) =>
      { client := { threads.client with system := system }
        pending := update threads.pending thread
          (found.map fun (block, wanted) => ⟨block, wanted, size.toNat⟩) }
  | .commit thread, threads =>
    (threads.pending thread).bind fun pending =>
      (kmallocTake pending.block pending.wanted threads.client.system).result.map fun (ptr, system) =>
        { client := ⟨system, recordLive ptr pending.size threads.client.live⟩
          pending := update threads.pending thread none }
  | .kfree thread ptr, threads =>
    if (threads.pending thread).isSome then none
    else (threads.client.perform layer (.kfree ptr)).map fun client =>
      { threads with client := client }
  | .write thread address byte, threads =>
    if (threads.pending thread).isSome then none
    else (threads.client.perform layer (.write address byte)).map fun client =>
      { threads with client := client }

/-- Whether a walk of the list meets `block`, free and at least `wanted` large. -/
def stillFreeFrom (memory : Memory) (block wanted : Nat) : Nat → Nat → Bool
  | 0, _ => false
  | fuel + 1, node =>
    if node = 0 then false
    else if node = block then
      decide (blockIsFree memory node ≠ 0) && decide (wanted ≤ blockSize memory node)
    else stillFreeFrom memory block wanted fuel (blockNext memory node)

/-- The condition on a second step: the block found is still listed, free and large
enough. Other steps are not restricted. -/
def commitsFreeBlock (threads : HeapThreads σ) : ThreadCall → Bool
  | .commit thread =>
    match threads.pending thread with
    | some pending => stillFreeFrom threads.client.system.heap.memory pending.block pending.wanted
        walkBound threads.client.system.heap.heapHead
    | none => true
  | _ => true

/-- Different live allocations have different pointers and share no byte. -/
def Separate (live : List Allocation) : Prop :=
  live.Pairwise fun left right => left.ptr ≠ right.ptr ∧ ∀ x, ¬ (left.Owns x ∧ right.Owns x)

/-- Runs of any number of threads after `heap_init`. -/
def ThreadsReachable (layer : PageLayer σ) (allowed : HeapThreads σ → ThreadCall → Prop)
    (initialPages : Nat) (memory : Memory) (pages : σ) (threads : HeapThreads σ) : Prop :=
  ∃ system, heapInit layer initialPages ⟨HeapState.boot memory, pages⟩ = .done ⟨⟩ system ∧
    Reaches (HeapThreads.step layer) allowed ⟨⟨system, []⟩, fun _ => none⟩ threads

/-- Execute `heap_init` and a list of steps. -/
def threadsRun (layer : PageLayer σ) (allowed : HeapThreads σ → ThreadCall → Prop)
    [∀ threads call, Decidable (allowed threads call)] (initialPages : Nat) (memory : Memory)
    (pages : σ) (calls : List ThreadCall) : Option (HeapThreads σ) :=
  (heapInit layer initialPages ⟨HeapState.boot memory, pages⟩).result.bind fun (_, system) =>
    runAll (HeapThreads.step layer) allowed calls ⟨⟨system, []⟩, fun _ => none⟩

/-- What is live after an executed run. -/
theorem threads_run_live {allowed : HeapThreads σ → ThreadCall → Prop}
    [∀ threads call, Decidable (allowed threads call)] {initialPages : Nat} {memory : Memory} {pages : σ}
    {calls : List ThreadCall} {live : List Allocation}
    (completed : (threadsRun layer allowed initialPages memory pages calls).map
      (fun threads => threads.client.live) = some live) :
    ∃ threads, ThreadsReachable layer allowed initialPages memory pages threads ∧
      threads.client.live = live := by
  obtain ⟨threads, ran, isLive⟩ := Option.map_eq_some_iff.mp completed
  obtain ⟨⟨value, system⟩, started, ran⟩ := Option.bind_eq_some_iff.mp ran
  exact ⟨threads, ⟨system, result_eq_some.mp started, Reaches.of_run ran⟩, isLive⟩

/-! ## Steps -/

/-- A walk that meets the block has found a listed free block. -/
theorem still_free_from {heap : HeapState} (block wanted fuel : Nat) (left right : List Block)
    (rep : Represents heap (left ++ right))
    (met : stillFreeFrom heap.memory block wanted fuel ((right.map Block.addr).headD 0) = true) :
    ∃ found ∈ right, found.addr = block ∧ found.free = true ∧ wanted ≤ found.size := by
  induction right generalizing left fuel with
  | nil => cases fuel <;> simp [stillFreeFrom] at met
  | cons first rest ih =>
    cases fuel with
    | zero => simp [stillFreeFrom] at met
    | succ fuel =>
      have member : first ∈ left ++ first :: rest := by simp
      have notNull := rep.not_null member
      have header := rep.headers first member
      simp only [List.map_cons, List.headD_cons, stillFreeFrom, notNull, ↓reduceIte, header.isFree,
        header.size, rep.links.2] at met
      split at met
      · rename_i same
        simp only [Bool.and_eq_true, decide_eq_true_eq] at met
        refine ⟨first, by simp, same, ?_, met.2⟩
        cases free : first.free with
        | true => rfl
        | false => simp [free] at met
      · have shifted : Represents heap ((left ++ [first]) ++ rest) := by simpa using rep
        obtain ⟨found, later, facts⟩ := ih fuel (left ++ [first]) shifted met
        exact ⟨found, List.mem_cons_of_mem first later, facts⟩

/-- The invariant of the threads: that of the clients, and every thread inside
`kmalloc` wants a rounded, positive size. -/
structure ThreadsInvariant (threads : HeapThreads σ) : Prop where
  client : ∃ blocks, ClientInvariant threads.client blocks
  pending : ∀ thread pending, threads.pending thread = some pending →
    0 < pending.size ∧ pending.size ≤ pending.wanted ∧ pending.wanted % 8 = 0

/-- Finding a block keeps the live allocations and their blocks. -/
theorem kmalloc_start_client {client : Client σ} {blocks : List Block}
    (inv : ClientInvariant client blocks) (size : Nat) :
    (kmallocStart layer size client.system).Sat fun found system =>
      (∃ blocks', ClientInvariant ⟨system, client.live⟩ blocks') ∧
      ∀ block wanted, found = some (block, wanted) → 0 < size ∧ size ≤ wanted ∧ wanted % 8 = 0 := by
  refine (kmalloc_start_sat (fun count _ => region_gives_true layer _ count) inv.consistent trivial).mono ?_
  rintro (_ | ⟨addr, wanted⟩) system ⟨-, found⟩
  · have same : client.system.heap = system.heap := found.2.symm
    refine ⟨⟨blocks, same ▸ inv.consistent, same ▸ inv.mapped, inv.accounts⟩, ?_⟩
    intro _ _ absurd
    cases absurd
  · obtain ⟨notEmpty, enough, whole, left, block, right, grown, -⟩ := found
    obtain ⟨distinct, backed, claimed⟩ := inv.accounts
    refine ⟨⟨left ++ block :: right, grown.consistent, Nat.lt_of_lt_of_le inv.mapped grown.further, ?_⟩, ?_⟩
    · exact ⟨distinct, grown.sameUsed ▸ backed, grown.sameUsed ▸ claimed⟩
    · intro _ _ same
      cases same
      exact ⟨Nat.pos_of_ne_zero notEmpty, enough, whole⟩

/-- Committing a block that is still free hands it out. -/
theorem commit_step {threads : HeapThreads σ} (inv : ThreadsInvariant threads) {thread : Nat}
    {pending : Pending} (isPending : threads.pending thread = some pending)
    (free : commitsFreeBlock threads (.commit thread) = true) {ptr : Nat} {system : HeapSystem σ}
    (returned : kmallocTake pending.block pending.wanted threads.client.system = .done ptr system) :
    ∃ blocks, ClientInvariant ⟨system, recordLive ptr pending.size threads.client.live⟩ blocks := by
  obtain ⟨blocks, client⟩ := inv.client
  obtain ⟨positive, enough, whole⟩ := inv.pending thread pending isPending
  simp only [commitsFreeBlock, isPending, client.consistent.head] at free
  obtain ⟨block, member, addr, isFree, fits⟩ :=
    still_free_from pending.block pending.wanted walkBound [] blocks client.consistent.toRepresents free
  obtain ⟨left, right, rfl⟩ := List.append_of_mem member
  have nothing := Grown.refused client.consistent threads.client.system.heap.memory fun _ _ => rfl
  obtain ⟨heap', blocks', run, allocated⟩ := nothing.allocate client.consistent.toRepresents
    pending.wanted pending.size threads.client.system.pages isFree fits whole enough
  rw [← addr] at returned
  obtain ⟨rfl, rfl⟩ : block.addr + 24 = ptr ∧ (⟨heap', threads.client.system.pages⟩ : HeapSystem σ) =
      system := by
    have same := run.symm.trans returned
    simpa using same
  exact ⟨blocks', client.allocated positive (by omega) allocated⟩

/-- Every step that commits only free blocks keeps the invariant. -/
theorem threads_step {threads next : HeapThreads σ} {call : ThreadCall}
    (inv : ThreadsInvariant threads) (allowed : commitsFreeBlock threads call = true)
    (taken : threads.step layer call = some next) : ThreadsInvariant next := by
  obtain ⟨blocks, client⟩ := inv.client
  cases call with
  | find thread size =>
    simp only [HeapThreads.step] at taken
    split at taken
    · simp at taken
    · obtain ⟨found, system, returned, rfl⟩ := done_of_map taken
      obtain ⟨client', rounded⟩ := (kmalloc_start_client client size.toNat).of_done returned
      refine ⟨client', ?_⟩
      intro other pending isPending
      simp only [update_apply] at isPending
      split at isPending
      · obtain ⟨⟨block, wanted⟩, isFound, rfl⟩ := Option.map_eq_some_iff.mp isPending
        exact rounded block wanted isFound
      · exact inv.pending other pending isPending
  | commit thread =>
    obtain ⟨pending, isPending, committed⟩ := Option.bind_eq_some_iff.mp taken
    obtain ⟨ptr, system, returned, rfl⟩ := done_of_map committed
    refine ⟨commit_step inv isPending allowed returned, ?_⟩
    intro other found isFound
    simp only [update_apply] at isFound
    split at isFound
    · simp at isFound
    · exact inv.pending other found isFound
  | kfree thread ptr | write thread address byte =>
    simp only [HeapThreads.step] at taken
    split at taken
    · simp at taken
    · obtain ⟨client', performed, rfl⟩ := Option.map_eq_some_iff.mp taken
      obtain ⟨blocks', inv', -⟩ := perform_step client performed
      exact ⟨⟨blocks', inv'⟩, inv.pending⟩

/-- Live allocations of a state that meets the invariant are separate. -/
theorem ClientInvariant.separate {client : Client σ} {blocks : List Block}
    (inv : ClientInvariant client blocks) : Separate client.live := by
  have distinct : client.live.Pairwise fun left right => left.ptr ≠ right.ptr :=
    List.pairwise_map.mp inv.accounts.distinct
  refine distinct.imp_of_mem ?_
  intro left right isLive isLive' different
  refine ⟨different, inv.disjoint isLive isLive' ?_⟩
  rintro rfl
  exact different rfl

/-! ## The race -/

/-- In every run in which each thread finishes `kmalloc` on a block that is still
listed, free and large enough, live allocations have different pointers and
disjoint payloads. -/
theorem threads_separate (layer : PageLayer σ) (initialPages : Nat) (memory : Memory) (pages : σ)
    (threads : HeapThreads σ) (atLeastOne : 1 ≤ initialPages) (bounded : initialPages ≤ 4096)
    (reached : ThreadsReachable layer (fun state call => commitsFreeBlock state call = true)
      initialPages memory pages threads) : Separate threads.client.live := by
  obtain ⟨system, started, run⟩ := reached
  have initially : ThreadsInvariant (⟨⟨system, []⟩, fun _ => none⟩ : HeapThreads σ) := by
    refine ⟨reachable_invariant atLeastOne bounded ⟨system, started, .start⟩, ?_⟩
    intro thread pending isPending
    simp at isPending
  have inv := run.invariant ThreadsInvariant initially
    fun state call next inv allowed taken => threads_step inv allowed taken
  obtain ⟨blocks, client⟩ := inv.client
  exact client.separate

set_option maxRecDepth 100000 in
/-- Two threads inside `kmalloc` at the same time; the second one finds its block
after the first has finished. -/
theorem threads_separate_in_turn : ∃ threads : HeapThreads Unit,
    threads.client.live = [⟨0xD1000098, 50⟩, ⟨0xD1000018, 100⟩] ∧ Separate threads.client.live := by
  have completed : ((threadsRun plentifulLayer (fun state call => commitsFreeBlock state call = true) 4 ⟨fun _ => 0⟩ ()
      [.find 1 100, .commit 1, .find 2 50, .write 1 0xD1000018 9, .commit 2]).map
        fun threads => threads.client.live) = some [⟨0xD1000098, 50⟩, ⟨0xD1000018, 100⟩] := by
    decide +kernel
  obtain ⟨threads, reached, live⟩ := threads_run_live completed
  exact ⟨threads, live, threads_separate plentifulLayer 4 ⟨fun _ => 0⟩ () threads (by decide)
    (by decide) reached⟩

set_option maxRecDepth 100000 in
/-- Two threads find the same block before either marks it used; both are given
the same pointer. -/
theorem threads_share_block : ∃ threads : HeapThreads Unit,
    ThreadsReachable plentifulLayer (fun _ _ => True) 4 ⟨fun _ => 0⟩ () threads ∧
      threads.client.live = [⟨0xD1000018, 100⟩, ⟨0xD1000018, 100⟩] ∧
      ¬ Separate threads.client.live := by
  have completed : ((threadsRun plentifulLayer (fun _ _ => True) 4 ⟨fun _ => 0⟩ ()
      [.find 1 100, .find 2 100, .commit 1, .commit 2]).map fun threads => threads.client.live) =
        some [⟨0xD1000018, 100⟩, ⟨0xD1000018, 100⟩] := by decide +kernel
  obtain ⟨threads, reached, live⟩ := threads_run_live completed
  refine ⟨threads, reached, live, ?_⟩
  rw [live]
  intro separate
  exact (List.pairwise_cons.mp separate).1 _ List.mem_cons_self |>.1 rfl

end Toyix.Heap
