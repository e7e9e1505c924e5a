import Toyix.Heap.Contract
import Toyix.Library.Transition

/-!
# Clients of the heap

A run starts with `heap_init` and then makes any calls of `kmalloc`, `kcalloc` and
`kfree`, the last one on live pointers or null. Between the calls a client writes
bytes of the payloads it was given. The live allocations are recorded next to the
heap; the record is the client's knowledge and is not part of the kernel.

The page layer is arbitrary, so its calls may succeed or fail at any point. The
state after every call that returns is described by `HeapInvariant` and by the
correspondence between live allocations and used blocks.
-/

namespace Toyix.Heap

open Library Library.Links

variable {σ : Type} {layer : PageLayer σ} {blocks : List Block} {block : Block} {size : Nat}
  {system : HeapSystem σ}

/-- A pointer handed out and the size that was asked for. -/
structure Allocation where
  ptr : Nat
  size : Nat
deriving DecidableEq

/-- The bytes of an allocation. -/
def Allocation.Owns (allocation : Allocation) (x : Nat) : Prop :=
  allocation.ptr ≤ x ∧ x < allocation.ptr + allocation.size

instance (allocation : Allocation) (x : Nat) : Decidable (allocation.Owns x) :=
  inferInstanceAs (Decidable (_ ∧ _))

/-- The heap and what is live in it. -/
structure Client (σ : Type) where
  system : HeapSystem σ
  live : List Allocation

variable {allocation : Allocation} {client : Client σ}

/-- What a client can do. Sizes are the 32-bit arguments of the calls. -/
inductive HeapCall where
  | kmalloc (size : UInt32)
  | kcalloc (count size : UInt32)
  | kfree (ptr : Nat)
  | write (address : Nat) (byte : UInt8)

/-- Record a returned pointer; null is not an allocation. -/
def recordLive (ptr size : Nat) (live : List Allocation) : List Allocation :=
  if ptr = 0 then live else ⟨ptr, size⟩ :: live

/-- One call. A call that is not permitted, or that stops the machine, has no
successor. -/
def Client.perform (layer : PageLayer σ) : HeapCall → Client σ → Option (Client σ)
  | .kmalloc size, client =>
    (Heap.kmalloc layer size.toNat client.system).result.map fun (ptr, system) =>
      ⟨system, recordLive ptr size.toNat client.live⟩
  | .kcalloc count size, client =>
    (Heap.kcalloc layer count.toNat size.toNat client.system).result.map fun (ptr, system) =>
      ⟨system, recordLive ptr (count.toNat * size.toNat) client.live⟩
  | .kfree ptr, client =>
    if ptr = 0 ∨ ∃ allocation ∈ client.live, allocation.ptr = ptr then
      (Heap.kfree ptr client.system).result.map fun (_, system) =>
        ⟨system, client.live.filter fun allocation => decide (allocation.ptr ≠ ptr)⟩
    else none
  | .write address byte, client =>
    if ∃ allocation ∈ client.live, allocation.Owns address then
      some { client with system := { client.system with heap :=
        { client.system.heap with memory := client.system.heap.memory.write8 address byte } } }
    else none

/-- The states between calls, in every run that starts with `heap_init`. -/
def HeapReachable (layer : PageLayer σ) (initialPages : Nat) (memory : Memory) (pages : σ)
    (client : Client σ) : Prop :=
  ∃ system, heapInit layer initialPages ⟨HeapState.boot memory, pages⟩ = .done ⟨⟩ system ∧
    Reaches (Client.perform layer) (fun _ _ => True) ⟨system, []⟩ client

/-- Execute `heap_init` and a list of calls. -/
def heapRun (layer : PageLayer σ) (initialPages : Nat) (memory : Memory) (pages : σ)
    (calls : List HeapCall) : Option (Client σ) :=
  (heapInit layer initialPages ⟨HeapState.boot memory, pages⟩).result.bind fun (_, system) =>
    runAll (Client.perform layer) (fun _ _ => True) calls ⟨system, []⟩

/-- An executed run is a run. -/
theorem heap_run_reachable {initialPages : Nat} {memory : Memory} {pages : σ}
    {calls : List HeapCall}
    (completed : heapRun layer initialPages memory pages calls = some client) :
    HeapReachable layer initialPages memory pages client := by
  obtain ⟨⟨value, system⟩, started, ran⟩ := Option.bind_eq_some_iff.mp completed
  exact ⟨system, result_eq_some.mp started, Reaches.of_run ran⟩

/-! ## The correspondence between live allocations and used blocks -/

/-- Every live allocation is the front of a used payload, and every used block is
live. -/
structure Accounts (blocks : List Block) (live : List Allocation) : Prop where
  distinct : (live.map Allocation.ptr).Nodup
  backed : ∀ allocation ∈ live, ∃ block ∈ used blocks, allocation.ptr = block.addr + 24 ∧
    0 < allocation.size ∧ allocation.size ≤ block.size
  claimed : ∀ block ∈ used blocks, ∃ allocation ∈ live, allocation.ptr = block.addr + 24

/-- What holds between the calls of every run. -/
structure ClientInvariant (client : Client σ) (blocks : List Block) : Prop where
  consistent : Consistent client.system.heap blocks
  mapped : heapVirtualBaseAddress < client.system.heap.heapVirtualNext
  accounts : Accounts blocks client.live

/-- A new used block with its allocation. -/
theorem Accounts.allocate {heap : HeapState} {left right : List Block} {live : List Allocation}
    (accounts : Accounts blocks live) (rep : Represents heap (left ++ block :: right))
    (taken : block.free = false) (same : used blocks = used left ++ used right)
    (positive : 0 < size) (enough : size ≤ block.size) :
    Accounts (left ++ block :: right) (⟨block.addr + 24, size⟩ :: live) := by
  have usedEq : ∀ other, other ∈ used (left ++ block :: right) ↔ other = block ∨ other ∈ used blocks := by
    intro other
    rw [same, used_append, used_cons_taken taken]
    simp only [List.mem_append, List.mem_cons]
    tauto
  have separate : ∀ other ∈ used blocks, other.addr ≠ block.addr := by
    intro other isUsed equal
    obtain ⟨before, after⟩ := rep.before_cut
    rw [same] at isUsed
    rcases List.mem_append.mp isUsed with front | behind
    · have apart := before other (mem_of_used front).1
      simp only [Block.stop] at apart
      omega
    · have apart := after other (mem_of_used behind).1
      simp only [Block.stop] at apart
      omega
  refine ⟨?_, ?_, ?_⟩
  · refine List.nodup_cons.mpr ⟨?_, accounts.distinct⟩
    intro member
    obtain ⟨allocation, isLive, equal⟩ := List.mem_map.mp member
    obtain ⟨other, isUsed, ptr, -⟩ := accounts.backed allocation isLive
    have reused : allocation.ptr = block.addr + 24 := equal
    exact separate other isUsed (by omega)
  · intro allocation member
    rcases List.mem_cons.mp member with rfl | isLive
    · exact ⟨block, (usedEq block).mpr (Or.inl rfl), rfl, positive, enough⟩
    · obtain ⟨other, isUsed, facts⟩ := accounts.backed allocation isLive
      exact ⟨other, (usedEq other).mpr (Or.inr isUsed), facts⟩
  · intro other member
    rcases (usedEq other).mp member with rfl | isUsed
    · exact ⟨_, List.mem_cons_self, rfl⟩
    · obtain ⟨allocation, isLive, ptr⟩ := accounts.claimed other isUsed
      exact ⟨allocation, List.mem_cons_of_mem _ isLive, ptr⟩

/-- Giving one used block back with its allocation. -/
theorem Accounts.release {heap : HeapState} {blocks' left right : List Block}
    {live : List Allocation} (accounts : Accounts (left ++ block :: right) live)
    (rep : Represents heap (left ++ block :: right)) (taken : block.free = false)
    (same : used blocks' = used left ++ used right) :
    Accounts blocks' (live.filter fun allocation => decide (allocation.ptr ≠ block.addr + 24)) := by
  have member : block ∈ left ++ block :: right := by simp
  have usedEq : ∀ other, other ∈ used blocks' ↔
      other ∈ used (left ++ block :: right) ∧ other.addr ≠ block.addr := by
    intro other
    obtain ⟨before, after⟩ := rep.before_cut
    rw [same, used_append, used_cons_taken taken]
    simp only [List.mem_append, List.mem_cons]
    constructor
    · rintro (front | behind)
      · have apart := before other (mem_of_used front).1
        simp only [Block.stop] at apart
        exact ⟨Or.inl front, by omega⟩
      · have apart := after other (mem_of_used behind).1
        simp only [Block.stop] at apart
        exact ⟨Or.inr (Or.inr behind), by omega⟩
    · rintro ⟨front | rfl | behind, apart⟩
      · exact Or.inl front
      · exact absurd rfl apart
      · exact Or.inr behind
  refine ⟨?_, ?_, ?_⟩
  · exact (List.filter_sublist.map _).nodup accounts.distinct
  · intro allocation kept
    obtain ⟨isLive, other⟩ := List.mem_filter.mp kept
    obtain ⟨found, isUsed, ptr, facts⟩ := accounts.backed allocation isLive
    simp only [ne_eq, decide_not, Bool.not_eq_eq_eq_not, Bool.not_true, decide_eq_false_iff_not] at other
    exact ⟨found, (usedEq found).mpr ⟨isUsed, by omega⟩, ptr, facts⟩
  · intro found isUsed
    obtain ⟨before, apart⟩ := (usedEq found).mp isUsed
    obtain ⟨allocation, isLive, ptr⟩ := accounts.claimed found before
    refine ⟨allocation, List.mem_filter.mpr ⟨isLive, ?_⟩, ptr⟩
    simp only [ne_eq, decide_not, Bool.not_eq_eq_eq_not, Bool.not_true, decide_eq_false_iff_not]
    omega

/-! ## One call -/

/-- A layer about which nothing is known. -/
theorem region_gives_true (layer : PageLayer σ) (pages : σ) (count : Nat) :
    RegionGives layer pages count fun _ => True := by
  intro start heap _ _ high
  have mapped := map_region_from_heap layer start count 0 heap pages
  rw [Nat.zero_add] at mapped
  simp only [heapVirtualLimitAddress] at high
  exact (mapped (by omega)).mono fun _ _ _ _ => trivial

section ClientInvariant

variable (inv : ClientInvariant client blocks)

include inv

/-- An allocation reported by the heap extends the record. -/
theorem ClientInvariant.allocated {blocks' : List Block} {ptr : Nat} (positive : 0 < size)
    (notNull : ptr ≠ 0)
    (allocated : Allocated client.system.heap system.heap blocks blocks' ptr size) :
    ClientInvariant ⟨system, recordLive ptr size client.live⟩ blocks' := by
  obtain ⟨left, block, right, rfl, taken, rfl, enough, same⟩ := allocated.taken
  refine ⟨allocated.consistent, Nat.lt_of_lt_of_le inv.mapped allocated.further, ?_⟩
  simp only [recordLive, notNull, ↓reduceIte]
  exact inv.accounts.allocate allocated.consistent.toRepresents taken same positive enough

/-- A call that returned null and changed no variable of the heap. -/
theorem ClientInvariant.unchanged (size : Nat) (same : system.heap = client.system.heap) :
    ClientInvariant ⟨system, recordLive 0 size client.live⟩ blocks := by
  refine ⟨?_, ?_, inv.accounts⟩
  · exact same ▸ inv.consistent
  · exact same ▸ inv.mapped

/-- The block of a live allocation, with the list cut around it. -/
theorem ClientInvariant.cut (isLive : allocation ∈ client.live) :
    ∃ left block right, blocks = left ++ block :: right ∧ block.free = false ∧
      allocation.ptr = block.addr + 24 ∧ 0 < allocation.size ∧ allocation.size ≤ block.size := by
  obtain ⟨block, isUsed, ptr, positive, enough⟩ := inv.accounts.backed allocation isLive
  obtain ⟨member, taken⟩ := mem_of_used isUsed
  obtain ⟨left, right, rfl⟩ := List.append_of_mem member
  exact ⟨left, block, right, rfl, taken, ptr, positive, enough⟩

/-- What a `kmalloc` that returned did. -/
theorem kmalloc_step {ptr : Nat} (returned : kmalloc layer size client.system = .done ptr system) :
    (size = 0 ↔ ptr = 0) ∧ ∃ blocks',
      ClientInvariant ⟨system, recordLive ptr size client.live⟩ blocks' ∧
      PayloadsKept blocks client.system.heap.memory system.heap.memory := by
  have law := (kmalloc_sat (fun count _ => region_gives_true layer _ count) inv.consistent
    trivial).of_done returned
  by_cases empty : size = 0
  · simp only [empty, ↓reduceIte, true_and] at law
    obtain ⟨rfl, same⟩ := law
    exact ⟨by simp [empty], blocks, inv.unchanged size same, fun _ _ _ _ => by rw [same]⟩
  · simp only [empty, ↓reduceIte, true_and] at law
    obtain ⟨notNull, blocks', allocated⟩ := law
    exact ⟨by simp [empty, notNull], blocks', inv.allocated (by omega) notNull allocated,
      allocated.payloads⟩

/-- What a `kcalloc` that returned did. -/
theorem kcalloc_step {count ptr : Nat}
    (returned : kcalloc layer count size client.system = .done ptr system) :
    (count * size = 0 ↔ ptr = 0) ∧
      (∀ x, ptr ≤ x → x < ptr + count * size → system.heap.memory.byte x = 0) ∧ ∃ blocks',
      ClientInvariant ⟨system, recordLive ptr (count * size) client.live⟩ blocks' ∧
      PayloadsKept blocks client.system.heap.memory system.heap.memory := by
  have law := (kcalloc_sat (region_gives_true layer _) inv.consistent trivial count size).of_done returned
  by_cases empty : count * size = 0
  · simp only [empty, ↓reduceIte, true_and] at law
    obtain ⟨rfl, same⟩ := law
    exact ⟨by simp [empty], fun x low high => by omega, blocks, inv.unchanged _ same,
      fun _ _ _ _ => by rw [same]⟩
  · simp only [empty, ↓reduceIte, true_and] at law
    obtain ⟨notNull, blocks', allocated, zeroed⟩ := law
    exact ⟨by simp [empty, notNull], zeroed, blocks', inv.allocated (by omega) notNull allocated,
      allocated.payloads⟩

end ClientInvariant

/-- A block that was taken back leaves the record. -/
theorem ClientInvariant.freed {left right blocks' : List Block}
    (inv : ClientInvariant client (left ++ block :: right)) (taken : block.free = false)
    (con : Consistent system.heap blocks') (same : used blocks' = used left ++ used right)
    (next : system.heap.heapVirtualNext = client.system.heap.heapVirtualNext) :
    ClientInvariant ⟨system, client.live.filter fun other =>
      decide (other.ptr ≠ block.addr + 24)⟩ blocks' :=
  ⟨con, next ▸ inv.mapped, inv.accounts.release inv.consistent.toRepresents taken same⟩

/-- What a `kfree` of a live pointer did; it always returns. -/
theorem kfree_step (inv : ClientInvariant client blocks) (isLive : allocation ∈ client.live) :
    ∃ system blocks', kfree allocation.ptr client.system = .done ⟨⟩ system ∧
      system.pages = client.system.pages ∧ ClientInvariant ⟨system, client.live.filter fun other =>
        decide (other.ptr ≠ allocation.ptr)⟩ blocks' ∧
      PayloadsKept blocks client.system.heap.memory system.heap.memory := by
  obtain ⟨left, block, right, rfl, taken, ptr, positive, enough⟩ := inv.cut isLive
  obtain ⟨heap', blocks', run, con, same, next, -, -, kept⟩ :=
    kfree_exact client.system.pages inv.consistent taken (by omega)
  rw [ptr]
  refine ⟨_, blocks', run, rfl, inv.freed taken con same next, ?_⟩
  intro other isUsed x inside
  have outside := inv.consistent.payload_outside (mem_of_used isUsed).1 inside
  have notBlock := outside_header outside (List.mem_append_right left List.mem_cons_self)
  exact kept x (fun inJoint => outside inJoint.in_header) (by omega)

/-- A client's write to bytes it owns. -/
theorem write_step (inv : ClientInvariant client blocks) (isLive : allocation ∈ client.live)
    {address : Nat} (byte : UInt8) (owned : allocation.Owns address) :
    ClientInvariant { client with system := { client.system with heap :=
      { client.system.heap with memory := client.system.heap.memory.write8 address byte } } } blocks := by
  obtain ⟨left, block, right, rfl, taken, ptr, positive, enough⟩ := inv.cut isLive
  refine ⟨inv.consistent.write_payload _ ?_, inv.mapped, inv.accounts⟩
  intro x header
  have member : block ∈ left ++ block :: right := by simp
  have different : x ≠ address := by
    rintro rfl
    refine inv.consistent.payload_outside member ⟨?_, ?_⟩ header
    · have low := owned.1
      omega
    · have high := owned.2
      simp only [Block.stop]
      omega
  simp [Memory.write8, different]

/-- `kfree` of the null pointer does nothing. -/
theorem ClientInvariant.kfree_null (inv : ClientInvariant client blocks) :
    client.perform layer (.kfree 0) = some client := by
  have nothing : (client.live.filter fun allocation => decide (allocation.ptr ≠ 0)) =
      client.live := by
    refine List.filter_eq_self.mpr fun allocation isLive => ?_
    obtain ⟨left, block, right, -, -, ptr, -⟩ := inv.cut isLive
    simp [ptr]
  simp only [Client.perform, true_or, ↓reduceIte, Heap.kfree, pure_apply, Outcome.result,
    Option.map_some, nothing]

/-- Whether a call only writes payload bytes. -/
def HeapCall.isWrite : HeapCall → Bool
  | .write _ _ => true
  | _ => false

/-- Every call keeps the invariant, and every call but a client's own write keeps
the bytes of all payloads in use. -/
theorem perform_step {next : Client σ} {call : HeapCall} (inv : ClientInvariant client blocks)
    (performed : client.perform layer call = some next) :
    ∃ blocks', ClientInvariant next blocks' ∧
      (call.isWrite = false →
        PayloadsKept blocks client.system.heap.memory next.system.heap.memory) := by
  cases call with
  | kmalloc size =>
    obtain ⟨ptr, system, returned, rfl⟩ := done_of_map performed
    obtain ⟨-, blocks', inv', kept⟩ := kmalloc_step inv returned
    exact ⟨blocks', inv', fun _ => kept⟩
  | kcalloc count size =>
    obtain ⟨ptr, system, returned, rfl⟩ := done_of_map performed
    obtain ⟨-, -, blocks', inv', kept⟩ := kcalloc_step inv returned
    exact ⟨blocks', inv', fun _ => kept⟩
  | kfree ptr =>
    by_cases null : ptr = 0
    · subst null
      obtain rfl : client = next := Option.some.inj (inv.kfree_null.symm.trans performed)
      exact ⟨blocks, inv, fun _ _ _ _ _ => rfl⟩
    · simp only [Client.perform] at performed
      split at performed
      · rename_i permitted
        obtain ⟨allocation, isLive, rfl⟩ := permitted.resolve_left null
        obtain ⟨system, blocks', returned, -, inv', kept⟩ := kfree_step inv isLive
        simp only [returned, Outcome.result, Option.map_some, Option.some.injEq] at performed
        obtain rfl := performed
        exact ⟨blocks', inv', fun _ => kept⟩
      · simp at performed
  | write address byte =>
    simp only [Client.perform] at performed
    split at performed
    · rename_i permitted
      obtain ⟨allocation, isLive, owned⟩ := permitted
      obtain rfl := Option.some.inj performed
      exact ⟨blocks, write_step inv isLive byte owned, fun isCall => by simp [HeapCall.isWrite] at isCall⟩
    · simp at performed

/-- The invariant holds between the calls of every run.

Proof: `heap_init` establishes it with nothing live, and each call keeps it. -/
theorem reachable_invariant {initialPages : Nat} {memory : Memory} {pages : σ}
    (atLeastOne : 0 < initialPages) (bounded : initialPages ≤ 4096)
    (reached : HeapReachable layer initialPages memory pages client) :
    ∃ blocks, ClientInvariant client blocks := by
  obtain ⟨system, started, run⟩ := reached
  obtain ⟨-, blocks, con, nothingUsed, mapped⟩ := (heap_init_sat (region_gives_true layer _ _) memory
    atLeastOne (by omega)).of_done started
  have initially : ∃ blocks, ClientInvariant (⟨system, []⟩ : Client σ) blocks := by
    refine ⟨blocks, con, mapped, List.nodup_nil, by simp, ?_⟩
    intro block isUsed
    rw [nothingUsed] at isUsed
    simp at isUsed
  refine run.invariant (fun state => ∃ blocks, ClientInvariant state blocks) initially ?_
  rintro state call next ⟨blocks, inv⟩ - performed
  obtain ⟨blocks', inv', -⟩ := perform_step inv performed
  exact ⟨blocks', inv'⟩

/-! ## The representation invariant -/

/-- The list that starts at `heap_head`, in the words of the headers and the
variables of the allocator. -/
structure HeapInvariant (heap : HeapState) (blocks : List Block) : Prop where
  head : heap.heapHead = (blocks.map Block.addr).headD 0
  links : Linked (blockNext heap.memory) (blockPrev heap.memory) 0 0 (blocks.map Block.addr)
  headers : ∀ block ∈ blocks, Header heap.memory block
  increasing : (blocks.map Block.addr).Pairwise (· < ·)
  nonempty : blocks ≠ []
  first : ∀ block ∈ blocks.head?, block.addr = heap.heapVirtualBase
  touching : blocks.IsChain fun left right => blockEndAddr heap.memory left.addr = right.addr
  last : ∀ block ∈ blocks.getLast?, blockEndAddr heap.memory block.addr = heap.heapVirtualNext
  multiple : ∀ block ∈ blocks, block.size % 8 = 0
  coalesced : blocks.IsChain fun left right => ¬ (left.free = true ∧ right.free = true)
  region : heap.heapRegionBytes = heap.heapVirtualNext - heap.heapVirtualBase
  pages : heap.heapRegionBytes = heap.heapMappedPages * 4096
  active : heap.heapActiveAllocations = (blocks.filter fun block => !block.free).length

/-- The end a header computes is the end of the block. -/
theorem Represents.end_addr {heap : HeapState} (rep : Represents heap blocks)
    (member : block ∈ blocks) : blockEndAddr heap.memory block.addr = block.stop := by
  have bounds := rep.bounds member
  simp only [blockEndAddr, (rep.headers block member).size, header_size_eq, Block.stop] at bounds ⊢
  omega

/-- In a tiling each block stops where the next one starts. -/
theorem Tiled.touching {start stop : Nat} (tiled : Tiled start blocks stop) :
    blocks.IsChain fun left right => left.stop = right.addr := by
  induction blocks generalizing start with
  | nil => exact List.IsChain.nil
  | cons block rest ih =>
    obtain ⟨-, tail⟩ := tiled
    refine List.isChain_cons.mpr ⟨?_, ih tail⟩
    intro next isNext
    exact (tail.head_addr isNext).symm

/-- The last block of a tiling ends it. -/
theorem Tiled.last_stop {start stop : Nat} (tiled : Tiled start blocks stop)
    (isLast : block ∈ blocks.getLast?) : block.stop = stop := by
  rcases List.eq_nil_or_concat blocks with rfl | ⟨front, last, rfl⟩
  · simp at isLast
  · rw [List.concat_eq_append] at tiled isLast
    have same : last = block := by simpa using isLast
    obtain ⟨middle, -, -, stops⟩ := tiled_append.mp tiled
    exact same ▸ stops

/-- The invariant of the run law, read off the stored words. -/
theorem ClientInvariant.heap_invariant (inv : ClientInvariant client blocks) :
    HeapInvariant client.system.heap blocks := by
  have con := inv.consistent
  refine ⟨con.head, con.linked, con.headers, con.tiled.increasing, ?_, ?_, ?_, ?_, con.multiple,
    con.coalesced, con.region, ?_, con.active⟩
  · rintro rfl
    have empty : client.system.heap.heapVirtualBase = client.system.heap.heapVirtualNext := con.tiled
    have larger := inv.mapped
    rw [← empty, con.base] at larger
    exact Nat.lt_irrefl _ larger
  · intro block isFirst
    exact con.tiled.head_addr isFirst
  · refine con.tiled.touching.imp_of_mem_imp ?_
    intro left right inLeft _ touch
    exact (con.end_addr inLeft).trans touch
  · intro block isLast
    exact (con.end_addr (List.mem_of_getLast? isLast)).trans (con.tiled.last_stop isLast)
  · rw [con.pages, Nat.mul_comm]

/-- A list without used blocks in which no two neighbours are free has at most
one block. -/
theorem single_free (coalesced : Coalesced blocks) (allFree : used blocks = [])
    (nonempty : blocks ≠ []) : ∃ block, blocks = [block] ∧ block.free = true := by
  have free : ∀ block ∈ blocks, block.free = true := by
    intro block member
    have notUsed := List.filter_eq_nil_iff.mp allFree block member
    simpa using notUsed
  cases blocks with
  | nil => exact absurd rfl nonempty
  | cons first rest =>
    cases rest with
    | nil => exact ⟨first, rfl, free first (by simp)⟩
    | cons second more =>
      have apart := (List.isChain_cons_cons.mp coalesced).1
      exact absurd ⟨free first (by simp), free second (by simp)⟩ apart

/-- In every run, between any two calls, the stored list is well formed, tiles the
mapped region, is fully coalesced and is counted correctly. When nothing is live
it is one free block over the whole region. -/
theorem heap_list_invariant (layer : PageLayer σ) (initialPages : Nat) (memory : Memory) (pages : σ)
    (client : Client σ) (atLeastOne : 1 ≤ initialPages) (bounded : initialPages ≤ 4096)
    (reached : HeapReachable layer initialPages memory pages client) :
    ∃ blocks, HeapInvariant client.system.heap blocks ∧
      (client.live = [] → blocks =
        [⟨client.system.heap.heapVirtualBase, client.system.heap.heapRegionBytes - 24, true⟩]) := by
  obtain ⟨blocks, inv⟩ := reachable_invariant atLeastOne bounded reached
  have listed := inv.heap_invariant
  refine ⟨blocks, listed, ?_⟩
  intro nothingLive
  have nothingUsed : used blocks = [] := by
    rw [List.eq_nil_iff_forall_not_mem]
    intro block isUsed
    obtain ⟨allocation, isLive, -⟩ := inv.accounts.claimed block isUsed
    simp [nothingLive] at isLive
  obtain ⟨block, rfl, free⟩ := single_free inv.consistent.coalesced nothingUsed listed.nonempty
  have start : block.addr = client.system.heap.heapVirtualBase := inv.consistent.tiled.1
  have stop : block.stop = client.system.heap.heapVirtualNext := inv.consistent.tiled.2
  have region := inv.consistent.region
  have size : block.size = client.system.heap.heapRegionBytes - 24 := by
    simp only [Block.stop] at stop
    omega
  rw [← start, ← size, ← free]

/-- A page layer in which every call succeeds. -/
def plentifulLayer : PageLayer Unit where
  pmmAllocPage pages := (0x100000, pages)
  pmmFreePage _ pages := .ok pages
  vmemMapPage _ _ _ pages := (vmemOk, pages)
  vmemUnmapPage _ pages := (vmemOk, pages)
  vmemGetPhysical _ _ := 0x100000
  pageWritable _ _ := true

set_option maxRecDepth 100000 in
/-- Two allocations, one of which grows the heap, released in the order they were
made. -/
theorem heap_list_invariant_two_calls : ∃ client : Client Unit, client.live = [] ∧
    ∃ blocks, HeapInvariant client.system.heap blocks ∧
      (client.live = [] → blocks =
        [⟨client.system.heap.heapVirtualBase, client.system.heap.heapRegionBytes - 24, true⟩]) := by
  have completed : ((heapRun plentifulLayer 1 ⟨fun _ => 0xAA⟩ () [.kmalloc 100, .kcalloc 300 40,
      .kfree 0xD1000018, .kfree 0xD1000098]).map Client.live) = some [] := by decide +kernel
  obtain ⟨client, ran, nothingLive⟩ := Option.map_eq_some_iff.mp completed
  exact ⟨client, nothingLive, heap_list_invariant plentifulLayer 1 ⟨fun _ => 0xAA⟩ () client
    (by decide) (by decide) (heap_run_reachable ran)⟩

/-! ## The contract with the clients -/

/-- Block addresses are multiples of eight. -/
theorem Tiled.aligned {start stop : Nat} (tiled : Tiled start blocks stop)
    (multiple : ∀ block ∈ blocks, block.size % 8 = 0) (startAligned : start % 8 = 0)
    (member : block ∈ blocks) : block.addr % 8 = 0 := by
  induction blocks generalizing start with
  | nil => simp at member
  | cons first rest ih =>
    obtain ⟨same, tail⟩ := tiled
    rcases List.mem_cons.mp member with rfl | later
    · omega
    · have whole := multiple first List.mem_cons_self
      refine ih tail (fun other inRest => multiple other (List.mem_cons_of_mem first inRest)) ?_ later
      simp only [Block.stop]
      omega

/-- The bytes of a live allocation lie in the payload of its block. -/
theorem ClientInvariant.owns_payload (inv : ClientInvariant client blocks)
    (isLive : allocation ∈ client.live) :
    ∃ block ∈ used blocks, allocation.ptr = block.addr + 24 ∧
      allocation.ptr + allocation.size ≤ block.stop ∧
      ∀ x, allocation.Owns x → block.InPayload x := by
  obtain ⟨block, isUsed, ptr, -, enough⟩ := inv.accounts.backed allocation isLive
  have stop : allocation.ptr + allocation.size ≤ block.stop := by
    simp only [Block.stop]
    omega
  refine ⟨block, isUsed, ptr, stop, ?_⟩
  rintro x ⟨low, high⟩
  exact ⟨by omega, by omega⟩

/-- Two live allocations share no byte. -/
theorem ClientInvariant.disjoint (inv : ClientInvariant client blocks) {other : Allocation}
    (isLive : allocation ∈ client.live) (isLive' : other ∈ client.live)
    (different : other ≠ allocation) (x : Nat) : ¬ (allocation.Owns x ∧ other.Owns x) := by
  rintro ⟨owned, owned'⟩
  obtain ⟨block, isUsed, ptr, -, inside⟩ := inv.owns_payload isLive
  obtain ⟨block', isUsed', ptr', -, inside'⟩ := inv.owns_payload isLive'
  have one := inside x owned
  have two := inside' x owned'
  simp only [Block.InPayload, Block.stop] at one two
  have differentPtr : other.ptr ≠ allocation.ptr := fun same =>
    different (List.inj_on_of_nodup_map inv.accounts.distinct isLive' isLive same)
  rcases inv.consistent.tiled.separated (mem_of_used isUsed).1 (mem_of_used isUsed').1 with
    rfl | before | after
  · exact differentPtr (ptr'.trans ptr.symm)
  · simp only [Block.stop] at before
    omega
  · simp only [Block.stop] at after
    omega

/-- A live allocation stays live until it is freed. -/
theorem perform_survives {next : Client σ} {call : HeapCall}
    (performed : client.perform layer call = some next) (isLive : allocation ∈ client.live)
    (notFreed : call ≠ .kfree allocation.ptr) : allocation ∈ next.live := by
  have recorded : ∀ ptr size, allocation ∈ recordLive ptr size client.live := by
    intro ptr size
    simp only [recordLive]
    split
    · exact isLive
    · exact List.mem_cons_of_mem _ isLive
  cases call with
  | kmalloc size =>
    obtain ⟨ptr, system, -, rfl⟩ := done_of_map performed
    exact recorded _ _
  | kcalloc count size =>
    obtain ⟨ptr, system, -, rfl⟩ := done_of_map performed
    exact recorded _ _
  | kfree ptr =>
    simp only [Client.perform] at performed
    split at performed
    · obtain ⟨value, system, -, rfl⟩ := done_of_map performed
      refine List.mem_filter.mpr ⟨isLive, decide_eq_true ?_⟩
      rintro rfl
      exact notFreed rfl
    · simp at performed
  | write address byte =>
    simp only [Client.perform] at performed
    split at performed
    · obtain rfl := Option.some.inj performed
      exact isLive
    · simp at performed

/-- What the heap guarantees its clients, in every run. Live payloads are aligned,
inside the region, disjoint from each other and from every header. A call other
than a client's own write keeps every byte of every payload it does not free.
`kmalloc` of a positive size hands out a new payload, and `kcalloc` one whose bytes
are all zero. -/
theorem heap_client_contract (layer : PageLayer σ) (initialPages : Nat) (memory : Memory) (pages : σ)
    (client : Client σ) (atLeastOne : 1 ≤ initialPages) (bounded : initialPages ≤ 4096)
    (reached : HeapReachable layer initialPages memory pages client) :
    (∃ blocks, HeapInvariant client.system.heap blocks ∧ ∀ allocation ∈ client.live,
      allocation.ptr % 8 = 0 ∧
      client.system.heap.heapVirtualBase ≤ allocation.ptr ∧
      allocation.ptr + allocation.size ≤ client.system.heap.heapVirtualNext ∧
      (∀ other ∈ client.live, other ≠ allocation → ∀ x, ¬ (allocation.Owns x ∧ other.Owns x)) ∧
      ∀ x, allocation.Owns x → ¬ InHeader blocks x) ∧
    (∀ call next, client.perform layer call = some next → call.isWrite = false →
      ∀ allocation ∈ client.live, call ≠ .kfree allocation.ptr →
        allocation ∈ next.live ∧ ∀ x, allocation.Owns x →
          next.system.heap.memory.byte x = client.system.heap.memory.byte x) ∧
    (∀ size next, client.perform layer (.kmalloc size) = some next → 0 < size.toNat →
      ∃ ptr, next.live = ⟨ptr, size.toNat⟩ :: client.live) ∧
    ∀ count size next, client.perform layer (.kcalloc count size) = some next →
      0 < count.toNat * size.toNat →
      ∃ ptr, next.live = ⟨ptr, count.toNat * size.toNat⟩ :: client.live ∧
        ∀ x, ptr ≤ x → x < ptr + count.toNat * size.toNat → next.system.heap.memory.byte x = 0 := by
  obtain ⟨blocks, inv⟩ := reachable_invariant atLeastOne bounded reached
  refine ⟨⟨blocks, inv.heap_invariant, ?_⟩, ?_, ?_, ?_⟩
  · intro allocation isLive
    obtain ⟨block, isUsed, ptr, stop, inside⟩ := inv.owns_payload isLive
    have member := (mem_of_used isUsed).1
    have bounds := inv.consistent.tiled.bounds member
    have aligned := inv.consistent.tiled.aligned inv.consistent.multiple
      (by rw [inv.consistent.base]; rfl) member
    refine ⟨by omega, by omega, by omega, ?_, ?_⟩
    · intro other isLive' different x
      exact inv.disjoint isLive isLive' different x
    · intro x owned
      exact inv.consistent.payload_outside member (inside x owned)
  · intro call next performed isCall allocation isLive notFreed
    refine ⟨perform_survives performed isLive notFreed, ?_⟩
    intro x owned
    obtain ⟨blocks', -, kept⟩ := perform_step inv performed
    obtain ⟨block, isUsed, -, -, inside⟩ := inv.owns_payload isLive
    exact kept isCall block isUsed x (inside x owned)
  · intro size next performed positive
    obtain ⟨ptr, system, returned, rfl⟩ := done_of_map performed
    obtain ⟨null, -⟩ := kmalloc_step inv returned
    have notNull : ptr ≠ 0 := fun isNull => by
      have empty := null.mpr isNull
      omega
    exact ⟨ptr, by simp [recordLive, notNull]⟩
  · intro count size next performed positive
    obtain ⟨ptr, system, returned, rfl⟩ := done_of_map performed
    obtain ⟨null, zeroed, -⟩ := kcalloc_step inv returned
    have notNull : ptr ≠ 0 := fun isNull => by
      have empty := null.mpr isNull
      omega
    exact ⟨ptr, by simp [recordLive, notNull], zeroed⟩

set_option maxRecDepth 100000 in
/-- The contract at a state with one allocation left and bytes written into it. -/
theorem heap_client_contract_after_write : ∃ client : Client Unit,
    client.live = [⟨0xD1000098, 120⟩] ∧
    ∃ blocks, HeapInvariant client.system.heap blocks ∧ ∀ allocation ∈ client.live,
      allocation.ptr % 8 = 0 ∧ ∀ x, allocation.Owns x → ¬ InHeader blocks x := by
  have completed : ((heapRun plentifulLayer 1 ⟨fun _ => 0xAA⟩ () [.kmalloc 100, .kcalloc 3 40,
      .write 0xD10000A0 7, .kfree 0xD1000018]).map Client.live) = some [⟨0xD1000098, 120⟩] := by
    decide +kernel
  obtain ⟨client, ran, live⟩ := Option.map_eq_some_iff.mp completed
  obtain ⟨⟨blocks, listed, owned⟩, -⟩ := heap_client_contract plentifulLayer 1 ⟨fun _ => 0xAA⟩ ()
    client (by decide) (by decide) (heap_run_reachable ran)
  exact ⟨client, live, blocks, listed, fun allocation isLive =>
    ⟨(owned allocation isLive).1, (owned allocation isLive).2.2.2.2⟩⟩

end Toyix.Heap
