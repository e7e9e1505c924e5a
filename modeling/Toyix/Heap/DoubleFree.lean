import Toyix.Heap.Clients

/-!
# A pointer that was freed twice

`kfree` looks at the header in front of the pointer it is given. Once the block was merged into a free
block before it, this header is listed no longer, and only bytes of a free payload remain of it. They
still tell a second `kfree` that the block is free: a merge writes sizes and links of listed headers,
a client writes payloads in use, and neither reaches the magic number or the mark of a stale header.
Only `kmalloc` and `kcalloc` hand the bytes out again.
-/

namespace Toyix.Heap

open Library

variable {σ : Type} {layer : PageLayer σ} {heap : HeapState} {blocks : List Block} {addr : Nat}

/-- A header at this address is marked as free. Every listed header is this one or lies apart from it,
and no payload in use meets it. -/
structure Stale (heap : HeapState) (blocks : List Block) (addr : Nat) : Prop where
  low : heap.heapVirtualBase ≤ addr
  high : addr + 24 < heap.heapVirtualNext
  magic : blockMagic heap.memory addr = heapMagic
  mark : blockIsFree heap.memory addr = 1
  apart : ∀ block ∈ blocks, block.addr = addr ∨ block.addr + 24 ≤ addr ∨ addr + 24 ≤ block.addr
  unused : ∀ block ∈ used blocks, block.stop ≤ addr ∨ addr < block.addr

/-- `kfree` of a stale header stops at once. -/
theorem Stale.kfree_panics (stale : Stale heap blocks addr) (notNull : addr ≠ 0) (pages : σ) :
    kfree (addr + 24) ⟨heap, pages⟩ = .panicked "double free detected" ⟨heap, pages⟩ := by
  have low := stale.low
  have high := stale.high
  have inRegion : ptrIsInsideHeapRegion heap (addr + 24) = true := by
    have above : heap.heapVirtualBase ≤ addr + 24 := by omega
    simp [ptrIsInsideHeapRegion, above, high]
  have blockInRegion : ptrIsInsideHeapRegion heap addr = true := by
    have below : addr < heap.heapVirtualNext := by omega
    simp [ptrIsInsideHeapRegion, low, below]
  have isBlock : addr + 24 - heapHeaderSize = addr := by
    rw [header_size_eq]
    omega
  have validated : validateBlock addr ⟨heap, pages⟩ = .done ⟨⟩ ⟨heap, pages⟩ := by
    simp [validateBlock, notNull, blockInRegion, stale.magic]
  have ptrNotNull : addr + 24 ≠ 0 := by omega
  simp only [kfree, ptrNotNull, ↓reduceIte, bind_apply, heapNow_apply, andThen_done,
    inRegion, Bool.true_eq_false, isBlock, validated, stale.mark, ne_eq, one_ne_zero, not_false_eq_true,
    panic_apply]

/-- The bytes of the magic number and of the mark are not those of a size or a link. -/
theorem Stale.outside_joint {x : Nat} (stale : Stale heap blocks addr)
    (word : addr ≤ x ∧ x < addr + 4 ∨ addr + 8 ≤ x ∧ x < addr + 12) : ¬ InJoint blocks x := by
  rintro ⟨block, member, words⟩
  have position := stale.apart block member
  omega

/-- What a stale header needs of the next state. -/
theorem Stale.transport {heap' : HeapState} {blocks' : List Block} (stale : Stale heap blocks addr)
    (sameBase : heap'.heapVirtualBase = heap.heapVirtualBase)
    (sameNext : heap'.heapVirtualNext = heap.heapVirtualNext)
    (kept : ∀ x, addr ≤ x ∧ x < addr + 4 ∨ addr + 8 ≤ x ∧ x < addr + 12 →
      heap'.memory.byte x = heap.memory.byte x)
    (starts : ∀ found ∈ blocks', ∃ other ∈ blocks, other.addr = found.addr)
    (fewer : ∀ block ∈ used blocks', block ∈ used blocks) : Stale heap' blocks' addr := by
  constructor
  · exact sameBase ▸ stale.low
  · exact sameNext ▸ stale.high
  · rw [← stale.magic]
    exact Memory.read32_congr fun x low high => kept x (by omega)
  · rw [← stale.mark]
    exact Memory.read32_congr fun x low high => kept x (by omega)
  · intro found listed
    obtain ⟨other, isListed, same⟩ := starts found listed
    rw [← same]
    exact stale.apart other isListed
  · intro block isUsed
    exact stale.unused block (fewer block isUsed)

/-- The header of a block that was just freed is stale. -/
theorem stale_of_freed {heap' : HeapState} {left right blocks' : List Block} {block : Block}
    (con : Consistent heap (left ++ block :: right)) (con' : Consistent heap' blocks')
    (nonempty : 0 < block.size) (same : used blocks' = used left ++ used right)
    (sameNext : heap'.heapVirtualNext = heap.heapVirtualNext)
    (mark : blockIsFree heap'.memory block.addr = 1)
    (starts : ∀ found ∈ blocks', ∃ other ∈ left ++ block :: right, other.addr = found.addr)
    (kept : ∀ x, ¬ InJoint (left ++ block :: right) x → x < block.addr + 8 ∨ block.addr + 12 ≤ x →
      heap'.memory.byte x = heap.memory.byte x) : Stale heap' blocks' block.addr := by
  have member : block ∈ left ++ block :: right := List.mem_append_right left List.mem_cons_self
  have bounds := con.bounds member
  have base' := con'.base
  simp only [Block.stop, heapVirtualBaseAddress] at bounds base'
  have apart : ∀ other ∈ left ++ block :: right, other.addr = block.addr ∨
      other.addr + 24 ≤ block.addr ∨ block.addr + 24 ≤ other.addr := by
    intro other listed
    rcases con.tiled.separated listed member with rfl | before | after
    · exact Or.inl rfl
    · simp only [Block.stop] at before
      omega
    · simp only [Block.stop] at after
      omega
  constructor
  · omega
  · omega
  · rw [← (con.headers block member).magic]
    refine Memory.read32_congr fun x low high => kept x ?_ (by omega)
    rintro ⟨other, listed, words⟩
    have position := apart other listed
    omega
  · exact mark
  · intro found listed
    obtain ⟨other, isListed, sameAddr⟩ := starts found listed
    rw [← sameAddr]
    exact apart other isListed
  · intro other isUsed
    obtain ⟨before, after⟩ := con.before_cut
    rw [same] at isUsed
    rcases List.mem_append.mp isUsed with front | behind
    · exact Or.inl (before other (mem_of_used front).1)
    · have above := after other (mem_of_used behind).1
      simp only [Block.stop] at above
      omega

/-- A permitted call of `kfree` on a pointer returns with its block taken back. -/
theorem kfree_performed {client next : Client σ} (inv : ClientInvariant client blocks) {ptr : Nat}
    (notNull : ptr ≠ 0) (performed : client.perform layer (.kfree ptr) = some next) :
    ∃ left block right blocks', blocks = left ++ block :: right ∧ block.free = false ∧
      0 < block.size ∧ ptr = block.addr + 24 ∧ ClientInvariant next blocks' ∧
      used blocks' = used left ++ used right ∧
      next.system.heap.heapVirtualNext = client.system.heap.heapVirtualNext ∧
      blockIsFree next.system.heap.memory block.addr = 1 ∧
      (∀ found ∈ blocks', ∃ other ∈ blocks, other.addr = found.addr) ∧
      ∀ x, ¬ InJoint blocks x → x < block.addr + 8 ∨ block.addr + 12 ≤ x →
        next.system.heap.memory.byte x = client.system.heap.memory.byte x := by
  simp only [Client.perform] at performed
  split at performed
  · rename_i permitted
    obtain ⟨allocation, isLive, rfl⟩ := permitted.resolve_left notNull
    obtain ⟨left, block, right, rfl, taken, isPtr, positive, enough⟩ := inv.cut isLive
    obtain ⟨heap', blocks', run, con, same, sameNext, mark, starts, kept⟩ :=
      kfree_exact client.system.pages inv.consistent taken (by omega)
    rw [isPtr] at performed
    simp only [run, Outcome.result, Option.map_some, Option.some.injEq] at performed
    subst performed
    exact ⟨left, block, right, blocks', rfl, taken, by omega, isPtr,
      inv.freed taken con same sameNext, same, sameNext, mark, starts, kept⟩
  · cases performed

/-- The calls that hand out no memory. -/
def HeapCall.releasing : HeapCall → Bool
  | .kfree _ => true
  | .write _ _ => true
  | _ => false

/-- A stale header stays one while no memory is handed out.

Proof: a `kfree` writes the mark of a block in use, which lies apart, and then sizes and links. A
write goes to a payload in use. -/
theorem releasing_keeps_stale {client next : Client σ} (inv : ClientInvariant client blocks)
    (stale : Stale client.system.heap blocks addr) {call : HeapCall}
    (releasing : call.releasing = true) (performed : client.perform layer call = some next) :
    ∃ blocks', ClientInvariant next blocks' ∧ Stale next.system.heap blocks' addr := by
  cases call with
  | kmalloc size => cases releasing
  | kcalloc count size => cases releasing
  | kfree ptr =>
    by_cases null : ptr = 0
    · subst null
      obtain rfl : client = next := Option.some.inj (inv.kfree_null.symm.trans performed)
      exact ⟨blocks, inv, stale⟩
    · obtain ⟨left, block, right, blocks', rfl, taken, positive, -, inv', same, sameNext, -, starts,
        kept⟩ := kfree_performed inv null performed
      refine ⟨blocks', inv', stale.transport ?_ sameNext ?_ starts ?_⟩
      · rw [inv'.consistent.base, inv.consistent.base]
      · intro x word
        have isUsed : block ∈ used (left ++ block :: right) := by
          rw [used_append, used_cons_taken taken]
          exact List.mem_append_right _ List.mem_cons_self
        have position := stale.apart block (mem_of_used isUsed).1
        have notThis := stale.unused block isUsed
        simp only [Block.stop] at notThis
        exact kept x (stale.outside_joint word) (by omega)
      · intro other isUsed
        rw [same] at isUsed
        rw [used_append, used_cons_taken taken]
        rcases List.mem_append.mp isUsed with front | behind
        · exact List.mem_append_left _ front
        · exact List.mem_append_right _ (List.mem_cons_of_mem block behind)
  | write address byte =>
    simp only [Client.perform] at performed
    split at performed
    · rename_i permitted
      obtain ⟨allocation, isLive, owned⟩ := permitted
      obtain rfl := Option.some.inj performed
      refine ⟨blocks, write_step inv isLive byte owned, stale.transport rfl rfl ?_ ?_ ?_⟩
      · intro x word
        obtain ⟨block, isUsed, ptr, -, enough⟩ := inv.accounts.backed allocation isLive
        have notThis := stale.unused block isUsed
        have position := stale.apart block (mem_of_used isUsed).1
        have different : x ≠ address := by
          obtain ⟨low, high⟩ := owned
          simp only [Block.stop] at notThis
          omega
        simp [Memory.write8, different]
      · exact fun found listed => ⟨found, listed, rfl⟩
      · exact fun _ isUsed => isUsed
    · cases performed

/-- In every reachable heap, once a live pointer was freed and as long as no memory is handed out, a
second `kfree` of the pointer is caught before anything is changed.

Proof: the first call leaves a stale header, the calls after it keep it, and `kfree` of a stale header
stops. -/
theorem double_free_caught (layer : PageLayer σ) (initialPages : Nat) (memory : Memory) (pages : σ)
    (client freed next : Client σ) (atLeastOne : 1 ≤ initialPages) (bounded : initialPages ≤ 4096)
    (reached : HeapReachable layer initialPages memory pages client)
    (allocation : Allocation) (isLive : allocation ∈ client.live)
    (first : client.perform layer (.kfree allocation.ptr) = some freed)
    (later : Reaches (Client.perform layer) (fun _ call => call.releasing = true) freed next) :
    kfree allocation.ptr next.system = .panicked "double free detected" next.system := by
  obtain ⟨blocks, inv⟩ := reachable_invariant atLeastOne bounded reached
  have notNull : allocation.ptr ≠ 0 := by
    obtain ⟨front, block, behind, -, -, isPtr, -⟩ := inv.cut isLive
    omega
  obtain ⟨left, block, right, blocks', rfl, -, positive, isPtr, inv', same, sameNext, mark, starts,
    kept⟩ := kfree_performed inv notNull first
  have stale := stale_of_freed inv.consistent inv'.consistent positive same sameNext mark starts kept
  have still : ∃ blocks, ClientInvariant next blocks ∧ Stale next.system.heap blocks block.addr := by
    refine later.invariant (fun state => ∃ blocks, ClientInvariant state blocks ∧
      Stale state.system.heap blocks block.addr) ⟨blocks', inv', stale⟩ ?_
    rintro state call after ⟨listed, stateInv, stateStale⟩ releasing performed
    exact releasing_keeps_stale stateInv stateStale releasing performed
  obtain ⟨listed, -, stale'⟩ := still
  have blockNotNull := inv.consistent.not_null List.mem_append_cons_self
  rw [isPtr]
  exact stale'.kfree_panics blockNotNull next.system.pages

set_option maxRecDepth 100000 in
/-- Three blocks are handed out. The second is freed, merged into the first when that is freed, and
freed again after a write to the third. -/
theorem merged_block_caught : ∃ next : Client Unit, next.live = [⟨0xD1000118, 100⟩] ∧
    kfree 0xD1000098 next.system = .panicked "double free detected" next.system := by
  have completed : ((heapRun plentifulLayer 1 ⟨fun _ => 0xAA⟩ () [.kmalloc 100, .kmalloc 100,
      .kmalloc 100]).bind fun client => (client.perform plentifulLayer (.kfree 0xD1000098)).bind
        fun freed => (runAll (Client.perform plentifulLayer) (fun _ call => call.releasing = true)
          [.kfree 0xD1000018, .write 0xD1000120 7] freed).map fun next =>
            (client.live, next.live)) =
      some ([⟨0xD1000118, 100⟩, ⟨0xD1000098, 100⟩, ⟨0xD1000018, 100⟩], [⟨0xD1000118, 100⟩]) := by
    decide +kernel
  obtain ⟨client, ran, first⟩ := Option.bind_eq_some_iff.mp completed
  obtain ⟨freed, isFreed, later⟩ := Option.bind_eq_some_iff.mp first
  obtain ⟨next, wentOn, facts⟩ := Reaches.of_facts later
  obtain ⟨live, nextLive⟩ := Prod.mk.inj facts
  refine ⟨next, nextLive, ?_⟩
  exact double_free_caught plentifulLayer 1 ⟨fun _ => 0xAA⟩ () client freed next (by decide) (by decide)
    (heap_run_reachable ran) ⟨0xD1000098, 100⟩ (by simp [live]) isFreed wentOn

end Toyix.Heap
