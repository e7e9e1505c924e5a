import Toyix.Heap.Growth
import Toyix.Library.Words

/-!
# What the allocator's entry points do

One law for each of `heap_init`, `kmalloc`, `kcalloc` and `kfree`, on a consistent
heap and for every page layer: the heap is consistent again, the used blocks
change by exactly the block handed out or taken back, and no byte of another used
payload changes. None of the calls diverges; all of them may stop the machine.
-/

namespace Toyix.Heap

open Library Library.Links

variable {σ : Type} {layer : PageLayer σ} {invariant : σ → Prop} {heap : HeapState}
  {blocks left right : List Block} {block : Block} {pages : σ}

/-- The bytes a client may use in a block. -/
def Block.InPayload (block : Block) (x : Nat) : Prop := block.addr + 24 ≤ x ∧ x < block.stop

/-- A payload meets no header. -/
theorem Represents.payload_outside (rep : Represents heap blocks) (member : block ∈ blocks)
    {x : Nat} (inside : block.InPayload x) : ¬ InHeader blocks x := by
  rintro ⟨other, listed, low, high⟩
  obtain ⟨payloadLow, payloadHigh⟩ := inside
  simp only [Block.stop] at payloadHigh
  rcases rep.tiled.separated member listed with rfl | before | after
  · omega
  · simp only [Block.stop] at before
    omega
  · simp only [Block.stop] at after
    omega

theorem mem_of_used (member : block ∈ used blocks) : block ∈ blocks ∧ block.free = false := by
  simpa [used] using member

/-- No byte of a used payload differs. -/
def PayloadsKept (blocks : List Block) (before after : Memory) : Prop :=
  ∀ block ∈ used blocks, ∀ x, block.InPayload x → after.byte x = before.byte x

/-- Growth keeps every used payload. -/
theorem Grown.payloads {heap' : HeapState} {blocks' : List Block}
    (grown : Grown heap heap' blocks blocks') (rep : Represents heap blocks) :
    PayloadsKept blocks heap.memory heap'.memory := by
  intro block member x inside
  have listed := (mem_of_used member).1
  have bounds := rep.bounds listed
  have high := inside.2
  exact grown.kept x (by omega) (rep.payload_outside listed inside)

/-! ## Growing on demand -/

/-- `heap_grow` keeps the heap consistent. -/
theorem heap_grow_sat {minimum : Nat}
    (gives : ∀ count, 4096 * count ≤ minimum + 4119 → RegionGives layer pages count invariant)
    (con : Consistent heap blocks) :
    (heapGrow layer minimum ⟨heap, pages⟩).Sat fun block next =>
      (∃ blocks', Grown heap next.heap blocks blocks') ∧ (block ≠ 0 → invariant next.pages) := by
  simp only [heapGrow, ite_run]
  split
  · exact ⟨⟨blocks, Grown.refused con heap.memory fun _ _ => rfl⟩, fun wrong => absurd rfl wrong⟩
  · obtain ⟨count, countEq⟩ : ∃ count, count =
        (minimum + heapHeaderSize + (pmmPageSize - 1)) % 2 ^ 32 / pmmPageSize := ⟨_, rfl⟩
    have small : count < 2 ^ 20 ∧ 4096 * count ≤ minimum + 4119 := by
      simp only [header_size_eq, pmmPageSize] at countEq
      omega
    rw [← countEq]
    refine (heap_add_region_sat (gives (if count = 0 then 1 else count) ?_) con ?_ ?_).mono ?_
    · split <;> omega
    · split <;> omega
    · split <;> omega
    · rintro block next ⟨blocks', grown, reported⟩
      exact ⟨⟨blocks', grown⟩, fun notNull => (reported notNull).1⟩

/-- `kmalloc` finds a free block that is large enough, growing the heap when there
is none. -/
theorem kmalloc_find_sat {wanted : Nat}
    (gives : ∀ count, 4096 * count ≤ wanted + 4119 → RegionGives layer pages count invariant)
    (con : Consistent heap blocks) (holds : invariant pages) :
    (kmallocFind layer wanted ⟨heap, pages⟩).Sat fun addr next => invariant next.pages ∧
      ∃ left block right, Grown heap next.heap blocks (left ++ block :: right) ∧
        addr = block.addr ∧ block.free = true ∧ wanted ≤ block.size := by
  have search := find_free_block_exact wanted pages con.toRepresents
  simp only [kmallocFind, bind_apply, search, andThen_done, ite_run]
  rcases first_fit_cases wanted blocks with ⟨none, -⟩ | ⟨left, block, right, rfl, found, free, fits⟩
  · simp only [none, ↓reduceIte]
    refine (heap_grow_sat gives con).andThen ?_
    rintro grownBlock ⟨heap', pages'⟩ ⟨⟨blocks', grown⟩, holds'⟩
    have again := find_free_block_exact wanted pages' grown.consistent.toRepresents
    simp only [ite_run, bind_apply, again, andThen_done]
    split
    · trivial
    · rename_i reported
      rcases first_fit_cases wanted blocks' with
        ⟨none', -⟩ | ⟨left, block, right, rfl, found, free, fits⟩
      · simp only [none', ↓reduceIte, panic_apply, Outcome.sat_panicked]
      · have notNull := grown.consistent.not_null List.mem_append_cons_self
        simp only [found, notNull, ↓reduceIte, pure_apply, sat_done]
        exact ⟨holds' reported, left, block, right, grown, rfl, free, fits⟩
  · have notNull := con.not_null List.mem_append_cons_self
    simp only [found, notNull, ↓reduceIte, pure_apply, sat_done]
    exact ⟨holds, left, block, right, Grown.refused con heap.memory fun _ _ => rfl, rfl, free, fits⟩

/-! ## Handing a block out -/

/-- The block handed out of a free block. -/
def takenBlock (block : Block) (wanted : Nat) : Block :=
  ⟨block.addr, if block.size - wanted < 40 then block.size else wanted, false⟩

/-- The free rest behind the block handed out. -/
def leftoverBlocks (block : Block) (wanted : Nat) : List Block :=
  if block.size - wanted < 40 then []
  else [⟨block.addr + 24 + wanted, block.size - wanted - 24, true⟩]

theorem split_blocks_eq (block : Block) (wanted : Nat) :
    ∃ front, splitBlocks block wanted = front :: leftoverBlocks block wanted ∧
      front.addr = block.addr ∧ { front with free := false } = takenBlock block wanted := by
  by_cases small : block.size - wanted < 40
  · exact ⟨block, by simp [splitBlocks, leftoverBlocks, small], rfl, by simp [takenBlock, small]⟩
  · exact ⟨⟨block.addr, wanted, block.free⟩, by simp [splitBlocks, leftoverBlocks, small], rfl,
      by simp [takenBlock, small]⟩

theorem used_leftover (block : Block) (wanted : Nat) : used (leftoverBlocks block wanted) = [] := by
  by_cases small : block.size - wanted < 40 <;> simp [leftoverBlocks, small, used]

/-- Taking a free block out of a coalesced list leaves the list coalesced. -/
theorem coalesced_taken (wanted : Nat) (coalesced : Coalesced (left ++ block :: right))
    (free : block.free = true) :
    Coalesced (left ++ takenBlock block wanted :: (leftoverBlocks block wanted ++ right)) := by
  obtain ⟨front, behind, -⟩ := List.isChain_append.mp coalesced
  obtain ⟨nextUsed, rest⟩ := List.isChain_cons.mp behind
  refine List.isChain_append.mpr ⟨front, List.isChain_cons.mpr ⟨?_, ?_⟩, ?_⟩
  · simp [takenBlock]
  · refine List.isChain_append.mpr ⟨?_, rest, ?_⟩
    · by_cases small : block.size - wanted < 40 <;> simp [leftoverBlocks, small]
    · intro last isLast next isNext both
      exact nextUsed next isNext ⟨free, both.2⟩
  · intro last isLast next isFirst both
    have same : takenBlock block wanted = next := by simpa using isFirst
    rw [← same] at both
    simp [takenBlock] at both

/-- The second half of `kmalloc` takes the block out of the free list: the list
holds the block handed out, at least as large as wanted, and the free rest. Only
headers and bytes of the block itself are written.

Proof: the split law exchanges the block for its parts, then the state word of the
first part is written. -/
theorem kmalloc_take_exact (wanted : Nat) (pages : σ)
    (con : Consistent heap (left ++ block :: right)) (free : block.free = true)
    (fits : wanted ≤ block.size) (whole : wanted % 8 = 0) :
    ∃ memory, kmallocTake block.addr wanted ⟨heap, pages⟩ =
        .done (block.addr + 24) ⟨{ heap with
          memory := memory
          heapActiveAllocations := heap.heapActiveAllocations + 1
          heapTotalAllocations := (heap.heapTotalAllocations + 1) % 2 ^ 32 }, pages⟩ ∧
      Consistent { heap with
          memory := memory
          heapActiveAllocations := heap.heapActiveAllocations + 1
          heapTotalAllocations := (heap.heapTotalAllocations + 1) % 2 ^ 32 }
        (left ++ takenBlock block wanted :: (leftoverBlocks block wanted ++ right)) ∧
      ∀ x, ¬ InHeader (left ++ block :: right) x → ¬ block.InPayload x →
        memory.byte x = heap.memory.byte x := by
  have member : block ∈ left ++ block :: right := by simp
  have bounds := con.bounds member
  simp only [Block.stop] at bounds
  obtain ⟨memory, splitRun, splitRep, splitKept⟩ := split_exact wanted pages con.toRepresents fits whole
  obtain ⟨front, parts, frontAddr, frontTaken⟩ := split_blocks_eq block wanted
  rw [parts, List.append_assoc, List.cons_append] at splitRep
  have marked := splitRep.set_free false
  rw [frontTaken, frontAddr] at marked
  have countBound : (heap.heapActiveAllocations + 1) % 2 ^ 32 = heap.heapActiveAllocations + 1 := by
    have short := con.short
    have strict : (used (left ++ block :: right)).length < (left ++ block :: right).length := by
      rw [used_append, used_cons_free free, List.length_append, List.length_append, List.length_cons]
      have one : (used left).length ≤ left.length := List.length_filter_le _ _
      have two : (used right).length ≤ right.length := List.length_filter_le _ _
      omega
    have active := con.active
    simp only [walkBound] at short
    omega
  have payload : (block.addr + heapHeaderSize) % 2 ^ 32 = block.addr + 24 := by
    rw [header_size_eq]
    omega
  refine ⟨setIsFree memory block.addr 0, ?_, ⟨?_, con.initialized, ?_, con.region, con.pages, ?_⟩, ?_⟩
  · simp only [kmallocTake, bind_apply, splitRun, andThen_done, store_apply,
      setHeap_apply, countBound, payload, pure_apply]
  · exact marked.transport rfl rfl rfl rfl fun _ _ => rfl
  · exact coalesced_taken wanted con.coalesced free
  · have active := con.active
    rw [used_append, used_cons_free free] at active
    simp only [used_append, used_cons_taken (rfl : (takenBlock block wanted).free = false),
      used_leftover, List.nil_append, List.length_append, List.length_cons, active]
    omega
  · intro x notHeader notPayload
    have notBlock := outside_header notHeader member
    rw [setIsFree, Memory.write32_apply_outside _ _ _ _ (by omega)]
    refine splitKept x notHeader ?_
    rintro ⟨part, isPart, low, high⟩
    simp only [Block.InPayload, Block.stop] at notPayload
    by_cases small : block.size - wanted < 40
    · simp only [splitBlocks, small, ↓reduceIte, List.mem_singleton] at isPart
      subst isPart
      omega
    · simp only [splitBlocks, small, ↓reduceIte, List.mem_cons, List.not_mem_nil, or_false] at isPart
      rcases isPart with rfl | rfl
      · simp only at low high
        omega
      · simp only at low high
        omega

/-- What a successful allocation leaves behind: one more used block, at `ptr - 24`
and at least `size` bytes large, and every other used payload unchanged. -/
structure Allocated (heap heap' : HeapState) (blocks blocks' : List Block) (ptr size : Nat) : Prop where
  consistent : Consistent heap' blocks'
  taken : ∃ left block right, blocks' = left ++ block :: right ∧ block.free = false ∧
    ptr = block.addr + 24 ∧ size ≤ block.size ∧ used blocks = used left ++ used right
  further : heap.heapVirtualNext ≤ heap'.heapVirtualNext
  payloads : PayloadsKept blocks heap.memory heap'.memory

/-- The second half of `kmalloc` after growth. -/
theorem Grown.allocate {heap' : HeapState}
    (grown : Grown heap heap' blocks (left ++ block :: right)) (rep : Represents heap blocks)
    (wanted size : Nat) (pages : σ) (free : block.free = true) (fits : wanted ≤ block.size)
    (whole : wanted % 8 = 0) (enough : size ≤ wanted) :
    ∃ heap'' blocks'', kmallocTake block.addr wanted ⟨heap', pages⟩ =
        .done (block.addr + 24) ⟨heap'', pages⟩ ∧
      Allocated heap heap'' blocks blocks'' (block.addr + 24) size := by
  obtain ⟨memory, run, con, kept⟩ := kmalloc_take_exact wanted pages grown.consistent free fits whole
  refine ⟨_, _, run, con, ⟨left, takenBlock block wanted, leftoverBlocks block wanted ++ right, rfl,
    rfl, rfl, ?_, ?_⟩, grown.further, ?_⟩
  · simp only [takenBlock]
    split <;> omega
  · have same := grown.sameUsed
    rw [used_append, used_cons_free free] at same
    rw [used_append, used_leftover, List.nil_append, same]
  · intro other member x inside
    rw [← grown.payloads rep other member x inside]
    have listed : other ∈ used (left ++ block :: right) := grown.sameUsed ▸ member
    obtain ⟨listed', usedOther⟩ := mem_of_used listed
    refine kept x (grown.consistent.payload_outside listed' inside) ?_
    rintro ⟨low, high⟩
    obtain ⟨otherLow, otherHigh⟩ := inside
    have blockMember : block ∈ left ++ block :: right := by simp
    rcases grown.consistent.tiled.separated listed' blockMember with rfl | before | after
    · simp [free] at usedOther
    · omega
    · omega

/-- Rounding a request up to the allocator's alignment. -/
theorem align_request (size : Nat) (small : size ≤ 0xFFFFFFFF - 7) :
    alignUpSize size heapAlignment % 8 = 0 ∧ size ≤ alignUpSize size heapAlignment ∧
      alignUpSize size heapAlignment ≤ size + 7 := by
  have mask := land_high_mask (size + 7) 3 (by omega) (by omega)
  have rounded : alignUpSize size heapAlignment = (size + 7) / 2 ^ 3 * 2 ^ 3 := by
    have unwrapped : (size + (8 - 1)) % 2 ^ 32 = size + 7 := by omega
    simp only [alignUpSize, heapAlignment, unwrapped]
    exact mask
  rw [rounded]
  omega

/-! ## The two steps of `kmalloc` -/

/-- `kmalloc` up to the block it has found, with the size it will split off. No
block is needed for an empty request. -/
def kmallocStart (layer : PageLayer σ) (size : Nat) : HeapProgram σ (Option (Nat × Nat)) := do
  let heap ← heapNow
  if heap.heapInitialized = false then Program.panic "kmalloc called before heap_init"
  else if size = 0 then pure none
  else if size > 0xFFFFFFFF - (heapAlignment - 1) then Program.panic "kmalloc request too large"
  else
    let wanted := alignUpSize size heapAlignment
    if wanted > 0xFFFFFFFF then Program.panic "kmalloc request too large"
    else do
      let block ← kmallocFind layer wanted
      pure (some (block, wanted))

/-- The two steps in a row are `kmalloc`. -/
theorem kmalloc_eq_steps (layer : PageLayer σ) (size : Nat) (state : HeapSystem σ) :
    kmalloc layer size state = (kmallocStart layer size state).andThen fun found =>
      match found with
      | none => pure 0
      | some (block, wanted) => kmallocTake block wanted := by
  simp only [kmalloc, kmallocStart, bind_apply, heapNow, andThen_done, ite_run]
  split
  · rfl
  · split
    · rfl
    · split
      · rfl
      · split
        · rfl
        · cases kmallocFind layer (alignUpSize size heapAlignment) state <;> rfl

/-- The first step finds a free block that is large enough, unless nothing was asked for. -/
theorem kmalloc_start_sat {size : Nat}
    (gives : ∀ count, 4096 * count ≤ size + 4126 → RegionGives layer pages count invariant)
    (con : Consistent heap blocks) (holds : invariant pages) :
    (kmallocStart layer size ⟨heap, pages⟩).Sat fun found next => invariant next.pages ∧
      match found with
      | none => size = 0 ∧ next.heap = heap
      | some (addr, wanted) => size ≠ 0 ∧ size ≤ wanted ∧ wanted % 8 = 0 ∧
        ∃ left block right, Grown heap next.heap blocks (left ++ block :: right) ∧
          addr = block.addr ∧ block.free = true ∧ wanted ≤ block.size := by
  simp only [kmallocStart, bind_apply, heapNow_apply, andThen_done, con.initialized,
    Bool.true_eq_false, ↓reduceIte, ite_run]
  split
  · rename_i empty
    exact ⟨holds, empty, rfl⟩
  · rename_i notEmpty
    split
    · trivial
    · rename_i small
      simp only [heapAlignment, Nat.not_lt] at small
      obtain ⟨whole, enough, bounded⟩ := align_request size small
      have fitsWord : ¬ alignUpSize size heapAlignment > 0xFFFFFFFF := by omega
      simp only [fitsWord, ↓reduceIte]
      refine (kmalloc_find_sat (fun count _ => gives count (by omega)) con holds).andThen ?_
      rintro addr next ⟨holds', found⟩
      exact ⟨holds', notEmpty, enough, whole, found⟩

/-- `kmalloc` returns null for an empty request and changes nothing; otherwise it
returns the payload of a new used block. -/
theorem kmalloc_sat {size : Nat}
    (gives : ∀ count, 4096 * count ≤ size + 4126 → RegionGives layer pages count invariant)
    (con : Consistent heap blocks) (holds : invariant pages) :
    (kmalloc layer size ⟨heap, pages⟩).Sat fun ptr next => invariant next.pages ∧
      if size = 0 then ptr = 0 ∧ next.heap = heap
      else ptr ≠ 0 ∧ ∃ blocks', Allocated heap next.heap blocks blocks' ptr size := by
  rw [kmalloc_eq_steps]
  refine (kmalloc_start_sat gives con holds).andThen ?_
  rintro (_ | ⟨addr, wanted⟩) ⟨heap', pages'⟩ ⟨holds', found⟩
  · obtain ⟨rfl, same⟩ := found
    exact ⟨holds', rfl, same⟩
  · obtain ⟨notEmpty, enough, whole, left, block, right, grown, rfl, free, fits⟩ := found
    obtain ⟨heap'', blocks'', run, allocated⟩ := grown.allocate con.toRepresents wanted size pages'
      free fits whole enough
    simp only [run, sat_done, notEmpty, ↓reduceIte]
    exact ⟨holds', by omega, blocks'', allocated⟩

/-- Bytes of a used payload are the client's: writing them keeps the heap
consistent. -/
theorem Consistent.write_payload (con : Consistent heap blocks) (memory : Memory)
    (outside : ∀ x, InHeader blocks x → memory.byte x = heap.memory.byte x) :
    Consistent { heap with memory := memory } blocks :=
  ⟨con.toRepresents.transport rfl rfl rfl rfl outside, con.initialized, con.coalesced, con.region,
    con.pages, con.active⟩

/-- `kcalloc` is `kmalloc` of the product, which does not overflow, with every
byte of the request zeroed. -/
theorem kcalloc_sat (gives : ∀ pageCount, RegionGives layer pages pageCount invariant)
    (con : Consistent heap blocks) (holds : invariant pages) (count size : Nat) :
    (kcalloc layer count size ⟨heap, pages⟩).Sat fun ptr next => invariant next.pages ∧
      if count * size = 0 then ptr = 0 ∧ next.heap = heap
      else ptr ≠ 0 ∧ ∃ blocks', Allocated heap next.heap blocks blocks' ptr (count * size) ∧
        ∀ x, ptr ≤ x → x < ptr + count * size → next.heap.memory.byte x = 0 := by
  simp only [kcalloc, ite_run]
  split
  · trivial
  · rename_i noOverflow
    have total : count * size % 2 ^ 32 = count * size := by
      rcases Nat.eq_zero_or_pos count with rfl | positive
      · simp
      · have small : size ≤ 0xFFFFFFFF / count := by
          by_contra large
          exact noOverflow ⟨by omega, by omega⟩
        have product := (Nat.le_div_iff_mul_le positive).mp small
        rw [Nat.mul_comm] at product
        omega
    simp only [bind_apply, total]
    refine (kmalloc_sat (fun pageCount _ => gives pageCount) con holds).andThen ?_
    rintro ptr ⟨heap', pages'⟩ ⟨holds', result⟩
    by_cases empty : count * size = 0
    · simp only [empty, ↓reduceIte] at result ⊢
      obtain ⟨rfl, same⟩ := result
      simp only [ne_eq, not_true_eq_false, ↓reduceIte, pure_apply, sat_done]
      exact ⟨holds', trivial, same⟩
    · simp only [empty, ↓reduceIte] at result ⊢
      obtain ⟨notNull, blocks', allocated⟩ := result
      obtain ⟨left, block, right, rfl, taken, rfl, enough, sameUsed⟩ := allocated.taken
      have con' := allocated.consistent
      have member : block ∈ left ++ block :: right := by simp
      simp only [ne_eq, notNull, not_false_eq_true, ↓reduceIte, bind_apply, store_apply,
        andThen_done, pure_apply, sat_done]
      refine ⟨holds', trivial, left ++ block :: right, ⟨?_, ⟨left, block, right, rfl, taken, rfl,
        enough, sameUsed⟩, allocated.further, ?_⟩, ?_⟩
      · refine con'.write_payload _ fun x header => Memory.fill_apply_outside _ _ _ _ _ ?_
        by_contra inside
        refine con'.payload_outside member ⟨?_, ?_⟩ header
        · omega
        · simp only [Block.stop]
          omega
      · intro other isUsed x inside
        rw [Memory.fill_apply_outside _ _ _ _ _ ?_]
        · exact allocated.payloads other isUsed x inside
        · have otherUsed : other ∈ used left ++ used right := sameUsed ▸ isUsed
          have separate : other.stop ≤ block.addr ∨ block.stop ≤ other.addr := by
            obtain ⟨before, after⟩ := con'.before_cut
            rcases List.mem_append.mp otherUsed with front | behind
            · exact Or.inl (before other (mem_of_used front).1)
            · exact Or.inr (after other (mem_of_used behind).1)
          obtain ⟨low, high⟩ := inside
          simp only [Block.stop] at separate high
          omega
      · intro x low high
        exact Memory.fill_apply_inside _ _ _ _ _ low high

/-! ## Taking a block back -/

/-- `kfree` of a used block frees exactly it. It marks the block as free and apart from this
writes sizes and links only, so that the mark stays when the block is merged.

Proof: the state word is set, then the join law merges the block with its free
neighbours. -/
theorem kfree_exact (pages : σ) (con : Consistent heap (left ++ block :: right))
    (taken : block.free = false) (nonempty : 0 < block.size) :
    ∃ heap' blocks', kfree (block.addr + 24) ⟨heap, pages⟩ = .done ⟨⟩ ⟨heap', pages⟩ ∧
      Consistent heap' blocks' ∧ used blocks' = used left ++ used right ∧
      heap'.heapVirtualNext = heap.heapVirtualNext ∧ blockIsFree heap'.memory block.addr = 1 ∧
      (∀ found ∈ blocks', ∃ other ∈ left ++ block :: right, other.addr = found.addr) ∧
      ∀ x, ¬ InJoint (left ++ block :: right) x → x < block.addr + 8 ∨ block.addr + 12 ≤ x →
        heap'.memory.byte x = heap.memory.byte x := by
  have member : block ∈ left ++ block :: right := by simp
  have bounds := con.bounds member
  have header := con.headers block member
  have base := con.base
  have active := con.active
  simp only [Block.stop, heapVirtualBaseAddress] at bounds base
  rw [used_append, used_cons_taken taken, List.length_append, List.length_cons] at active
  have inRegion : ptrIsInsideHeapRegion heap (block.addr + 24) = true := by
    have low : heap.heapVirtualBase ≤ block.addr + 24 := by omega
    have high : block.addr + 24 < heap.heapVirtualNext := by omega
    simp [ptrIsInsideHeapRegion, low, high]
  have blockAddr : block.addr + 24 - heapHeaderSize = block.addr := by
    rw [header_size_eq]
    omega
  have counted : heap.heapActiveAllocations > 0 := by omega
  obtain ⟨lower, lowerEq⟩ : ∃ lower : HeapState, lower = { heap with
      memory := setIsFree heap.memory block.addr 1
      heapActiveAllocations := heap.heapActiveAllocations - 1 } := ⟨_, rfl⟩
  have freed : Represents lower (left ++ { block with free := true } :: right) := by
    subst lowerEq
    exact (con.toRepresents.set_free true).transport rfl rfl rfl rfl fun _ _ => rfl
  obtain ⟨front, behind, -⟩ := List.isChain_append.mp con.coalesced
  obtain ⟨memory, blocks', joined, run, rep, coalesced, sameUsed, -, -, -, starts, kept⟩ :=
    coalesce_around_exact pages freed rfl front behind.tail
  have sameStarts : ∀ other ∈ left ++ { block with free := true } :: right,
      ∃ found ∈ left ++ block :: right, found.addr = other.addr := by
    intro other listed
    simp only [List.mem_append, List.mem_cons] at listed
    rcases listed with before | rfl | after
    · exact ⟨other, by simp [before], rfl⟩
    · exact ⟨block, member, rfl⟩
    · exact ⟨other, by simp [after], rfl⟩
  have kept' : ∀ x, ¬ InJoint (left ++ block :: right) x → memory.byte x = lower.memory.byte x := by
    intro x outside
    refine kept x ?_
    rintro ⟨other, listed, words⟩
    obtain ⟨found, isListed, same⟩ := sameStarts other listed
    exact outside ⟨found, isListed, same ▸ words⟩
  refine ⟨{ lower with memory := memory }, blocks', ?_, ⟨rep, ?_, coalesced, ?_, ?_, ?_⟩, sameUsed,
    ?_, ?_, ?_, ?_⟩
  · have notNull : block.addr + 24 ≠ 0 := by omega
    simp only at run
    simp only [kfree, notNull, ↓reduceIte, bind_apply, heapNow_apply, andThen_done,
      inRegion, Bool.true_eq_false, blockAddr, con.toRepresents.validate member, header.isFree,
      taken, Bool.false_eq_true, ne_eq, not_true_eq_false, store_apply, setHeap_apply, counted,
      ← lowerEq, run, pure_apply]
  · subst lowerEq
    exact con.initialized
  · subst lowerEq
    exact con.region
  · subst lowerEq
    exact con.pages
  · subst lowerEq
    rw [sameUsed, List.length_append]
    simp only
    omega
  · subst lowerEq
    rfl
  · have mark : blockIsFree memory block.addr = blockIsFree lower.memory block.addr := by
      refine Memory.read32_congr fun x low high => kept' x ?_
      rintro ⟨other, listed, words⟩
      rcases con.tiled.separated member listed with rfl | before | after
      · omega
      · simp only [Block.stop] at before
        omega
      · simp only [Block.stop] at after
        omega
    have stored : blockIsFree lower.memory block.addr = 1 := by
      subst lowerEq
      exact Memory.read32_write32 _ _ _ (by omega)
    exact mark.trans stored
  · intro found listed
    obtain ⟨other, isListed, same⟩ := starts found listed
    obtain ⟨first, isFirst, same'⟩ := sameStarts other isListed
    exact ⟨first, isFirst, same'.trans same⟩
  · intro x outside notMark
    refine (kept' x outside).trans ?_
    subst lowerEq
    exact Memory.write32_apply_outside _ _ _ _ (by omega)

/-! ## Starting the heap -/

/-- The statistics walk over a represented list returns and changes nothing. -/
theorem compute_stats_from (fuel : Nat) (left right : List Block) (stats : HeapStats) (pages : σ)
    (rep : Represents heap (left ++ right)) (enough : right.length < fuel) :
    ∃ figures, heapComputeStatsFrom fuel ((right.map Block.addr).headD 0) stats ⟨heap, pages⟩ =
      .done figures ⟨heap, pages⟩ := by
  induction right generalizing left fuel stats with
  | nil =>
    obtain ⟨fuel, rfl⟩ := Nat.exists_eq_succ_of_ne_zero (Nat.ne_of_gt enough)
    exact ⟨stats, by simp [heapComputeStatsFrom]⟩
  | cons block rest ih =>
    rw [List.length_cons] at enough
    obtain ⟨fuel, rfl⟩ := Nat.exists_eq_succ_of_ne_zero (by omega : fuel ≠ 0)
    have member : block ∈ left ++ block :: rest := by simp
    have notNull := rep.not_null member
    have shifted : Represents heap ((left ++ [block]) ++ rest) := by simpa using rep
    simp only [List.map_cons, List.headD_cons, heapComputeStatsFrom, notNull, ↓reduceIte,
      bind_apply, rep.validate member, andThen_done, heapNow_apply, rep.links.2]
    exact ih fuel (left ++ [block]) _ shifted (by omega)

/-- The variables after the first assignments of `heap_init` describe an empty
heap. -/
theorem started_consistent (memory : Memory) :
    Consistent ⟨memory, 0, true, heapVirtualBaseAddress, heapVirtualBaseAddress,
      heapVirtualLimitAddress, 0, 0, 0, 0⟩ [] := by
  have window : heapVirtualBaseAddress ≤ heapVirtualLimitAddress := by decide
  refine ⟨⟨trivial, rfl, by simp, rfl, by simp, rfl, rfl, window⟩, rfl, List.IsChain.nil, ?_, rfl,
    rfl⟩
  exact (Nat.sub_self _).symm

/-- `heap_init` returns with one consistent, nonempty region and nothing handed
out. -/
theorem heap_init_sat {initialPages : Nat} (gives : RegionGives layer pages initialPages invariant)
    (memory : Memory) (atLeastOne : 0 < initialPages) (bounded : initialPages < 2 ^ 20) :
    (heapInit layer initialPages ⟨HeapState.boot memory, pages⟩).Sat fun _ next =>
      invariant next.pages ∧ ∃ blocks, Consistent next.heap blocks ∧ used blocks = [] ∧
        heapVirtualBaseAddress < next.heap.heapVirtualNext := by
  have notZero : initialPages ≠ 0 := by omega
  simp only [heapInit, bind_apply, heapNow_apply, andThen_done, HeapState.boot,
    Bool.false_eq_true, ↓reduceIte, setHeap_apply, notZero]
  refine (heap_add_region_sat gives (started_consistent memory) atLeastOne bounded).andThen ?_
  rintro block ⟨heap', pages'⟩ ⟨blocks, grown, result⟩
  rw [ite_run]
  split
  · trivial
  · rename_i reported
    obtain ⟨holds', larger, -⟩ := result reported
    obtain ⟨figures, walk⟩ := compute_stats_from walkBound [] blocks ⟨0, 0, 0⟩ pages'
      grown.consistent.toRepresents grown.consistent.short
    have head : heap'.heapHead = (blocks.map Block.addr).headD 0 := grown.consistent.head
    have whole : heapComputeStats ⟨heap', pages'⟩ = .done figures ⟨heap', pages'⟩ := by
      rw [← walk, ← head]
      rfl
    simp only [bind_apply, whole, andThen_done, pure_apply, sat_done]
    exact ⟨holds', blocks, grown.consistent, grown.sameUsed, larger⟩

end Toyix.Heap
