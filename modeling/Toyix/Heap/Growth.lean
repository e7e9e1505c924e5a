import Toyix.Heap.Operations

/-!
# Growing the heap

The heap grows by mapping fresh pages right after the region it already has. A
failed attempt takes its pages back and changes nothing the block list is read
from; a successful one appends one free block and joins it with a free block
before it.

The laws are stated for every page layer. What a layer guarantees about its own
state enters as a predicate that holds once a part of the heap window is mapped
(`RegionGives`), so the same laws serve a layer that may fail at any call and
the kernel's own frame allocator and page tables.
-/

namespace Toyix.Heap

open Library Library.Links

variable {σ : Type} {layer : PageLayer σ} {invariant : σ → Prop} {heap : HeapState}
  {blocks : List Block} {pages : σ} {pageCount : Nat}

/-- The variables and the block list agree, and the statistics count what the
list holds. -/
structure Consistent (heap : HeapState) (blocks : List Block) : Prop extends
    Represents heap blocks where
  initialized : heap.heapInitialized = true
  coalesced : Coalesced blocks
  region : heap.heapRegionBytes = heap.heapVirtualNext - heap.heapVirtualBase
  pages : heap.heapRegionBytes = 4096 * heap.heapMappedPages
  active : heap.heapActiveAllocations = (used blocks).length

/-- A property that the page layer has once a number of pages is mapped in the heap window. -/
def RegionGives (layer : PageLayer σ) (pages : σ) (count : Nat) (invariant : σ → Prop) : Prop :=
  ∀ (start : Nat) (heap : HeapState), start % 4096 = 0 → heapVirtualBaseAddress ≤ start →
    start + 4096 * count ≤ heapVirtualLimitAddress →
    (heapMapVirtualRegion layer start count ⟨heap, pages⟩).Sat fun value next =>
      value = 0 → invariant next.pages

theorem RegionGives.and {count : Nat} {other : σ → Prop}
    (one : RegionGives layer pages count invariant) (two : RegionGives layer pages count other) :
    RegionGives layer pages count fun pages => invariant pages ∧ other pages :=
  fun start heap aligned low high => ((one start heap aligned low high).and
    (two start heap aligned low high)).mono fun _ _ both zero => ⟨both.1 zero, both.2 zero⟩

/-! ## Mapping pages -/

/-- Taking pages back does not touch the allocator. -/
theorem unmap_region_heap (layer : PageLayer σ) (start remaining i : Nat) (heap : HeapState) (pages : σ) :
    (heapUnmapVirtualRegionFrom layer start remaining i ⟨heap, pages⟩).Sat
      fun _ next => next.heap = heap := by
  induction remaining generalizing i pages with
  | zero => rfl
  | succ remaining ih =>
    simp only [heapUnmapVirtualRegionFrom, bind_apply, callPages_apply, andThen_done, ite_run]
    split
    · simp only [callFreePage]
      cases layer.pmmFreePage _ _ with
      | error message => trivial
      | ok next => exact ih (i + 1) next
    · exact ih (i + 1) pages

/-- Rolling a region back and reporting failure leaves the allocator as it is. -/
theorem rollback_heap (layer : PageLayer σ) (start count : Nat) (heap : HeapState) (pages : σ) :
    (((heapUnmapVirtualRegion layer start count >>= fun _ => pure (-1)) :
      HeapProgram σ Int) ⟨heap, pages⟩).Sat fun _ next => next.heap = heap :=
  sat_bind (unmap_region_heap layer start count 0 heap pages) fun _ _ same => same

/-- Mapping pages changes no variable of the allocator, and no byte outside the
pages mapped. -/
theorem map_region_from_heap (layer : PageLayer σ) (start remaining i : Nat) (heap : HeapState) (pages : σ)
    (bounded : start + 4096 * (i + remaining) ≤ 2 ^ 32) :
    (heapMapVirtualRegionFrom layer start remaining i ⟨heap, pages⟩).Sat fun _ next =>
      ∃ memory, next.heap = { heap with memory := memory } ∧
        ∀ x, x < start ∨ start + 4096 * (i + remaining) ≤ x →
          memory.byte x = heap.memory.byte x := by
  induction remaining generalizing i heap pages with
  | zero => exact ⟨heap.memory, rfl, fun _ _ => rfl⟩
  | succ remaining ih =>
    have room : start + 4096 * (i + 1 + remaining) ≤ 2 ^ 32 := by omega
    have vaddr : (start + i * pmmPageSize) % 2 ^ 32 = start + 4096 * i := by
      simp only [pmmPageSize]
      omega
    have unchanged : ∀ (value : Int) (next : HeapSystem σ), next.heap = heap →
        ∃ memory, next.heap = { heap with memory := memory } ∧
          ∀ x, x < start ∨ start + 4096 * (i + (remaining + 1)) ≤ x →
            memory.byte x = heap.memory.byte x :=
      fun value next same => ⟨heap.memory, same, fun _ _ => rfl⟩
    simp only [heapMapVirtualRegionFrom, bind_apply, callPages_apply, andThen_done, ite_run, vaddr]
    split
    · exact (rollback_heap layer start i heap _).mono unchanged
    · split
      · simp only [callFreePage]
        cases layer.pmmFreePage _ _ with
        | error message => trivial
        | ok next => exact (rollback_heap layer start i heap _).mono unchanged
      · split
        · trivial
        · rw [store_apply, andThen_done]
          refine (ih (i + 1) _ _ room).mono ?_
          rintro value next ⟨memory, same, kept⟩
          refine ⟨memory, same, fun x outside => ?_⟩
          have beyond : x < start ∨ start + 4096 * (i + 1 + remaining) ≤ x := by
            omega
          have thisPage : x < start + 4096 * i ∨ start + 4096 * i + pmmPageSize ≤ x := by
            simp only [pmmPageSize]
            omega
          rw [kept x beyond]
          exact Memory.fill_apply_outside _ _ _ _ _ thisPage

/-- The address of a page of a region. -/
def regionPage (start i : Nat) : Nat := (start + i * pmmPageSize) % 2 ^ 32

/-- What the pages satisfy while a region is mapped: `mapped i` once `i` pages are mapped, `holding i
page` while a page is about to be mapped behind them, and `undone j i` once `j` of `i` pages have been
taken back. -/
structure RegionRule (layer : PageLayer σ) (start count : Nat) (mapped : Nat → σ → Prop)
    (holding : Nat → Nat → σ → Prop) (undone : Nat → Nat → σ → Prop) : Prop where
  exhausted : ∀ i < count, ∀ pages, mapped i pages →
    (layer.pmmAllocPage pages).1 = pmmInvalidPage → undone 0 i (layer.pmmAllocPage pages).2
  taken : ∀ i < count, ∀ pages, mapped i pages → (layer.pmmAllocPage pages).1 ≠ pmmInvalidPage →
    holding i (layer.pmmAllocPage pages).1 (layer.pmmAllocPage pages).2
  map : ∀ i < count, ∀ page pages, holding i page pages →
    let after := layer.vmemMapPage (regionPage start i) page vmemFlagWritable pages
    after.1 = vmemOk → layer.pageWritable (regionPage start i) after.2 = true → mapped (i + 1) after.2
  refuse : ∀ i < count, ∀ page pages, holding i page pages →
    let after := layer.vmemMapPage (regionPage start i) page vmemFlagWritable pages
    after.1 ≠ vmemOk → ∃ next, layer.pmmFreePage page after.2 = .ok next ∧ undone 0 i next
  skip : ∀ i < count, ∀ j < i, ∀ pages, undone j i pages →
    layer.vmemGetPhysical (regionPage start j) pages = 0 → undone (j + 1) i pages
  unmap : ∀ i < count, ∀ j < i, ∀ pages, undone j i pages →
    layer.vmemGetPhysical (regionPage start j) pages ≠ 0 →
    ∃ next, layer.pmmFreePage (alignDownPage (layer.vmemGetPhysical (regionPage start j) pages))
      (layer.vmemUnmapPage (regionPage start j) pages).2 = .ok next ∧ undone (j + 1) i next

section Rule

variable {start count : Nat} {mapped : Nat → σ → Prop} {holding undone : Nat → Nat → σ → Prop}

/-- Taking pages back one after the other. -/
theorem RegionRule.unmap_from (rule : RegionRule layer start count mapped holding undone) {i : Nat}
    (inside : i < count) (remaining j : Nat) (whole : j + remaining = i) (heap : HeapState) (pages : σ)
    (holds : undone j i pages) :
    ∃ next, heapUnmapVirtualRegionFrom layer start remaining j ⟨heap, pages⟩ = .done ⟨⟩ next ∧
      undone i i next.pages := by
  induction remaining generalizing j pages with
  | zero =>
    obtain rfl : j = i := whole
    exact ⟨_, rfl, holds⟩
  | succ remaining ih =>
    have vaddr : (start + j * pmmPageSize) % 2 ^ 32 = regionPage start j := rfl
    simp only [heapUnmapVirtualRegionFrom, bind_apply, callPages_apply, andThen_done, ite_run, vaddr]
    by_cases absent : layer.vmemGetPhysical (regionPage start j) pages = 0
    · rw [if_neg (not_not_intro absent)]
      exact ih (j + 1) (by omega) pages (rule.skip i inside j (by omega) pages holds absent)
    · obtain ⟨next, freed, holds'⟩ := rule.unmap i inside j (by omega) pages holds absent
      rw [if_pos absent]
      simp only [callFreePage, freed, andThen_done]
      exact ih (j + 1) (by omega) next holds'

/-- The ways in which the mapping of a region ends: all pages are mapped, or all mapped pages are taken
back, or a page that was mapped without an error is not there. -/
inductive RegionEnd (layer : PageLayer σ) (start count : Nat) (mapped : Nat → σ → Prop)
    (holding undone : Nat → Nat → σ → Prop) : Outcome (HeapSystem σ) Int → Prop where
  | grown {next : HeapSystem σ} (holds : mapped count next.pages) :
      RegionEnd layer start count mapped holding undone (.done 0 next)
  | refused {value : Int} {next : HeapSystem σ} {i : Nat} (notZero : value ≠ 0) (inside : i < count)
      (holds : undone i i next.pages) : RegionEnd layer start count mapped holding undone (.done value next)
  | fault {message : String} {next : HeapSystem σ} {i page : Nat} {pages : σ} (inside : i < count)
      (holds : holding i page pages)
      (accepted : (layer.vmemMapPage (regionPage start i) page vmemFlagWritable pages).1 = vmemOk)
      (closed : layer.pageWritable (regionPage start i)
        (layer.vmemMapPage (regionPage start i) page vmemFlagWritable pages).2 = false) :
      RegionEnd layer start count mapped holding undone (.panicked message next)

section RegionRule

variable (rule : RegionRule layer start count mapped holding undone)

include rule

/-- Rolling back and reporting failure. -/
theorem RegionRule.rollback {i : Nat} (inside : i < count) (heap : HeapState) (pages : σ)
    (holds : undone 0 i pages) :
    RegionEnd layer start count mapped holding undone
      (((heapUnmapVirtualRegion layer start i >>= fun _ => pure (-1)) :
        HeapProgram σ Int) ⟨heap, pages⟩) := by
  obtain ⟨next, ran, undid⟩ := rule.unmap_from inside i 0 (Nat.zero_add i) heap pages holds
  have ran : heapUnmapVirtualRegion layer start i ⟨heap, pages⟩ = .done ⟨⟩ next := ran
  rw [bind_done ran]
  exact .refused (by decide) inside undid

/-- Mapping a region, page after page.

Proof: by induction on the pages that are left. -/
theorem RegionRule.map_from (remaining i : Nat) (whole : i + remaining = count) (heap : HeapState)
    (pages : σ) (holds : mapped i pages) :
    RegionEnd layer start count mapped holding undone
      (heapMapVirtualRegionFrom layer start remaining i ⟨heap, pages⟩) := by
  induction remaining generalizing i heap pages with
  | zero =>
    obtain rfl : i = count := whole
    exact .grown holds
  | succ remaining ih =>
    have inside : i < count := by omega
    have vaddr : (start + i * pmmPageSize) % 2 ^ 32 = regionPage start i := rfl
    simp only [heapMapVirtualRegionFrom, bind_apply, callPages_apply, andThen_done, ite_run, vaddr]
    by_cases exhausted : (layer.pmmAllocPage pages).1 = pmmInvalidPage
    · rw [if_pos exhausted]
      exact rule.rollback inside heap _ (rule.exhausted i inside pages holds exhausted)
    · have holding := rule.taken i inside pages holds exhausted
      rw [if_neg exhausted]
      by_cases accepted : (layer.vmemMapPage (regionPage start i) (layer.pmmAllocPage pages).1
          vmemFlagWritable (layer.pmmAllocPage pages).2).1 = vmemOk
      · rw [if_neg (not_not_intro accepted)]
        split
        · rename_i closed
          exact .fault inside holding accepted closed
        · rename_i writable
          refine ih (i + 1) (by omega) _ _ (rule.map i inside _ _ holding accepted ?_)
          exact Bool.of_not_eq_false writable
      · obtain ⟨next, freed, holds'⟩ := rule.refuse i inside _ _ holding accepted
        rw [if_pos accepted]
        simp only [callFreePage, freed, andThen_done]
        exact rule.rollback inside heap next holds'

theorem RegionRule.map_region (heap : HeapState) (holds : mapped 0 pages) :
    RegionEnd layer start count mapped holding undone
      (heapMapVirtualRegion layer start count ⟨heap, pages⟩) :=
  rule.map_from count 0 (Nat.zero_add count) heap pages holds

end RegionRule

end Rule

/-- Mapping a region gives the layer its property, and keeps the allocator's variables and
every byte outside the region. -/
theorem map_region_sat {count : Nat} (gives : RegionGives layer pages count invariant) (start : Nat)
    (heap : HeapState) (aligned : start % 4096 = 0) (low : heapVirtualBaseAddress ≤ start)
    (high : start + 4096 * count ≤ heapVirtualLimitAddress) :
    (heapMapVirtualRegion layer start count ⟨heap, pages⟩).Sat fun value next =>
      (value = 0 → invariant next.pages) ∧ ∃ memory, next.heap = { heap with memory := memory } ∧
        ∀ x, x < start ∨ start + 4096 * count ≤ x → memory.byte x = heap.memory.byte x := by
  refine (gives start heap aligned low high).and ?_
  have mapped := map_region_from_heap layer start count 0 heap pages
  simp only [Nat.zero_add] at mapped
  refine mapped ?_
  simp only [heapVirtualLimitAddress] at high
  omega

/-! ## Inserting the new block -/

/-- The search for the insertion point passes every block below the new one. -/
theorem insertion_point_end (newBlock fuel before : Nat) (nodes : List Nat) (pages : σ)
    (linked : Linked (blockNext heap.memory) (blockPrev heap.memory) before 0 nodes)
    (below : ∀ node ∈ nodes, node ≠ 0 ∧ node < newBlock) (enough : nodes.length < fuel) :
    insertionPoint newBlock fuel (nodes.headD 0) ⟨heap, pages⟩ = .done 0 ⟨heap, pages⟩ := by
  induction nodes generalizing before fuel with
  | nil =>
    obtain ⟨fuel, rfl⟩ := Nat.exists_eq_succ_of_ne_zero (Nat.ne_of_gt enough)
    simp [insertionPoint]
  | cons node rest ih =>
    rw [List.length_cons] at enough
    obtain ⟨fuel, rfl⟩ := Nat.exists_eq_succ_of_ne_zero (by omega : fuel ≠ 0)
    obtain ⟨-, forward, tail⟩ := linked
    have position := below node List.mem_cons_self
    have later := ih fuel node tail
      (fun other member => below other (List.mem_cons_of_mem node member)) (by omega)
    simp only [List.headD_cons, insertionPoint, bind_apply, heapNow_apply, andThen_done, ne_eq,
      position.1, not_false_eq_true, position.2, and_self, ↓reduceIte, forward, later]

/-- Following forward links ends at the last block. -/
theorem tail_block_exact (fuel before node : Nat) (rest : List Nat) (pages : σ)
    (linked : Linked (blockNext heap.memory) (blockPrev heap.memory) before 0 (node :: rest))
    (present : ∀ other ∈ rest, other ≠ 0) (enough : rest.length < fuel) :
    tailBlock fuel node ⟨heap, pages⟩ = .done (rest.getLastD node) ⟨heap, pages⟩ := by
  induction rest generalizing before node fuel with
  | nil =>
    obtain ⟨fuel, rfl⟩ := Nat.exists_eq_succ_of_ne_zero (Nat.ne_of_gt enough)
    obtain ⟨-, forward, -⟩ := linked
    simp only [List.headD_nil] at forward
    simp [tailBlock, forward]
  | cons other more ih =>
    rw [List.length_cons] at enough
    obtain ⟨fuel, rfl⟩ := Nat.exists_eq_succ_of_ne_zero (by omega : fuel ≠ 0)
    obtain ⟨-, forward, tail⟩ := linked
    have later := ih fuel node other tail
      (fun found member => present found (List.mem_cons_of_mem other member)) (by omega)
    simp only [List.headD_cons] at forward
    simp only [tailBlock, bind_apply, heapNow_apply, andThen_done, forward, ne_eq,
      present other List.mem_cons_self, not_false_eq_true, ↓reduceIte, later, List.getLastD_cons]

/-- The memory after a block is linked behind `tail`; a null tail stands for the
empty list. -/
def appendMemory (memory : Memory) (tail newBlock : Nat) : Memory :=
  setNext (setPrev (if tail = 0 then memory else setNext memory tail newBlock) newBlock tail)
    newBlock 0

/-- `insert_block_sorted` links a block above all others behind the last one. -/
theorem insert_last (heap : HeapState) (newBlock : Nat) (nodes : List Nat) (pages : σ)
    (linked : Linked (blockNext heap.memory) (blockPrev heap.memory) 0 0 nodes)
    (head : heap.heapHead = nodes.headD 0) (below : ∀ node ∈ nodes, node ≠ 0 ∧ node < newBlock)
    (short : nodes.length < walkBound)
    (valid : validateBlock newBlock ⟨heap, pages⟩ = .done ⟨⟩ ⟨heap, pages⟩) :
    insertBlockSorted newBlock ⟨heap, pages⟩ = .done ⟨⟩ ⟨{ heap with
      heapHead := nodes.headD newBlock
      memory := appendMemory heap.memory (nodes.getLastD 0) newBlock }, pages⟩ := by
  cases nodes with
  | nil =>
    have empty : heap.heapHead = 0 := head
    simp [insertBlockSorted, valid, empty, appendMemory]
  | cons node rest =>
    have headIs : heap.heapHead = node := head
    have notNull := (below node List.mem_cons_self).1
    have point := insertion_point_end newBlock walkBound 0 (node :: rest) pages linked below short
    have last := tail_block_exact walkBound 0 node rest pages linked
      (fun other member => (below other (List.mem_cons_of_mem node member)).1)
      (by rw [List.length_cons] at short; omega)
    have lastNotNull : rest.getLastD node ≠ 0 := (below _ List.getLastD_mem_cons).1
    rw [List.headD_cons] at point
    simp only [insertBlockSorted, bind_apply, valid, andThen_done, heapNow_apply,
      headIs, notNull, ↓reduceIte, point, last, Ne.symm notNull, store_apply, appendMemory,
      List.getLastD_cons, lastNotNull, List.headD_cons]

/-- The header words `heap_add_region` writes at the start of a fresh region. -/
def freshMemory (memory : Memory) (start size : Nat) : Memory :=
  setPrev (setNext (setReserved (setIsFree (setSize (setMagic memory start heapMagic) start size)
    start 1) start 0) start 0) start 0

/-- Linking a fresh block writes its header and one forward link. -/
theorem append_fresh_kept (memory : Memory) (tail start size x : Nat)
    (notNew : x < start ∨ start + 24 ≤ x)
    (notTail : tail = 0 ∨ x < tail + 16 ∨ tail + 20 ≤ x) :
    (appendMemory (freshMemory memory start size) tail start).byte x = memory.byte x := by
  simp only [appendMemory, freshMemory, setMagic, setSize, setIsFree, setReserved, setPrev, setNext]
  split
  · simp (disch := omega) only [Memory.write32_apply_outside]
  · simp (disch := omega) only [Memory.write32_apply_outside]

/-- The header of a fresh block and the link to it are read back. -/
theorem append_fresh_reads (memory : Memory) (tail start size : Nat) (behind : tail + 24 ≤ start)
    (bounded : start < 2 ^ 32) (sizeBounded : size < 2 ^ 32) :
    let after := appendMemory (freshMemory memory start size) tail start
    blockMagic after start = heapMagic ∧ blockSize after start = size ∧
      blockIsFree after start = 1 ∧ blockNext after start = 0 ∧ blockPrev after start = tail ∧
      (tail ≠ 0 → blockNext after tail = start) := by
  have magic : heapMagic < 2 ^ 32 := by decide
  simp only [appendMemory, freshMemory, blockMagic, blockSize, blockIsFree, blockNext, blockPrev,
    setMagic, setSize, setIsFree, setReserved, setPrev, setNext]
  by_cases first : tail = 0
  · subst first
    simp only [ne_eq, not_true_eq_false, ↓reduceIte]
    simp (disch := omega) only [Memory.read32_write32_of_disjoint, Memory.read32_write32,
      and_self, false_implies]
  · simp only [first, ne_eq, not_false_eq_true, ↓reduceIte]
    simp (disch := omega) only [Memory.read32_write32_of_disjoint, Memory.read32_write32,
      and_self, true_implies]

/-- The allocator after a fresh region of `bytes` bytes has been counted and its
block linked, before it is joined with the block in front. -/
def extendedHeap (heap : HeapState) (blocks : List Block) (memory : Memory) (bytes pageCount : Nat) :
    HeapState :=
  { heap with
    heapHead := (blocks.map Block.addr).headD heap.heapVirtualNext
    heapVirtualNext := heap.heapVirtualNext + bytes
    heapRegionBytes := heap.heapRegionBytes + bytes
    heapMappedPages := heap.heapMappedPages + pageCount
    memory := appendMemory (freshMemory memory heap.heapVirtualNext (bytes - 24))
      ((blocks.map Block.addr).getLastD 0) heap.heapVirtualNext }

/-- The extended heap holds the old blocks and one free block over the new pages.

Proof: the old headers lie below the region and are kept, except for the forward
link of the last one, which is the link to the new block. -/
theorem Represents.extend (rep : Represents heap blocks) (memory : Memory) (bytes pageCount : Nat)
    (kept : ∀ x, x < heap.heapVirtualNext → memory.byte x = heap.memory.byte x)
    (whole : bytes % 8 = 0) (large : 24 ≤ bytes)
    (room : heap.heapVirtualNext + bytes ≤ heapVirtualLimitAddress) :
    Represents (extendedHeap heap blocks memory bytes pageCount)
      (blocks ++ [⟨heap.heapVirtualNext, bytes - 24, true⟩]) := by
  obtain ⟨start, startEq⟩ : ∃ start, start = heap.heapVirtualNext := ⟨_, rfl⟩
  obtain ⟨tail, tailEq⟩ : ∃ tail, tail = (blocks.map Block.addr).getLastD 0 := ⟨_, rfl⟩
  have baseLow : 0xD1000000 ≤ start := by
    have low := rep.tiled.le
    rw [rep.base, ← startEq] at low
    exact low
  have roomy : start + bytes ≤ 0xD2000000 := by rwa [startEq]
  have inside : ∀ block ∈ blocks, 0xD1000000 ≤ block.addr ∧ block.addr + 24 ≤ start := by
    intro block member
    have bounds := rep.bounds member
    simp only [Block.stop, ← startEq] at bounds
    omega
  have behind : tail + 24 ≤ start := by
    have bounds : tail = 0 ∨ tail + 24 ≤ start :=
      last_or_null tailEq fun block isLast same => same ▸ (inside block (List.mem_of_getLast? isLast)).2
    omega
  obtain ⟨magic, size, free, forward, back, tailForward⟩ :=
    append_fresh_reads memory tail start (bytes - 24) behind (by omega) (by omega)
  have oldKept : ∀ x, x < start → (tail = 0 ∨ x < tail + 16 ∨ tail + 20 ≤ x) →
      (appendMemory (freshMemory memory start (bytes - 24)) tail start).byte x =
        heap.memory.byte x := by
    intro x low notTail
    rw [append_fresh_kept memory tail start (bytes - 24) x (Or.inl low) notTail]
    exact kept x (startEq ▸ low)
  -- The forward link of the last block is the only old word that changes.
  have spares : ∀ block ∈ blocks, ∀ x, block.addr ≤ x → x < block.addr + 24 →
      (x < block.addr + 16 ∨ block.addr + 20 ≤ x) → tail = 0 ∨ x < tail + 16 ∨ tail + 20 ≤ x := by
    intro block member x low high notLink
    refine last_or_null tailEq fun last isLast same => ?_
    rcases rep.tiled.separated member (List.mem_of_getLast? isLast) with rfl | before | after
    · omega
    · simp only [Block.stop] at before
      omega
    · simp only [Block.stop] at after
      omega
  simp only [extendedHeap, ← startEq, ← tailEq]
  refine ⟨?_, ?_, ?_, ?_, ?_, rep.base, rep.limit, ?_⟩
  · rw [List.map_append, List.map_singleton, linked_append]
    refine ⟨rep.linked.retarget_after ?_ ?_ ?_, ?_⟩
    · intro addr member
      have front : addr + 24 ≤ tail := by
        rw [← List.map_dropLast] at member
        obtain ⟨block, early, rfl⟩ := List.mem_map.mp member
        rcases List.eq_nil_or_concat blocks with rfl | ⟨others, last, rfl⟩
        · simp at early
        · simp only [List.concat_eq_append, List.dropLast_concat] at early
          have tiled := rep.tiled
          rw [List.concat_eq_append] at tiled
          obtain ⟨middle, before, touching, -⟩ := tiled_append.mp tiled
          have bounds := (before.bounds early).2
          have same := last_addr (show last ∈ (others.concat last).getLast? by simp)
          simp only [Block.stop] at bounds
          omega
      exact Memory.read32_congr fun x low high => oldKept x (by omega) (by omega)
    · intro addr member
      obtain ⟨block, listed, rfl⟩ := List.mem_map.mp member
      have bounds := inside block listed
      exact Memory.read32_congr fun x low high =>
        oldKept x (by omega) (spares block listed x (by omega) (by omega) (by omega))
    · intro addr isLast
      rw [List.getLast?_map] at isLast
      obtain ⟨block, last, rfl⟩ := Option.mem_map.mp isLast
      have bounds := inside block (List.mem_of_getLast? last)
      rw [← last_addr last, ← tailEq] at bounds ⊢
      exact tailForward (by omega)
    · exact ⟨back.trans tailEq, forward, trivial⟩
  · cases blocks <;> simp
  · intro block member
    rcases List.mem_append.mp member with old | new
    · have bounds := inside block old
      exact (rep.headers block old).congr fun x low high =>
        oldKept x (by omega) (spares block old x low (by omega) (by omega))
    · obtain rfl := List.mem_singleton.mp new
      exact ⟨magic, size, free⟩
  · refine tiled_append.mpr ⟨start, startEq ▸ rep.tiled, rfl, ?_⟩
    simp only [Block.stop, Tiled]
    omega
  · intro block member
    rcases List.mem_append.mp member with old | new
    · exact rep.multiple block old
    · obtain rfl := List.mem_singleton.mp new
      simp only
      omega
  · exact roomy

/-! ## Adding a region -/

/-- What every attempt to grow leaves behind: a consistent heap with the same used
blocks, whose payloads are untouched. -/
structure Grown (heap heap' : HeapState) (blocks blocks' : List Block) : Prop where
  consistent : Consistent heap' blocks'
  sameUsed : used blocks' = used blocks
  further : heap.heapVirtualNext ≤ heap'.heapVirtualNext
  kept : ∀ x, x < heap.heapVirtualNext → ¬ InHeader blocks x →
    heap'.memory.byte x = heap.memory.byte x

/-- A failed attempt: bytes at or above the end of the region may have changed. -/
theorem Grown.refused (con : Consistent heap blocks) (memory : Memory)
    (kept : ∀ x, x < heap.heapVirtualNext → memory.byte x = heap.memory.byte x) :
    Grown heap { heap with memory := memory } blocks blocks := by
  refine ⟨⟨?_, con.initialized, con.coalesced, con.region, con.pages, con.active⟩, rfl,
    Nat.le_refl _, fun x low _ => kept x low⟩
  refine con.toRepresents.transport rfl rfl rfl rfl ?_
  rintro x ⟨block, member, low, high⟩
  have inside := con.bounds member
  simp only [Block.stop] at inside
  exact kept x (by omega)

/-- The variables and the memory right before `insert_block_sorted`. -/
def countedHeap (heap : HeapState) (memory : Memory) (bytes pageCount : Nat) : HeapState :=
  { heap with
    heapVirtualNext := heap.heapVirtualNext + bytes
    heapRegionBytes := heap.heapRegionBytes + bytes
    heapMappedPages := heap.heapMappedPages + pageCount
    memory := freshMemory memory heap.heapVirtualNext (bytes - 24) }

/-- Inserting the block of a fresh region appends it to the list. -/
theorem insert_fresh (rep : Represents heap blocks) (memory : Memory) (bytes pageCount : Nat)
    (pages : σ) (kept : ∀ x, x < heap.heapVirtualNext → memory.byte x = heap.memory.byte x)
    (large : 24 ≤ bytes) (room : heap.heapVirtualNext + bytes ≤ heapVirtualLimitAddress) :
    insertBlockSorted heap.heapVirtualNext ⟨countedHeap heap memory bytes pageCount, pages⟩ =
      .done ⟨⟩ ⟨extendedHeap heap blocks memory bytes pageCount, pages⟩ := by
  have start := rep.tiled.le
  have base := rep.base
  have bound : heap.heapVirtualNext + 24 < 2 ^ 32 := by
    simp only [heapVirtualLimitAddress] at room
    omega
  simp only [heapVirtualBaseAddress] at base
  have below : ∀ node ∈ blocks.map Block.addr,
      node ≠ 0 ∧ node + 24 ≤ heap.heapVirtualNext := by
    intro node member
    obtain ⟨block, listed, rfl⟩ := List.mem_map.mp member
    have inside := rep.bounds listed
    simp only [Block.stop] at inside
    omega
  have freshKept : ∀ x, x < heap.heapVirtualNext →
      (freshMemory memory heap.heapVirtualNext (bytes - 24)).byte x = heap.memory.byte x := by
    intro x low
    simp only [freshMemory, setMagic, setSize, setIsFree, setReserved, setPrev, setNext]
    simp (disch := omega) only [Memory.write32_apply_outside]
    exact kept x low
  have stamped : blockMagic (freshMemory memory heap.heapVirtualNext (bytes - 24))
      heap.heapVirtualNext = heapMagic := by
    have magic : heapMagic < 2 ^ 32 := by decide
    simp only [freshMemory, blockMagic, setMagic, setSize, setIsFree, setReserved, setPrev, setNext]
    simp (disch := omega) only [Memory.read32_write32_of_disjoint, Memory.read32_write32]
  have valid : validateBlock heap.heapVirtualNext
      ⟨countedHeap heap memory bytes pageCount, pages⟩ =
        .done ⟨⟩ ⟨countedHeap heap memory bytes pageCount, pages⟩ := by
    have notNull : heap.heapVirtualNext ≠ 0 := by omega
    have region : ptrIsInsideHeapRegion (countedHeap heap memory bytes pageCount)
        heap.heapVirtualNext = true := by
      have low : heap.heapVirtualBase ≤ heap.heapVirtualNext := start
      have high : heap.heapVirtualNext < heap.heapVirtualNext + bytes := by omega
      simp [ptrIsInsideHeapRegion, countedHeap, low, high]
    have magic : blockMagic (countedHeap heap memory bytes pageCount).memory
        heap.heapVirtualNext = heapMagic := stamped
    simp [validateBlock, notNull, region, magic]
  have inserted := insert_last (countedHeap heap memory bytes pageCount) heap.heapVirtualNext
    (blocks.map Block.addr) pages ?_ rep.head ?_ ?_ valid
  · exact inserted
  · refine rep.linked.congr ?_ ?_
    · intro node member
      have position := below node member
      exact Memory.read32_congr fun x low high => freshKept x (by omega)
    · intro node member
      have position := below node member
      exact Memory.read32_congr fun x low high => freshKept x (by omega)
  · intro node member
    have position := below node member
    omega
  · rw [List.length_map]
    exact rep.short

/-- The end of `heap_add_region`: what follows on the mapping of the pages. -/
def joinRegion (regionStart pageCount : Nat) (mapped : Int) : HeapProgram σ Nat :=
  if mapped ≠ 0 then pure 0
  else do
    setHeap fun heap => { heap with
      heapVirtualNext := (heap.heapVirtualNext + 4096 * pageCount) % 2 ^ 32
      heapRegionBytes := (heap.heapRegionBytes + 4096 * pageCount) % 2 ^ 32
      heapMappedPages := (heap.heapMappedPages + pageCount) % 2 ^ 32 }
    store (setMagic · regionStart heapMagic)
    store (setSize · regionStart (4096 * pageCount - heapHeaderSize))
    store (setIsFree · regionStart 1)
    store (setReserved · regionStart 0)
    store (setNext · regionStart 0)
    store (setPrev · regionStart 0)
    insertBlockSorted regionStart
    coalesceAround regionStart

/-- `heap_add_region` maps the pages behind the region and joins them to it, if there is room. -/
theorem heap_add_region_steps (con : Consistent heap blocks) (pages : σ)
    (atLeastOne : 0 < pageCount) (bounded : pageCount < 2 ^ 20) :
    heapAddRegion layer pageCount ⟨heap, pages⟩ =
      if heapVirtualLimitAddress < heap.heapVirtualNext + 4096 * pageCount then .done 0 ⟨heap, pages⟩
      else (heapMapVirtualRegion layer heap.heapVirtualNext pageCount ⟨heap, pages⟩).andThen
        (joinRegion heap.heapVirtualNext pageCount) := by
  have limit := con.limit
  have within := con.within
  have bytesEq : pageCount * pmmPageSize % 2 ^ 32 = 4096 * pageCount := by
    simp only [pmmPageSize]
    omega
  have notZero : pageCount ≠ 0 := by omega
  have full : (heap.heapVirtualNext > heap.heapVirtualLimit ∨
      4096 * pageCount > heap.heapVirtualLimit - heap.heapVirtualNext) ↔
      heapVirtualLimitAddress < heap.heapVirtualNext + 4096 * pageCount := by
    rw [limit]
    omega
  simp only [heapAddRegion, notZero, ↓reduceIte, bind_apply, heapNow_apply,
    andThen_done, bytesEq, ite_run]
  exact if_congr full rfl rfl

/-- Joining fresh pages to the region keeps the heap consistent, and gives a listed free block of at
least their size.

Proof: the block is inserted behind all others, which extends the representation, and the join law
merges it with a free block before it. -/
theorem join_region_exact (con : Consistent heap blocks) (memory : Memory) (pages : σ)
    (atLeastOne : 0 < pageCount)
    (room : heap.heapVirtualNext + 4096 * pageCount ≤ heapVirtualLimitAddress)
    (keptBelow : ∀ x, x < heap.heapVirtualNext → memory.byte x = heap.memory.byte x) :
    ∃ heap' blocks' joined, joinRegion heap.heapVirtualNext pageCount 0
        ⟨{ heap with memory := memory }, pages⟩ = .done joined.addr ⟨heap', pages⟩ ∧
      Grown heap heap' blocks blocks' ∧ heap.heapVirtualNext < heap'.heapVirtualNext ∧
      joined ∈ blocks' ∧ joined.free = true ∧ 4096 * pageCount - 24 ≤ joined.size := by
  have base := con.base
  have start := con.tiled.le
  have region := con.region
  have pagesEq := con.pages
  simp only [heapVirtualBaseAddress, heapVirtualLimitAddress] at base room
  have nextEq : (heap.heapVirtualNext + 4096 * pageCount) % 2 ^ 32 =
      heap.heapVirtualNext + 4096 * pageCount := by omega
  have regionEq : (heap.heapRegionBytes + 4096 * pageCount) % 2 ^ 32 =
      heap.heapRegionBytes + 4096 * pageCount := by omega
  have countEq : (heap.heapMappedPages + pageCount) % 2 ^ 32 =
      heap.heapMappedPages + pageCount := by omega
  have inserted := insert_fresh con.toRepresents memory (4096 * pageCount) pageCount pages
    keptBelow (by omega) room
  have extended := con.toRepresents.extend memory (4096 * pageCount) pageCount keptBelow
    (by omega) (by omega) room
  obtain ⟨memory', blocks', joined, run, rep', coalesced, sameUsed, listed, free, size, -, kept'⟩ :=
    coalesce_around_exact pages extended rfl con.coalesced List.IsChain.nil
  have counted : countedHeap heap memory (4096 * pageCount) pageCount =
      { heap with
        heapVirtualNext := heap.heapVirtualNext + 4096 * pageCount
        heapRegionBytes := heap.heapRegionBytes + 4096 * pageCount
        heapMappedPages := heap.heapMappedPages + pageCount
        memory := freshMemory memory heap.heapVirtualNext (4096 * pageCount - 24) } := rfl
  have joins : joinRegion heap.heapVirtualNext pageCount 0 ⟨{ heap with memory := memory }, pages⟩ =
      .done joined.addr ⟨{ extendedHeap heap blocks memory (4096 * pageCount) pageCount with
        memory := memory' }, pages⟩ := by
    rw [joinRegion, if_neg (not_not_intro rfl)]
    simp only [bind_apply, setHeap_apply, store_apply, andThen_done, header_size_eq,
      nextEq, regionEq, countEq]
    simp only [freshMemory] at counted
    rw [← counted, inserted, andThen_done, run]
  rw [used_nil, List.append_nil] at sameUsed
  refine ⟨_, blocks', joined, joins, ⟨⟨rep', con.initialized, coalesced, ?_, ?_, ?_⟩, sameUsed, ?_, ?_⟩,
    ?_, listed, free, size⟩
  · simp only [extendedHeap]
    omega
  · simp only [extendedHeap]
    omega
  · rw [sameUsed]
    exact con.active
  · simp only [extendedHeap]
    omega
  · intro x low outside
    have notHeader : ¬ InHeader (blocks ++ [⟨heap.heapVirtualNext, 4096 * pageCount - 24, true⟩])
        x := by
      rintro ⟨block, member, blockLow, blockHigh⟩
      rcases List.mem_append.mp member with old | new
      · exact outside ⟨block, old, blockLow, blockHigh⟩
      · obtain rfl := List.mem_singleton.mp new
        simp only at blockLow
        omega
    rw [kept' x fun inJoint => notHeader inJoint.in_header]
    refine (append_fresh_kept memory _ _ _ x (Or.inl low) ?_).trans (keptBelow x low)
    generalize tailEq : (blocks.map Block.addr).getLastD 0 = tail
    refine last_or_null tailEq.symm fun last isLast same => ?_
    have missed := outside_header outside (List.mem_of_getLast? isLast)
    omega
  · simp only [extendedHeap]
    omega

/-- The next page of a consistent heap lies on a page boundary of its window. -/
theorem Consistent.next_aligned (con : Consistent heap blocks) :
    heap.heapVirtualNext % 4096 = 0 ∧ heapVirtualBaseAddress ≤ heap.heapVirtualNext := by
  have base := con.base
  have start := con.tiled.le
  have region := con.region
  have pagesEq := con.pages
  simp only [heapVirtualBaseAddress] at base ⊢
  omega

/-- `heap_add_region` keeps the heap consistent and, when it reports a block, has
made the region larger and returns a listed free block of at least the new size.

Proof: the mapping law bounds what the fresh pages change. On success they are joined to the region. -/
theorem heap_add_region_sat (gives : RegionGives layer pages pageCount invariant)
    (con : Consistent heap blocks) (atLeastOne : 0 < pageCount) (bounded : pageCount < 2 ^ 20) :
    (heapAddRegion layer pageCount ⟨heap, pages⟩).Sat fun block next =>
      ∃ blocks', Grown heap next.heap blocks blocks' ∧
        (block ≠ 0 → invariant next.pages ∧ heap.heapVirtualNext < next.heap.heapVirtualNext ∧
          ∃ joined ∈ blocks', joined.addr = block ∧ joined.free = true ∧
            4096 * pageCount - 24 ≤ joined.size) := by
  rw [heap_add_region_steps con pages atLeastOne bounded]
  split
  · exact ⟨blocks, Grown.refused con heap.memory fun _ _ => rfl, fun wrong => absurd rfl wrong⟩
  · rename_i fits
    have room := Nat.le_of_not_lt fits
    obtain ⟨aligned, low⟩ := con.next_aligned
    refine (map_region_sat gives heap.heapVirtualNext heap aligned low room).andThen ?_
    rintro mapped ⟨heap', pages'⟩ ⟨holds', memory, rfl, kept⟩
    have keptBelow : ∀ x, x < heap.heapVirtualNext → memory.byte x = heap.memory.byte x :=
      fun x below => kept x (Or.inl below)
    by_cases failed : mapped ≠ 0
    · rw [joinRegion, if_pos failed]
      exact ⟨blocks, Grown.refused con memory keptBelow, fun wrong => absurd rfl wrong⟩
    · obtain rfl := not_not.mp failed
      obtain ⟨heap', blocks', joined, joins, grown, further, listed, free, size⟩ :=
        join_region_exact con memory pages' atLeastOne room keptBelow
      rw [joins]
      exact ⟨blocks', grown, fun _ => ⟨holds' rfl, further, joined, listed, rfl, free, size⟩⟩

end Toyix.Heap
