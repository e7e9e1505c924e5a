import Toyix.Library.Bytes
import Toyix.Library.Outcome

/-!
# The kernel heap allocator

This is `kernel/heap.c`. Blocks are headers of six 32-bit words followed by a
payload; the headers form a doubly linked list that starts at `heapHead`. All
header fields are words of the byte memory the heap is mapped into, so a write
to a wrong address damages whatever is stored there, exactly as in the kernel.

The page layer below the heap is a parameter: the frame allocator, the kernel
page mapper and the question whether an access to a fresh page faults. Its
operations return in every state, may fail at any call, and `pmmFreePage` may
stop the machine. Console output is left out; `heapInit` keeps the walk that
prints the statistics, because that walk validates every block.

A list walk reads links only and is bounded by the number of 32-bit addresses. A
longer walk has visited some address twice, so the C loop does not end; the model
then diverges.
-/

namespace Toyix.Heap

open Library

def heapMagic : Nat := 0x48454150
def heapAlignment : Nat := 8
def heapMinSplitPayload : Nat := 16
def heapVirtualBaseAddress : Nat := 0xD1000000
def heapVirtualLimitAddress : Nat := 0xD2000000
def pmmPageSize : Nat := 4096
def pmmInvalidPage : Nat := 0
def vmemOk : Int := 0
def vmemFlagWritable : Nat := 1

/-- `sizeof(heap_block_t)` on the 32-bit target: six words. -/
def sizeofHeapBlock : Nat := 24

/-- The static variables of the allocator and the memory its blocks live in. -/
structure HeapState where
  memory : Memory
  heapHead : Nat
  heapInitialized : Bool
  heapVirtualBase : Nat
  heapVirtualNext : Nat
  heapVirtualLimit : Nat
  heapRegionBytes : Nat
  heapMappedPages : Nat
  heapActiveAllocations : Nat
  heapTotalAllocations : Nat

/-- Statically initialised variables before `heapInit`; memory is arbitrary. -/
def HeapState.boot (memory : Memory) : HeapState :=
  ⟨memory, 0, false, 0, 0, 0, 0, 0, 0, 0⟩

/-- What the heap calls in the layers below it. The result codes are those of
`kernel/vmem.h`, a null physical address is `pmmInvalidPage`, and
`pageWritable` says whether the loaded page directory maps a page. -/
structure PageLayer (σ : Type) where
  pmmAllocPage : σ → Nat × σ
  pmmFreePage : Nat → σ → Except String σ
  vmemMapPage : Nat → Nat → Nat → σ → Int × σ
  vmemUnmapPage : Nat → σ → Int × σ
  vmemGetPhysical : Nat → σ → Nat
  pageWritable : Nat → σ → Bool

/-- The allocator together with the state of the page layer. -/
structure HeapSystem (σ : Type) where
  heap : HeapState
  pages : σ

/-! ## Header fields -/

def blockMagic (memory : Memory) (block : Nat) : Nat := memory.read32 block
def blockSize (memory : Memory) (block : Nat) : Nat := memory.read32 (block + 4)
def blockIsFree (memory : Memory) (block : Nat) : Nat := memory.read32 (block + 8)
def blockNext (memory : Memory) (block : Nat) : Nat := memory.read32 (block + 16)
def blockPrev (memory : Memory) (block : Nat) : Nat := memory.read32 (block + 20)

def setMagic (memory : Memory) (block value : Nat) : Memory := memory.write32 block value
def setSize (memory : Memory) (block value : Nat) : Memory := memory.write32 (block + 4) value
def setIsFree (memory : Memory) (block value : Nat) : Memory := memory.write32 (block + 8) value
def setReserved (memory : Memory) (block value : Nat) : Memory := memory.write32 (block + 12) value
def setNext (memory : Memory) (block value : Nat) : Memory := memory.write32 (block + 16) value
def setPrev (memory : Memory) (block value : Nat) : Memory := memory.write32 (block + 20) value

/-! ## Address arithmetic -/

def alignUpSize (value alignment : Nat) : Nat :=
  ((value + (alignment - 1)) % 2 ^ 32) &&& (2 ^ 32 - alignment)

def heapHeaderSize : Nat := alignUpSize sizeofHeapBlock heapAlignment

def alignDownPage (value : Nat) : Nat := value &&& (2 ^ 32 - pmmPageSize)

/-- Where an adjacent block begins. -/
def blockEndAddr (memory : Memory) (block : Nat) : Nat :=
  (block + heapHeaderSize + blockSize memory block) % 2 ^ 32

def blocksAreAdjacent (memory : Memory) (left right : Nat) : Bool :=
  blockEndAddr memory left == right

def ptrIsInsideHeapRegion (heap : HeapState) (ptr : Nat) : Bool :=
  decide (heap.heapVirtualBase ≤ ptr) && decide (ptr < heap.heapVirtualNext)

/-! ## Programs over the allocator -/

section Programs

variable {σ : Type}

/-- A program over the allocator and its page layer. -/
abbrev HeapProgram (σ : Type) := Program (HeapSystem σ)

/-- The allocator's variables. -/
def heapNow : HeapProgram σ HeapState := fun state => .done state.heap state

/-- Assign allocator variables. -/
def setHeap (change : HeapState → HeapState) : HeapProgram σ PUnit :=
  Program.update fun state => { state with heap := change state.heap }

/-- Assign through a header pointer. -/
def store (change : Memory → Memory) : HeapProgram σ PUnit :=
  setHeap fun heap => { heap with memory := change heap.memory }

/-- Call an operation of the page layer that always returns. -/
def callPages {α : Type} (operation : σ → α × σ) : HeapProgram σ α :=
  fun state => .done (operation state.pages).1 { state with pages := (operation state.pages).2 }

/-- Call `pmm_free_page`, which stops the machine on an address it refuses. -/
def callFreePage (layer : PageLayer σ) (physical : Nat) : HeapProgram σ PUnit := fun state =>
  match layer.pmmFreePage physical state.pages with
  | .ok pages => .done ⟨⟩ { state with pages := pages }
  | .error message => .panicked message state

@[simp] theorem heapNow_apply (heap : HeapState) (pages : σ) :
    heapNow ⟨heap, pages⟩ = .done heap ⟨heap, pages⟩ := rfl

@[simp] theorem setHeap_apply (change : HeapState → HeapState) (heap : HeapState) (pages : σ) :
    setHeap change ⟨heap, pages⟩ = .done ⟨⟩ ⟨change heap, pages⟩ := rfl

@[simp] theorem store_apply (change : Memory → Memory) (heap : HeapState) (pages : σ) :
    store change ⟨heap, pages⟩ = .done ⟨⟩ ⟨{ heap with memory := change heap.memory }, pages⟩ := rfl

@[simp] theorem callPages_apply {α : Type} (operation : σ → α × σ) (heap : HeapState) (pages : σ) :
    callPages operation ⟨heap, pages⟩ =
      .done (operation pages).1 ⟨heap, (operation pages).2⟩ := rfl

/-- The bound on list walks: the number of 32-bit addresses. -/
def walkBound : Nat := 2 ^ 32

/-- Stops on a block that is null, outside the region or without the magic number. -/
def validateBlock (block : Nat) : HeapProgram σ PUnit := do
  let heap ← heapNow
  if block = 0 then Program.panic "heap encountered null block"
  else if ptrIsInsideHeapRegion heap block = false then
    Program.panic "heap block outside heap virtual region"
  else if blockMagic heap.memory block ≠ heapMagic then
    Program.panic "heap block magic mismatch"
  else pure ⟨⟩

/-- The figures of `heap_stats_t` that the walk computes. -/
structure HeapStats where
  freePayloadBytes : Nat
  usedPayloadBytes : Nat
  blockCount : Nat

/-- The walk, bounded by its fuel. -/
def heapComputeStatsFrom : Nat → Nat → HeapStats → HeapProgram σ HeapStats
  | 0, _, _ => Program.diverge
  | fuel + 1, block, stats =>
    if block = 0 then pure stats
    else do
      validateBlock block
      let heap ← heapNow
      let size := blockSize heap.memory block
      let counted := { stats with blockCount := (stats.blockCount + 1) % 2 ^ 32 }
      heapComputeStatsFrom fuel (blockNext heap.memory block)
        (if blockIsFree heap.memory block ≠ 0 then
          { counted with freePayloadBytes := (counted.freePayloadBytes + size) % 2 ^ 32 }
        else
          { counted with usedPayloadBytes := (counted.usedPayloadBytes + size) % 2 ^ 32 })

/-- The whole list is checked and counted. -/
def heapComputeStats : HeapProgram σ HeapStats := do
  let heap ← heapNow
  heapComputeStatsFrom walkBound heap.heapHead ⟨0, 0, 0⟩

/-- The first block at or after the new one, or null. -/
def insertionPoint (newBlock : Nat) : Nat → Nat → HeapProgram σ Nat
  | 0, _ => Program.diverge
  | fuel + 1, current => do
    let heap ← heapNow
    if current ≠ 0 ∧ current < newBlock then
      insertionPoint newBlock fuel (blockNext heap.memory current)
    else pure current

/-- The last block of the list. -/
def tailBlock : Nat → Nat → HeapProgram σ Nat
  | 0, _ => Program.diverge
  | fuel + 1, tail => do
    let heap ← heapNow
    if blockNext heap.memory tail ≠ 0 then tailBlock fuel (blockNext heap.memory tail)
    else pure tail

/-- The list is in the order of addresses. -/
def insertBlockSorted (newBlock : Nat) : HeapProgram σ PUnit := do
  validateBlock newBlock
  let heap ← heapNow
  if heap.heapHead = 0 then do
    setHeap fun heap => { heap with heapHead := newBlock }
    store (setPrev · newBlock 0)
    store (setNext · newBlock 0)
  else do
    let current ← insertionPoint newBlock walkBound heap.heapHead
    if current = heap.heapHead then do
      store (setPrev · newBlock 0)
      store (setNext · newBlock heap.heapHead)
      store (setPrev · heap.heapHead newBlock)
      setHeap fun heap => { heap with heapHead := newBlock }
    else if current = 0 then do
      let tail ← tailBlock walkBound heap.heapHead
      store (setNext · tail newBlock)
      store (setPrev · newBlock tail)
      store (setNext · newBlock 0)
    else do
      let previous := blockPrev heap.memory current
      store (setNext · previous newBlock)
      store (setPrev · newBlock previous)
      store (setNext · newBlock current)
      store (setPrev · current newBlock)

/-- Two adjacent free blocks become one. -/
def coalesceWithNext (block : Nat) : HeapProgram σ Nat := do
  validateBlock block
  let heap ← heapNow
  let next := blockNext heap.memory block
  if next = 0 then pure block
  else do
    validateBlock next
    if blockIsFree heap.memory block = 0 ∨ blockIsFree heap.memory next = 0 then pure block
    else if blocksAreAdjacent heap.memory block next = false then pure block
    else do
      store fun memory => setSize memory block
        ((blockSize memory block + (heapHeaderSize + blockSize memory next)) % 2 ^ 32)
      store fun memory => setNext memory block (blockNext memory next)
      store fun memory =>
        if blockNext memory next ≠ 0 then setPrev memory (blockNext memory next) block else memory
      pure block

/-- The block takes in the next one, and the previous one takes it in. -/
def coalesceAround (block : Nat) : HeapProgram σ Nat := do
  validateBlock block
  let block ← coalesceWithNext block
  let heap ← heapNow
  let prev := blockPrev heap.memory block
  if prev ≠ 0 then do
    validateBlock prev
    if blockIsFree heap.memory prev ≠ 0 ∧ blocksAreAdjacent heap.memory prev block = true then
      coalesceWithNext prev
    else pure block
  else pure block

/-- The rest becomes a free block if there is room for 16 bytes in it. -/
def splitBlockIfLargeEnough (block wanted : Nat) : HeapProgram σ PUnit := do
  validateBlock block
  let heap ← heapNow
  if blockSize heap.memory block < wanted then
    Program.panic "heap split requested block smaller than allocation"
  else
    let leftover := blockSize heap.memory block - wanted
    if leftover < heapHeaderSize + heapMinSplitPayload then pure ⟨⟩
    else do
      let split := (block + heapHeaderSize + wanted) % 2 ^ 32
      store (setMagic · split heapMagic)
      store (setSize · split (leftover - heapHeaderSize))
      store (setIsFree · split 1)
      store (setReserved · split 0)
      store (setPrev · split block)
      store fun memory => setNext memory split (blockNext memory block)
      store fun memory =>
        if blockNext memory block ≠ 0 then setPrev memory (blockNext memory block) split else memory
      store (setNext · block split)
      store (setSize · block wanted)

/-- The walk, bounded by its fuel. -/
def findFreeBlockFrom (wanted : Nat) : Nat → Nat → HeapProgram σ Nat
  | 0, _ => Program.diverge
  | fuel + 1, block =>
    if block = 0 then pure 0
    else do
      validateBlock block
      let heap ← heapNow
      if blockIsFree heap.memory block ≠ 0 ∧ wanted ≤ blockSize heap.memory block then pure block
      else findFreeBlockFrom wanted fuel (blockNext heap.memory block)

/-- First fit. -/
def findFreeBlock (wanted : Nat) : HeapProgram σ Nat := do
  let heap ← heapNow
  findFreeBlockFrom wanted walkBound heap.heapHead

variable (layer : PageLayer σ)

/-- Pages `i`, `i + 1`, ... of the region, `remaining` of them. -/
def heapUnmapVirtualRegionFrom (start : Nat) : Nat → Nat → HeapProgram σ PUnit
  | 0, _ => pure ⟨⟩
  | remaining + 1, i => do
    let vaddr := (start + i * pmmPageSize) % 2 ^ 32
    let phys ← callPages fun pages => (layer.vmemGetPhysical vaddr pages, pages)
    if phys ≠ 0 then do
      let pagePhys := alignDownPage phys
      let _ ← callPages (layer.vmemUnmapPage vaddr)
      callFreePage layer pagePhys
    else pure ⟨⟩
    heapUnmapVirtualRegionFrom start remaining (i + 1)

def heapUnmapVirtualRegion (start pageCount : Nat) : HeapProgram σ PUnit :=
  heapUnmapVirtualRegionFrom layer start pageCount 0

/-- Pages `i`, `i + 1`, ... of the region, `remaining` of them. The fresh page is
zeroed through its virtual address and faults if it is not mapped there. -/
def heapMapVirtualRegionFrom (start : Nat) : Nat → Nat → HeapProgram σ Int
  | 0, _ => pure 0
  | remaining + 1, i => do
    let vaddr := (start + i * pmmPageSize) % 2 ^ 32
    let phys ← callPages layer.pmmAllocPage
    if phys = pmmInvalidPage then do
      heapUnmapVirtualRegion layer start i
      pure (-1)
    else do
      let result ← callPages (layer.vmemMapPage vaddr phys vmemFlagWritable)
      if result ≠ vmemOk then do
        callFreePage layer phys
        heapUnmapVirtualRegion layer start i
        pure (-1)
      else do
        let writable ← callPages fun pages => (layer.pageWritable vaddr pages, pages)
        if writable = false then Program.panic "page fault"
        else do
          store (Memory.fill · vaddr pmmPageSize 0)
          heapMapVirtualRegionFrom start remaining (i + 1)

/-- All pages of the region or none. -/
def heapMapVirtualRegion (start pageCount : Nat) : HeapProgram σ Int :=
  heapMapVirtualRegionFrom layer start pageCount 0

/-- The next pages of the window become a free block. -/
def heapAddRegion (pageCount : Nat) : HeapProgram σ Nat := do
  let pageCount := if pageCount = 0 then 1 else pageCount
  let regionBytes := (pageCount * pmmPageSize) % 2 ^ 32
  let heap ← heapNow
  if heap.heapVirtualNext > heap.heapVirtualLimit ∨
      regionBytes > heap.heapVirtualLimit - heap.heapVirtualNext then pure 0
  else do
    let regionStart := heap.heapVirtualNext
    let mapped ← heapMapVirtualRegion layer regionStart pageCount
    if mapped ≠ 0 then pure 0
    else do
      setHeap fun heap => { heap with
        heapVirtualNext := (heap.heapVirtualNext + regionBytes) % 2 ^ 32
        heapRegionBytes := (heap.heapRegionBytes + regionBytes) % 2 ^ 32
        heapMappedPages := (heap.heapMappedPages + pageCount) % 2 ^ 32 }
      store (setMagic · regionStart heapMagic)
      store (setSize · regionStart (regionBytes - heapHeaderSize))
      store (setIsFree · regionStart 1)
      store (setReserved · regionStart 0)
      store (setNext · regionStart 0)
      store (setPrev · regionStart 0)
      insertBlockSorted regionStart
      coalesceAround regionStart

/-- The sum is rounded up modulo `2 ^ 32`. -/
def heapGrow (minimumPayloadBytes : Nat) : HeapProgram σ Nat :=
  if minimumPayloadBytes > 0xFFFFFFFF - heapHeaderSize then pure 0
  else
    let neededBytes := minimumPayloadBytes + heapHeaderSize
    let pages := ((neededBytes + (pmmPageSize - 1)) % 2 ^ 32) / pmmPageSize
    heapAddRegion layer (if pages = 0 then 1 else pages)

/-- The first region. -/
def heapInit (initialPages : Nat) : HeapProgram σ PUnit := do
  let heap ← heapNow
  if heap.heapInitialized then Program.panic "heap_init called twice"
  else do
    setHeap fun heap => { heap with
      heapHead := 0
      heapVirtualBase := heapVirtualBaseAddress
      heapVirtualNext := heapVirtualBaseAddress
      heapVirtualLimit := heapVirtualLimitAddress
      heapRegionBytes := 0
      heapMappedPages := 0
      heapActiveAllocations := 0
      heapTotalAllocations := 0
      heapInitialized := true }
    let block ← heapAddRegion layer (if initialPages = 0 then 1 else initialPages)
    if block = 0 then Program.panic "heap_init could not map initial heap region"
    else do
      let _ ← heapComputeStats
      pure ⟨⟩

/-- The first half of `kmalloc`: find a free block, growing the heap if there is
none. -/
def kmallocFind (wanted : Nat) : HeapProgram σ Nat := do
  let block ← findFreeBlock wanted
  if block = 0 then do
    let grown ← heapGrow layer wanted
    if grown = 0 then Program.panic "kmalloc could not grow heap"
    else do
      let found ← findFreeBlock wanted
      if found = 0 then Program.panic "kmalloc failed after heap growth" else pure found
  else pure block

/-- The second half of `kmalloc`: split the block found, mark it used and return
its payload. -/
def kmallocTake (block wanted : Nat) : HeapProgram σ Nat := do
  splitBlockIfLargeEnough block wanted
  store (setIsFree · block 0)
  setHeap fun heap => { heap with
    heapActiveAllocations := (heap.heapActiveAllocations + 1) % 2 ^ 32
    heapTotalAllocations := (heap.heapTotalAllocations + 1) % 2 ^ 32 }
  pure ((block + heapHeaderSize) % 2 ^ 32)

/-- An empty request is answered with null. -/
def kmalloc (size : Nat) : HeapProgram σ Nat := do
  let heap ← heapNow
  if heap.heapInitialized = false then Program.panic "kmalloc called before heap_init"
  else if size = 0 then pure 0
  else if size > 0xFFFFFFFF - (heapAlignment - 1) then Program.panic "kmalloc request too large"
  else
    let wanted := alignUpSize size heapAlignment
    if wanted > 0xFFFFFFFF then Program.panic "kmalloc request too large"
    else do
      let block ← kmallocFind layer wanted
      kmallocTake block wanted

/-- The product is checked first. -/
def kcalloc (count size : Nat) : HeapProgram σ Nat :=
  if count ≠ 0 ∧ size > 0xFFFFFFFF / count then Program.panic "kcalloc size overflow"
  else do
    let total := (count * size) % 2 ^ 32
    let ptr ← kmalloc layer total
    if ptr ≠ 0 then do
      store (Memory.fill · ptr total 0)
      pure ptr
    else pure ptr

/-- The block is marked free, then merged. -/
def kfree (ptr : Nat) : HeapProgram σ PUnit :=
  if ptr = 0 then pure ⟨⟩
  else do
    let heap ← heapNow
    if ptrIsInsideHeapRegion heap ptr = false then
      Program.panic "kfree pointer outside heap virtual region"
    else do
      let block := ptr - heapHeaderSize
      validateBlock block
      if blockIsFree heap.memory block ≠ 0 then Program.panic "double free detected"
      else do
        store (setIsFree · block 1)
        setHeap fun heap => { heap with
          heapActiveAllocations :=
            if heap.heapActiveAllocations > 0 then heap.heapActiveAllocations - 1
            else heap.heapActiveAllocations }
        let _ ← coalesceAround block
        pure ⟨⟩

end Programs

end Toyix.Heap
