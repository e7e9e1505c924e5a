import Mathlib.Data.List.Chain
import Toyix.Heap.Allocator
import Toyix.Library.Links

/-!
# The block list behind the heap's memory

The allocator's memory is read as a list of blocks in address order.
`Represents` says that following the stored links from `heapHead` meets exactly
these blocks, that their headers hold the listed sizes and states, and that they
tile the mapped region without gaps. The blocks of a representation are not part
of the allocator's state; they are what its bytes mean.

`Represents.replace` is the one rule for changing a representation: a run of
neighbouring blocks is exchanged for another run over the same addresses, with
the bytes outside that run unchanged except for the back link that points into it.
-/

namespace Toyix.Heap

open Library Library.Links

/-- A header and its payload, read from memory. -/
structure Block where
  addr : Nat
  size : Nat
  free : Bool
deriving DecidableEq

/-- The address after the payload. -/
def Block.stop (block : Block) : Nat := block.addr + 24 + block.size

variable {blocks left right : List Block} {block : Block} {start stop : Nat}

@[simp] theorem header_size_eq : heapHeaderSize = 24 := by decide

/-- The fields of a header that do not depend on its neighbours. -/
structure Header (memory : Memory) (block : Block) : Prop where
  magic : blockMagic memory block.addr = heapMagic
  size : blockSize memory block.addr = block.size
  isFree : blockIsFree memory block.addr = if block.free then 1 else 0

/-- A header is read from its first twelve bytes. -/
theorem Header.congr {memory memory' : Memory} (header : Header memory block)
    (same : ∀ x, block.addr ≤ x → x < block.addr + 12 → memory'.byte x = memory.byte x) :
    Header memory' block := by
  have word : ∀ offset, offset + 4 ≤ 12 →
      memory'.read32 (block.addr + offset) = memory.read32 (block.addr + offset) :=
    fun offset small => Memory.read32_congr fun x low high => same x (by omega) (by omega)
  refine ⟨?_, ?_, ?_⟩
  · exact (word 0 (by omega)).trans header.magic
  · exact (word 4 (by omega)).trans header.size
  · exact (word 8 (by omega)).trans header.isFree

/-- Blocks that follow each other without gaps from one address to another. -/
def Tiled : Nat → List Block → Nat → Prop
  | start, [], stop => start = stop
  | start, block :: rest, stop => block.addr = start ∧ Tiled block.stop rest stop

/-- No two neighbouring blocks are both free. -/
def Coalesced (blocks : List Block) : Prop :=
  blocks.IsChain fun left right => ¬ (left.free = true ∧ right.free = true)

/-- The address lies in the header of one of the blocks. -/
def InHeader (blocks : List Block) (x : Nat) : Prop :=
  ∃ block ∈ blocks, block.addr ≤ x ∧ x < block.addr + 24

theorem outside_header {x : Nat} (outside : ¬ InHeader blocks x) (member : block ∈ blocks) :
    x < block.addr ∨ block.addr + 24 ≤ x := by
  by_contra inside
  exact outside ⟨block, member, by omega, by omega⟩

/-- The address lies in the size or in a link of one of the blocks. -/
def InJoint (blocks : List Block) (x : Nat) : Prop :=
  ∃ block ∈ blocks, block.addr + 4 ≤ x ∧ x < block.addr + 8 ∨ block.addr + 16 ≤ x ∧ x < block.addr + 24

theorem outside_joint {x : Nat} (outside : ¬ InJoint blocks x) (member : block ∈ blocks) :
    x < block.addr + 4 ∨ block.addr + 8 ≤ x ∧ x < block.addr + 16 ∨ block.addr + 24 ≤ x := by
  by_contra inside
  exact outside ⟨block, member, by omega⟩

theorem InJoint.in_header {x : Nat} (inside : InJoint blocks x) : InHeader blocks x := by
  obtain ⟨block, member, words⟩ := inside
  exact ⟨block, member, by omega, by omega⟩

/-- The address of the first block of a list, or null. -/
theorem head_addr (isFirst : block ∈ blocks.head?) :
    (blocks.map Block.addr).headD 0 = block.addr := by
  rw [List.eq_cons_of_mem_head? isFirst]
  rfl

theorem head_or_null {first : Nat} (isFirst : first = (blocks.map Block.addr).headD 0) {P : Prop}
    (holds : ∀ block ∈ blocks.head?, first = block.addr → P) : first = 0 ∨ P := by
  cases blocks with
  | nil => exact Or.inl isFirst
  | cons block rest => exact Or.inr (holds block rfl isFirst)

/-- The address of the last block of a list, or null. -/
theorem last_addr (isLast : block ∈ blocks.getLast?) :
    (blocks.map Block.addr).getLastD 0 = block.addr := by
  rw [List.getLastD_eq_getLast?, List.getLast?_map, isLast]
  rfl

theorem last_or_null {last : Nat} (isLast : last = (blocks.map Block.addr).getLastD 0) {P : Prop}
    (holds : ∀ block ∈ blocks.getLast?, last = block.addr → P) : last = 0 ∨ P := by
  cases found : blocks.getLast? with
  | none =>
    rw [List.getLast?_eq_none_iff.mp found] at isLast
    exact Or.inl isLast
  | some block => exact Or.inr (holds block found (isLast.trans (last_addr found)))

/-- The memory and the variables describe exactly these blocks. -/
structure Represents (heap : HeapState) (blocks : List Block) : Prop where
  linked : Linked (blockNext heap.memory) (blockPrev heap.memory) 0 0 (blocks.map Block.addr)
  head : heap.heapHead = (blocks.map Block.addr).headD 0
  headers : ∀ block ∈ blocks, Header heap.memory block
  tiled : Tiled heap.heapVirtualBase blocks heap.heapVirtualNext
  multiple : ∀ block ∈ blocks, block.size % 8 = 0
  base : heap.heapVirtualBase = heapVirtualBaseAddress
  limit : heap.heapVirtualLimit = heapVirtualLimitAddress
  within : heap.heapVirtualNext ≤ heapVirtualLimitAddress

/-! ## Tilings -/

theorem tiled_append :
    Tiled start (left ++ right) stop ↔
      ∃ middle, Tiled start left middle ∧ Tiled middle right stop := by
  induction left generalizing start with
  | nil => simp [Tiled]
  | cons block rest ih =>
    simp only [List.cons_append, Tiled, ih]
    constructor
    · rintro ⟨first, middle, before, after⟩
      exact ⟨middle, ⟨first, before⟩, after⟩
    · rintro ⟨middle, ⟨first, before⟩, after⟩
      exact ⟨first, middle, before, after⟩

theorem Tiled.le (tiled : Tiled start blocks stop) : start ≤ stop := by
  induction blocks generalizing start with
  | nil => exact Nat.le_of_eq tiled
  | cons block rest ih =>
    obtain ⟨first, tail⟩ := tiled
    have behind := ih tail
    simp only [Block.stop] at behind
    omega

/-- Every block of a tiling lies inside it. -/
theorem Tiled.bounds (tiled : Tiled start blocks stop) (member : block ∈ blocks) :
    start ≤ block.addr ∧ block.stop ≤ stop := by
  induction blocks generalizing start with
  | nil => simp at member
  | cons first rest ih =>
    obtain ⟨same, tail⟩ := tiled
    rcases List.mem_cons.mp member with rfl | later
    · exact ⟨Nat.le_of_eq same.symm, tail.le⟩
    · have inside := ih tail later
      simp only [Block.stop] at inside ⊢
      omega

/-- Two blocks of a tiling are the same or do not overlap. -/
theorem Tiled.separated (tiled : Tiled start blocks stop) {other : Block} (member : block ∈ blocks)
    (member' : other ∈ blocks) :
    block = other ∨ block.stop ≤ other.addr ∨ other.stop ≤ block.addr := by
  induction blocks generalizing start with
  | nil => simp at member
  | cons first rest ih =>
    obtain ⟨-, tail⟩ := tiled
    rcases List.mem_cons.mp member with rfl | later
    · rcases List.mem_cons.mp member' with rfl | later'
      · exact Or.inl rfl
      · exact Or.inr (Or.inl (tail.bounds later').1)
    · rcases List.mem_cons.mp member' with rfl | later'
      · exact Or.inr (Or.inr (tail.bounds later).1)
      · exact ih tail later later'

/-- The first address of a nonempty tiling. -/
theorem Tiled.head_addr (tiled : Tiled start blocks stop) (first : block ∈ blocks.head?) :
    block.addr = start := by
  cases blocks with
  | nil => simp at first
  | cons other rest =>
    have same : other = block := by simpa using first
    exact same ▸ tiled.1

/-- Addresses increase strictly along a tiling. -/
theorem Tiled.increasing (tiled : Tiled start blocks stop) :
    (blocks.map Block.addr).Pairwise (· < ·) := by
  induction blocks generalizing start with
  | nil => exact List.Pairwise.nil
  | cons block rest ih =>
    obtain ⟨-, tail⟩ := tiled
    refine List.pairwise_cons.mpr ⟨?_, ih tail⟩
    intro addr member
    obtain ⟨later, inRest, rfl⟩ := List.mem_map.mp member
    have inside := (tail.bounds inRest).1
    simp only [Block.stop] at inside
    omega

/-- A tiling of a region has at most as many blocks as bytes. -/
theorem Tiled.length_le (tiled : Tiled start blocks stop) : start + 24 * blocks.length ≤ stop := by
  induction blocks generalizing start with
  | nil => exact Nat.le_of_eq tiled
  | cons block rest ih =>
    obtain ⟨first, tail⟩ := tiled
    have behind := ih tail
    simp only [Block.stop, List.length_cons] at behind ⊢
    omega

/-! ## Reading a representation -/

namespace Represents

variable {heap : HeapState}

/-- Block addresses are inside the heap window, hence not null and far from
the end of the address space. -/
theorem bounds (rep : Represents heap blocks) (member : block ∈ blocks) :
    0xD1000000 ≤ block.addr ∧ block.stop ≤ heap.heapVirtualNext ∧ block.stop ≤ 0xD2000000 := by
  have inside := rep.tiled.bounds member
  have low := rep.base
  have high := rep.within
  simp only [heapVirtualBaseAddress, heapVirtualLimitAddress] at low high
  omega

theorem not_null (rep : Represents heap blocks) (member : block ∈ blocks) : block.addr ≠ 0 := by
  have inside := rep.bounds member
  omega

/-- The last block before a cut ends at the first block after it. -/
theorem before_cut (rep : Represents heap (left ++ block :: right)) :
    (∀ other ∈ left, other.stop ≤ block.addr) ∧ (∀ other ∈ right, block.stop ≤ other.addr) := by
  obtain ⟨middle, before, first, after⟩ := tiled_append.mp rep.tiled
  constructor
  · intro other member
    exact first ▸ (before.bounds member).2
  · intro other member
    exact (after.bounds member).1

/-- A listed block passes validation. -/
theorem validate {σ : Type} (rep : Represents heap blocks) (member : block ∈ blocks) (pages : σ) :
    validateBlock block.addr ⟨heap, pages⟩ = .done ⟨⟩ ⟨heap, pages⟩ := by
  have inside := rep.bounds member
  have low := rep.base
  have stamped := (rep.headers block member).magic
  simp only [Block.stop, heapVirtualBaseAddress] at inside low
  have notNull : block.addr ≠ 0 := by omega
  have region : ptrIsInsideHeapRegion heap block.addr = true := by
    simp only [ptrIsInsideHeapRegion, Bool.and_eq_true, decide_eq_true_eq]
    omega
  simp [validateBlock, heapNow, notNull, region, stamped]

/-- The stored links around a block. -/
theorem links (rep : Represents heap (left ++ block :: right)) :
    blockPrev heap.memory block.addr = (left.map Block.addr).getLastD 0 ∧
      blockNext heap.memory block.addr = (right.map Block.addr).headD 0 := by
  have linked := rep.linked
  rw [List.map_append, List.map_cons, linked_append] at linked
  exact ⟨linked.2.1, linked.2.2.1⟩

/-- Neighbouring blocks touch. -/
theorem adjacent {rest : List Block} {next : Block}
    (rep : Represents heap (left ++ block :: next :: rest)) : next.addr = block.stop := by
  obtain ⟨start, -, -, touching, -⟩ := tiled_append.mp rep.tiled
  exact touching

/-- The block after a block points back to it. -/
theorem back_link {next : Block} (rep : Represents heap (left ++ block :: right))
    (isNext : next ∈ right.head?) : blockPrev heap.memory next.addr = block.addr := by
  have split := List.eq_cons_of_mem_head? isNext
  rw [split, ← List.singleton_append, ← List.append_assoc] at rep
  have back := rep.links.1
  rwa [List.map_append, List.map_singleton, List.getLastD_concat] at back

/-- A representation reads four variables and the bytes of the listed headers. -/
theorem transport {heap' : HeapState} (rep : Represents heap blocks)
    (head : heap'.heapHead = heap.heapHead) (base : heap'.heapVirtualBase = heap.heapVirtualBase)
    (next : heap'.heapVirtualNext = heap.heapVirtualNext)
    (limit : heap'.heapVirtualLimit = heap.heapVirtualLimit)
    (kept : ∀ x, InHeader blocks x → heap'.memory.byte x = heap.memory.byte x) :
    Represents heap' blocks := by
  refine ⟨rep.linked.congr ?_ ?_, head.trans rep.head, ?_, ?_, rep.multiple,
    base.trans rep.base, limit.trans rep.limit, next ▸ rep.within⟩
  · intro addr member
    obtain ⟨block, listed, rfl⟩ := List.mem_map.mp member
    exact Memory.read32_congr fun x low high => kept x ⟨block, listed, by omega, by omega⟩
  · intro addr member
    obtain ⟨block, listed, rfl⟩ := List.mem_map.mp member
    exact Memory.read32_congr fun x low high => kept x ⟨block, listed, by omega, by omega⟩
  · intro block listed
    exact (rep.headers block listed).congr
      fun x low high => kept x ⟨block, listed, low, by omega⟩
  · rw [base, next]
    exact rep.tiled

end Represents

/-- Exchange a run of neighbouring blocks for another run over the same bytes.
Outside the run the memory changes at most in the back link of the next block,
which is set to the last block of the new run.

Proof: the blocks before the run keep their headers, and the last of them keeps
its forward link because the run starts at the same address. The blocks after
the run keep everything but the first back link. Cutting the linked list at both
ends of the run and joining the parts again gives the new list. -/
theorem Represents.replace {heap : HeapState} {left run right : List Block}
    (rep : Represents heap (left ++ run ++ right)) (run' : List Block) (memory : Memory)
    (start stop : Nat) (runTiled : Tiled start run stop)
    (runTiled' : Tiled start run' stop) (nonempty : run ≠ []) (nonempty' : run' ≠ [])
    (kept : ∀ x, x < start ∨ stop ≤ x →
      (∀ block ∈ right.head?, x < block.addr + 20 ∨ block.addr + 24 ≤ x) →
      memory.byte x = heap.memory.byte x)
    (backLink : ∀ block ∈ right.head?,
      blockPrev memory block.addr = (run'.map Block.addr).getLastD 0)
    (runLinked : Linked (blockNext memory) (blockPrev memory) ((left.map Block.addr).getLastD 0)
      ((right.map Block.addr).headD 0) (run'.map Block.addr))
    (headers : ∀ block ∈ run', Header memory block)
    (multiple : ∀ block ∈ run', block.size % 8 = 0) :
    Represents { heap with memory := memory } (left ++ run' ++ right) := by
  obtain ⟨seam, frontTiled, rightTiled⟩ := tiled_append.mp rep.tiled
  obtain ⟨seam', leftTiled, runTiled''⟩ := tiled_append.mp frontTiled
  obtain ⟨first, rest, rfl⟩ := List.exists_cons_of_ne_nil nonempty
  obtain ⟨first', rest', rfl⟩ := List.exists_cons_of_ne_nil nonempty'
  have startEq : seam' = start := runTiled''.1.symm.trans runTiled.1
  have stopEq : seam = stop := by
    have unique : ∀ (blocks : List Block) (a b c : Nat), Tiled a blocks b → Tiled a blocks c →
        b = c := by
      intro blocks
      induction blocks with
      | nil => exact fun a b c one two => one.symm.trans two
      | cons block more ih => exact fun a b c one two => ih _ b c one.2 two.2
    exact unique _ _ _ _ (startEq ▸ runTiled'') runTiled
  subst startEq stopEq
  have runRange := runTiled.le
  -- Every byte of a header on the left, and every byte before the back link on the right, is kept.
  have keptLeft : ∀ block ∈ left, ∀ x, block.addr ≤ x → x < block.addr + 24 →
      memory.byte x = heap.memory.byte x := by
    intro block member x low high
    have inside := leftTiled.bounds member
    refine kept x (Or.inl ?_) ?_
    · simp only [Block.stop] at inside
      omega
    · intro next isNext
      have behind := (rightTiled.bounds (List.mem_of_mem_head? isNext)).1
      simp only [Block.stop] at inside
      omega
  have keptRight : ∀ block ∈ right, ∀ x, block.addr ≤ x → x < block.addr + 20 →
      memory.byte x = heap.memory.byte x := by
    intro block member x low high
    have inside := rightTiled.bounds member
    refine kept x (Or.inr (by omega)) ?_
    intro next isNext
    have split := List.eq_cons_of_mem_head? isNext
    rw [split] at member rightTiled
    rcases List.mem_cons.mp member with rfl | later
    · exact Or.inl high
    · have behind := (rightTiled.2.bounds later).1
      simp only [Block.stop] at behind
      omega
  have keptTail : ∀ block ∈ right.tail, ∀ x, block.addr ≤ x → x < block.addr + 24 →
      memory.byte x = heap.memory.byte x := by
    intro block member x low high
    cases right with
    | nil => simp at member
    | cons next others =>
      have behind := (rightTiled.2.bounds member).1
      have inside := rightTiled.bounds (List.mem_cons_of_mem next member)
      simp only [Block.stop] at behind
      refine kept x (Or.inr (by omega)) ?_
      intro found isNext
      have same : next = found := by simpa using isNext
      subst same
      omega
  have linked := rep.linked
  rw [List.map_append, List.map_append, linked_append, linked_append] at linked
  obtain ⟨⟨leftLinked, -⟩, rightLinked⟩ := linked
  have headAddr : first.addr = first'.addr := runTiled.1.trans runTiled'.1.symm
  refine ⟨?_, ?_, ?_, ?_, ?_, rep.base, rep.limit, rep.within⟩
  · rw [List.map_append, List.map_append, linked_append, linked_append]
    refine ⟨⟨?_, runLinked⟩, ?_⟩
    · simp only [List.map_cons, List.headD_cons, ← headAddr] at leftLinked ⊢
      refine leftLinked.congr ?_ ?_
      · intro addr member
        obtain ⟨block, inLeft, rfl⟩ := List.mem_map.mp member
        exact Memory.read32_congr fun x low high => keptLeft block inLeft x (by omega) (by omega)
      · intro addr member
        obtain ⟨block, inLeft, rfl⟩ := List.mem_map.mp member
        exact Memory.read32_congr fun x low high => keptLeft block inLeft x (by omega) (by omega)
    · refine rightLinked.retarget_before ?_ ?_ ?_
      · intro addr member
        obtain ⟨block, inRight, rfl⟩ := List.mem_map.mp member
        exact Memory.read32_congr fun x low high => keptRight block inRight x (by omega) (by omega)
      · intro addr member
        rw [← List.map_tail] at member
        obtain ⟨block, inTail, rfl⟩ := List.mem_map.mp member
        exact Memory.read32_congr fun x low high => keptTail block inTail x (by omega) (by omega)
      · intro addr member
        rw [List.head?_map] at member
        obtain ⟨block, isNext, rfl⟩ := Option.mem_map.mp member
        rw [backLink block isNext, List.getLastD_eq_getLast?, List.getLastD_eq_getLast?,
          List.getLast?_append]
        simp [List.getLast?_cons]
  · have same := rep.head
    cases left with
    | nil => simpa [headAddr] using same
    | cons block more => simpa using same
  · intro block member
    rw [List.mem_append, List.mem_append] at member
    rcases member with (inLeft | inRun) | inRight
    · exact (rep.headers block (by simp [inLeft])).congr
        fun x low high => keptLeft block inLeft x low (by omega)
    · exact headers block inRun
    · exact (rep.headers block (by simp [inRight])).congr
        fun x low high => keptRight block inRight x low (by omega)
  · exact tiled_append.mpr ⟨_, tiled_append.mpr ⟨_, leftTiled, runTiled'⟩, rightTiled⟩
  · intro block member
    rw [List.mem_append, List.mem_append] at member
    rcases member with (inLeft | inRun) | inRight
    · exact rep.multiple block (by simp [inLeft])
    · exact multiple block inRun
    · exact rep.multiple block (by simp [inRight])

end Toyix.Heap
