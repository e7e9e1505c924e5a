import Toyix.Heap.Blocks

/-!
# Allocator steps as changes of the block list

Each step of the allocator that reads or writes headers is run on a represented
heap and described by what it does to the list of blocks: searching returns the
first fit, taking a block splits it, freeing a block joins it with its free
neighbours. Every law also bounds the bytes written: a step changes headers of
listed blocks only, and a header it creates lies in the payload of the free block
it came from.
-/

namespace Toyix.Heap

open Library Library.Links

variable {σ : Type} {block : Block} {heap : HeapState} {left right : List Block}

/-- The blocks in use, in address order. -/
def used (blocks : List Block) : List Block := blocks.filter fun block => !block.free

@[simp] theorem used_nil : used [] = [] := rfl

theorem used_append (left right : List Block) : used (left ++ right) = used left ++ used right := by
  simp [used]

theorem used_cons_free (free : block.free = true) (rest : List Block) :
    used (block :: rest) = used rest := by
  simp [used, free]

theorem used_cons_taken (taken : block.free = false) (rest : List Block) :
    used (block :: rest) = block :: used rest := by
  simp [used, taken]

/-- The address of the first free block that is large enough, or null. -/
def firstFit (wanted : Nat) (blocks : List Block) : Nat :=
  ((blocks.find? fun block => block.free && decide (wanted ≤ block.size)).map Block.addr).getD 0

/-- A represented list is shorter than the walk bound. -/
theorem Represents.short {blocks : List Block} (rep : Represents heap blocks) :
    blocks.length < walkBound := by
  have length := rep.tiled.length_le
  have high := rep.within
  simp only [heapVirtualLimitAddress, walkBound] at *
  omega

/-- Search from any block of the list finds the first fit from there on.

The induction is on the blocks not yet visited; the visited ones are kept in
`left` so that the representation always speaks about the whole list. -/
theorem find_from (wanted fuel : Nat) (left right : List Block) (pages : σ)
    (rep : Represents heap (left ++ right)) (enough : right.length < fuel) :
    findFreeBlockFrom wanted fuel ((right.map Block.addr).headD 0) ⟨heap, pages⟩ =
      .done (firstFit wanted right) ⟨heap, pages⟩ := by
  induction right generalizing left fuel with
  | nil =>
    obtain ⟨fuel, rfl⟩ := Nat.exists_eq_succ_of_ne_zero (Nat.ne_of_gt enough)
    simp [findFreeBlockFrom, firstFit]
  | cons block rest ih =>
    obtain ⟨fuel, rfl⟩ := Nat.exists_eq_succ_of_ne_zero (Nat.ne_of_gt (Nat.lt_of_le_of_lt (Nat.zero_le _) enough))
    have member : block ∈ left ++ block :: rest := by simp
    have notNull := rep.not_null member
    have header := rep.headers block member
    have forward := rep.links.2
    have shifted : Represents heap ((left ++ [block]) ++ rest) := by simpa using rep
    have later := ih fuel (left ++ [block]) shifted (by simp only [List.length_cons] at enough; omega)
    simp only [List.map_cons, List.headD_cons, findFreeBlockFrom, notNull, ↓reduceIte,
      bind_apply, rep.validate member, andThen_done, heapNow, ite_run,
      header.isFree, header.size, forward, later, pure_apply, firstFit]
    by_cases fits : block.free = true ∧ wanted ≤ block.size
    · simp [fits.1, fits.2]
    · by_cases free : block.free = true
      · have small : ¬ wanted ≤ block.size := fun large => fits ⟨free, large⟩
        simp [free, small]
      · simp [free]

/-- `find_free_block` returns the first fit and changes nothing. -/
theorem find_free_block_exact {blocks : List Block} (wanted : Nat) (pages : σ)
    (rep : Represents heap blocks) :
    findFreeBlock wanted ⟨heap, pages⟩ = .done (firstFit wanted blocks) ⟨heap, pages⟩ := by
  have walk := find_from wanted walkBound [] blocks pages rep rep.short
  simp only [findFreeBlock, bind_apply, heapNow, andThen_done, rep.head, walk]

/-- A non-null search result names a listed free block that is large enough; a
null result means that there is none. -/
theorem first_fit_cases (wanted : Nat) (blocks : List Block) :
    (firstFit wanted blocks = 0 ∧ ∀ block ∈ blocks, block.free = true → block.size < wanted) ∨
      ∃ left block right, blocks = left ++ block :: right ∧ firstFit wanted blocks = block.addr ∧
        block.free = true ∧ wanted ≤ block.size := by
  cases found : blocks.find? fun block => block.free && decide (wanted ≤ block.size) with
  | none =>
    refine Or.inl ⟨by simp [firstFit, found], ?_⟩
    intro block member free
    have rejected := List.find?_eq_none.mp found block member
    simpa [free] using rejected
  | some block =>
    have suits := List.find?_some found
    simp only [Bool.and_eq_true, decide_eq_true_eq] at suits
    obtain ⟨left, right, split⟩ := List.append_of_mem (List.mem_of_find?_eq_some found)
    exact Or.inr ⟨left, block, right, split, by simp [firstFit, found], suits.1, suits.2⟩

/-- Writing the state word of a listed block. -/
theorem Represents.set_free (rep : Represents heap (left ++ block :: right)) (free : Bool) :
    Represents { heap with memory := setIsFree heap.memory block.addr (if free then 1 else 0) }
      (left ++ { block with free := free } :: right) := by
  have member : block ∈ left ++ block :: right := by simp
  have header := rep.headers block member
  obtain ⟨back, forward⟩ := rep.links
  obtain ⟨before, after⟩ := rep.before_cut
  have small : (if free then 1 else 0) < 2 ^ 32 := by cases free <;> decide
  have rep' : Represents heap (left ++ [block] ++ right) := by simpa using rep
  have changed := rep'.replace [{ block with free := free }]
    (setIsFree heap.memory block.addr (if free then 1 else 0)) block.addr block.stop
    ⟨rfl, rfl⟩ ⟨rfl, rfl⟩ (by simp) (by simp) ?_ ?_ ?_ ?_ ?_
  · simpa using changed
  · intro x outside _
    exact Memory.write32_apply_outside _ _ _ _ (by simp only [Block.stop] at outside; omega)
  · intro next isNext
    have behind := after next (List.mem_of_mem_head? isNext)
    simp only [Block.stop] at behind
    rw [blockPrev, setIsFree, Memory.read32_write32_of_disjoint _ _ _ _ (by omega)]
    exact rep.back_link isNext
  · refine ⟨?_, ?_, trivial⟩
    · rw [blockPrev, setIsFree, Memory.read32_write32_of_disjoint _ _ _ _ (by simp)]
      exact back
    · rw [blockNext, setIsFree, Memory.read32_write32_of_disjoint _ _ _ _ (by simp)]
      exact forward
  · intro found isRun
    obtain rfl := List.mem_singleton.mp isRun
    refine ⟨?_, ?_, ?_⟩
    · rw [blockMagic, setIsFree, Memory.read32_write32_of_disjoint _ _ _ _ (by simp)]
      exact header.magic
    · rw [blockSize, setIsFree, Memory.read32_write32_of_disjoint _ _ _ _ (by simp)]
      exact header.size
    · exact Memory.read32_write32 _ _ _ small
  · intro found isRun
    obtain rfl := List.mem_singleton.mp isRun
    exact rep.multiple block member

/-- The blocks that replace a free block when `wanted` bytes of it are taken: the
block itself when the rest is too small for a header and a payload of sixteen
bytes, otherwise the front part and a free rest. -/
def splitBlocks (block : Block) (wanted : Nat) : List Block :=
  if block.size - wanted < 40 then [block]
  else [⟨block.addr, wanted, block.free⟩,
    ⟨block.addr + 24 + wanted, block.size - wanted - 24, true⟩]

/-- The memory after the writes of a split: the new header, then the links and
the size of the old one. -/
def splitMemory (memory : Memory) (addr split next rest wanted : Nat) : Memory :=
  let fresh := setNext (setPrev (setReserved (setIsFree (setSize (setMagic memory split heapMagic)
    split rest) split 1) split 0) split addr) split next
  setSize (setNext (if next ≠ 0 then setPrev fresh next split else fresh) addr split) addr wanted

section SplitMemory

variable (memory : Memory) (addr split next rest wanted : Nat)

/-- A split writes the two headers and one back link, nothing else. -/
theorem split_memory_kept (x : Nat) (notOld : x < addr ∨ addr + 24 ≤ x)
    (notNew : x < split ∨ split + 24 ≤ x)
    (notBack : next = 0 ∨ x < next + 20 ∨ next + 24 ≤ x) :
    (splitMemory memory addr split next rest wanted).byte x = memory.byte x := by
  simp only [splitMemory, setMagic, setSize, setIsFree, setReserved, setPrev, setNext]
  split
  · simp (disch := omega) only [Memory.write32_apply_outside]
  · simp (disch := omega) only [Memory.write32_apply_outside]

/-- The old header keeps its stamp, state and back link. -/
theorem split_memory_old (behind : addr + 24 ≤ split) (apart : next = 0 ∨ split + 24 ≤ next) :
    let after := splitMemory memory addr split next rest wanted
    blockMagic after addr = blockMagic memory addr ∧ blockIsFree after addr = blockIsFree memory addr ∧
      blockPrev after addr = blockPrev memory addr := by
  simp only [splitMemory, blockMagic, blockIsFree, blockPrev, setMagic, setSize, setIsFree,
    setReserved, setPrev, setNext]
  split
  · simp (disch := omega) only [Memory.read32_write32_of_disjoint, and_self]
  · simp (disch := omega) only [Memory.read32_write32_of_disjoint, and_self]

/-- The words a split stores are read back. -/
theorem split_memory_new (behind : addr + 24 ≤ split) (apart : next = 0 ∨ split + 24 ≤ next)
    (bounded : split < 2 ^ 32) (restBounded : rest < 2 ^ 32) (nextBounded : next < 2 ^ 32)
    (wantedBounded : wanted < 2 ^ 32) :
    let after := splitMemory memory addr split next rest wanted
    blockSize after addr = wanted ∧ blockNext after addr = split ∧
      blockMagic after split = heapMagic ∧ blockSize after split = rest ∧
      blockIsFree after split = 1 ∧ blockNext after split = next ∧ blockPrev after split = addr ∧
      (next ≠ 0 → blockPrev after next = split) := by
  have magic : heapMagic < 2 ^ 32 := by decide
  simp only [splitMemory, blockMagic, blockSize, blockIsFree, blockNext, blockPrev, setMagic,
    setSize, setIsFree, setReserved, setPrev, setNext]
  by_cases last : next = 0
  · subst last
    simp only [ne_eq, not_true_eq_false, ↓reduceIte]
    simp (disch := omega) only [Memory.read32_write32_of_disjoint, Memory.read32_write32,
      and_self, false_implies]
  · simp only [last, ne_eq, not_false_eq_true, ↓reduceIte]
    simp (disch := omega) only [Memory.read32_write32_of_disjoint, Memory.read32_write32,
      and_self, true_implies]

end SplitMemory

/-- `split_block_if_large_enough` exchanges the block for its parts. Only headers
are written: that of the block, the new one inside its payload, and the back link
of the next block. -/
theorem split_exact (wanted : Nat) (pages : σ) (rep : Represents heap (left ++ block :: right))
    (fits : wanted ≤ block.size) (whole : wanted % 8 = 0) :
    ∃ memory, splitBlockIfLargeEnough block.addr wanted ⟨heap, pages⟩ =
        .done ⟨⟩ ⟨{ heap with memory := memory }, pages⟩ ∧
      Represents { heap with memory := memory } (left ++ splitBlocks block wanted ++ right) ∧
      ∀ x, ¬ InHeader (left ++ block :: right) x → ¬ InHeader (splitBlocks block wanted) x →
        memory.byte x = heap.memory.byte x := by
  have member : block ∈ left ++ block :: right := by simp
  have header := rep.headers block member
  obtain ⟨back, forward⟩ := rep.links
  obtain ⟨before, after⟩ := rep.before_cut
  have inside := rep.bounds member
  have multiple := rep.multiple block member
  have large : ¬ block.size < wanted := by omega
  by_cases small : block.size - wanted < 40
  · refine ⟨heap.memory, ?_, ?_, fun _ _ _ => rfl⟩
    · simp [splitBlockIfLargeEnough, rep.validate member, header.size, large,
        heapMinSplitPayload, small]
    · simpa [splitBlocks, small] using rep
  · simp only [Block.stop] at inside
    obtain ⟨split, splitEq⟩ : ∃ split, split = block.addr + 24 + wanted := ⟨_, rfl⟩
    obtain ⟨next, nextEq⟩ : ∃ next, next = (right.map Block.addr).headD 0 := ⟨_, rfl⟩
    have wrapped : (block.addr + 24 + wanted) % 2 ^ 32 = split := by omega
    have listed : ∀ found ∈ right.head?, found ∈ left ++ block :: right := fun found isNext =>
      List.mem_append_right left (List.mem_cons_of_mem block (List.mem_of_mem_head? isNext))
    have nextBounds : next = 0 ∨ (block.addr + 24 + block.size ≤ next ∧ next < 0xD2000000) := by
      refine head_or_null nextEq fun found isNext same => ?_
      have behind := after found (List.mem_of_mem_head? isNext)
      have bounded := rep.bounds (listed found isNext)
      simp only [Block.stop] at behind bounded
      omega
    have apart : next = 0 ∨ split + 24 ≤ next := by omega
    have behind : block.addr + 24 ≤ split := by omega
    obtain ⟨oldMagic, oldFree, oldPrev⟩ := split_memory_old heap.memory block.addr split next
      (block.size - wanted - 24) wanted behind apart
    obtain ⟨newSize, newNext, splitMagic, splitSize, splitFree, splitNext, splitPrev, nextPrev⟩ :=
      split_memory_new heap.memory block.addr split next (block.size - wanted - 24) wanted behind
        apart (by omega) (by omega) (by omega) (by omega)
    refine ⟨splitMemory heap.memory block.addr split next (block.size - wanted - 24) wanted,
      ?_, ?_, ?_⟩
    · obtain ⟨fresh, freshEq⟩ : ∃ fresh, fresh = setPrev (setReserved (setIsFree (setSize
        (setMagic heap.memory split heapMagic) split (block.size - wanted - 24)) split 1) split 0)
        split block.addr := ⟨_, rfl⟩
      have freshNext : blockNext fresh block.addr = next := by
        simp only [freshEq, blockNext, setPrev, setReserved, setIsFree, setSize, setMagic]
        simp (disch := omega) only [Memory.read32_write32_of_disjoint]
        exact forward.trans nextEq.symm
      have linkedNext : blockNext (setNext fresh split next) block.addr = next := by
        rw [blockNext, setNext, Memory.read32_write32_of_disjoint _ _ _ _ (by omega)]
        exact freshNext
      simp only [splitBlockIfLargeEnough, bind_apply, rep.validate member, andThen_done,
        heapNow_apply, header.size, large, header_size_eq, heapMinSplitPayload, small, ↓reduceIte,
        store_apply, wrapped, Nat.reduceAdd, splitMemory, ← freshEq, freshNext, linkedNext]
    · have rep' : Represents heap (left ++ [block] ++ right) := by simpa using rep
      have parts : splitBlocks block wanted = [⟨block.addr, wanted, block.free⟩,
          ⟨split, block.size - wanted - 24, true⟩] := by
        simp [splitBlocks, small, splitEq]
      rw [parts]
      refine rep'.replace _ _ block.addr block.stop ⟨rfl, rfl⟩ ⟨rfl, ?_, ?_⟩ (by simp) (by simp)
        ?_ ?_ ?_ ?_ ?_
      · simp only [Block.stop]
        omega
      · simp only [Block.stop, Tiled]
        omega
      · intro x outside notBack
        refine split_memory_kept _ _ _ _ _ _ x ?_ ?_ ?_
        · simp only [Block.stop] at outside
          omega
        · simp only [Block.stop] at outside
          omega
        · exact head_or_null nextEq fun found isNext same => same ▸ notBack found isNext
      · intro found isNext
        have bounded := rep.bounds (listed found isNext)
        rw [← head_addr isNext, ← nextEq] at bounded ⊢
        exact nextPrev (by omega)
      · exact ⟨oldPrev.trans back, newNext, splitPrev, splitNext.trans nextEq, trivial⟩
      · intro found isPart
        simp only [List.mem_cons, List.not_mem_nil, or_false] at isPart
        rcases isPart with rfl | rfl
        · exact ⟨oldMagic.trans header.magic, newSize, oldFree.trans header.isFree⟩
        · exact ⟨splitMagic, splitSize, splitFree⟩
      · intro found isPart
        simp only [List.mem_cons, List.not_mem_nil, or_false] at isPart
        rcases isPart with rfl | rfl
        · exact whole
        · simp only
          omega
    · intro x notOld notNew
      have notBlock := outside_header notOld member
      have notSplit : x < split ∨ split + 24 ≤ x := by
        have isPart : (⟨split, block.size - wanted - 24, true⟩ : Block) ∈ splitBlocks block wanted := by
          simp [splitBlocks, small, splitEq]
        exact outside_header notNew isPart
      refine split_memory_kept _ _ _ _ _ _ x notBlock notSplit (head_or_null nextEq ?_)
      intro found isNext same
      have missed := outside_header notOld (listed found isNext)
      omega

/-- A free block absorbs a free block right after it. -/
def joinNext (block : Block) (right : List Block) : List Block :=
  match right with
  | [] => [block]
  | next :: rest =>
    if block.free && next.free then ⟨block.addr, block.size + 24 + next.size, true⟩ :: rest
    else block :: next :: rest

/-- The memory after the writes of a join. -/
def joinMemory (memory : Memory) (addr after total : Nat) : Memory :=
  let resized := setNext (setSize memory addr total) addr after
  if after ≠ 0 then setPrev resized after addr else resized

section JoinMemory

variable (memory : Memory) (addr after total : Nat)

/-- A join writes one size, one forward link and one back link. -/
theorem join_memory_kept (x : Nat)
    (notOld : x < addr + 4 ∨ addr + 8 ≤ x ∧ x < addr + 16 ∨ addr + 24 ≤ x)
    (notBack : after = 0 ∨ x < after + 20 ∨ after + 24 ≤ x) :
    (joinMemory memory addr after total).byte x = memory.byte x := by
  simp only [joinMemory, setSize, setPrev, setNext]
  split
  · simp (disch := omega) only [Memory.write32_apply_outside]
  · simp (disch := omega) only [Memory.write32_apply_outside]

/-- The header of the joined block. -/
theorem join_memory_reads (behind : after = 0 ∨ addr + 24 ≤ after) (bounded : after < 2 ^ 32)
    (addrBounded : addr < 2 ^ 32) (totalBounded : total < 2 ^ 32) :
    let joined := joinMemory memory addr after total
    blockMagic joined addr = blockMagic memory addr ∧ blockSize joined addr = total ∧
      blockIsFree joined addr = blockIsFree memory addr ∧ blockNext joined addr = after ∧
      blockPrev joined addr = blockPrev memory addr ∧
      (after ≠ 0 → blockPrev joined after = addr) := by
  simp only [joinMemory, blockMagic, blockSize, blockIsFree, blockNext, blockPrev, setSize,
    setPrev, setNext]
  by_cases last : after = 0
  · subst last
    simp only [ne_eq, not_true_eq_false, ↓reduceIte]
    simp (disch := omega) only [Memory.read32_write32_of_disjoint, Memory.read32_write32,
      and_self, false_implies]
  · simp only [last, ne_eq, not_false_eq_true, ↓reduceIte]
    simp (disch := omega) only [Memory.read32_write32_of_disjoint, Memory.read32_write32,
      and_self, true_implies]

end JoinMemory

/-- `coalesce_with_next` joins two free neighbours and otherwise does nothing. It
returns the block it was given. -/
theorem coalesce_next_exact (pages : σ) (rep : Represents heap (left ++ block :: right)) :
    ∃ memory, coalesceWithNext block.addr ⟨heap, pages⟩ =
        .done block.addr ⟨{ heap with memory := memory }, pages⟩ ∧
      Represents { heap with memory := memory } (left ++ joinNext block right) ∧
      ∀ x, ¬ InJoint (left ++ block :: right) x → memory.byte x = heap.memory.byte x := by
  have member : block ∈ left ++ block :: right := by simp
  have header := rep.headers block member
  obtain ⟨back, forward⟩ := rep.links
  have inside := rep.bounds member
  cases right with
  | nil =>
    refine ⟨heap.memory, ?_, rep, fun _ _ => rfl⟩
    simp [coalesceWithNext, rep.validate member, forward]
  | cons next rest =>
    have nextMember : next ∈ left ++ block :: next :: rest := by simp
    have nextHeader := rep.headers next nextMember
    have nextInside := rep.bounds nextMember
    have shifted : Represents heap ((left ++ [block]) ++ next :: rest) := by simpa using rep
    have nextForward := shifted.links.2
    have nextNotNull : next.addr ≠ 0 := by omega
    have forward' : blockNext heap.memory block.addr = next.addr := forward
    have touching := rep.adjacent
    simp only [Block.stop] at inside nextInside touching
    by_cases bothFree : block.free = true ∧ next.free = true
    · obtain ⟨after, afterEq⟩ : ∃ after, after = (rest.map Block.addr).headD 0 := ⟨_, rfl⟩
      obtain ⟨total, totalEq⟩ : ∃ total, total = block.size + 24 + next.size := ⟨_, rfl⟩
      have listed : ∀ found ∈ rest.head?, found ∈ left ++ block :: next :: rest :=
        fun found isNext => List.mem_append_right left
          (List.mem_cons_of_mem block (List.mem_cons_of_mem next (List.mem_of_mem_head? isNext)))
      have afterBounds : after = 0 ∨ (next.addr + 24 ≤ after ∧ after < 0xD2000000) := by
        refine head_or_null afterEq fun found isNext same => ?_
        have behind := shifted.before_cut.2 found (List.mem_of_mem_head? isNext)
        have bounded := rep.bounds (listed found isNext)
        simp only [Block.stop] at behind bounded
        omega
      have wrapped : (block.size + (24 + next.size)) % 2 ^ 32 = total := by omega
      have endAddr : (block.addr + 24 + block.size) % 2 ^ 32 = next.addr := by omega
      obtain ⟨joinMagic, joinSize, joinFree, joinForward, joinBack, afterBack⟩ :=
        join_memory_reads heap.memory block.addr after total (by omega) (by omega) (by omega)
          (by omega)
      refine ⟨joinMemory heap.memory block.addr after total, ?_, ?_, ?_⟩
      · have resizedNext : blockNext (setSize heap.memory block.addr total) next.addr = after := by
          rw [blockNext, setSize, Memory.read32_write32_of_disjoint _ _ _ _ (by omega)]
          exact nextForward.trans afterEq.symm
        have linkedNext : blockNext (setNext (setSize heap.memory block.addr total) block.addr
            after) next.addr = after := by
          rw [blockNext, setNext, Memory.read32_write32_of_disjoint _ _ _ _ (by omega)]
          exact resizedNext
        simp only [coalesceWithNext, bind_apply, rep.validate member, rep.validate nextMember,
          andThen_done, heapNow_apply, forward', nextNotNull, header.isFree, nextHeader.isFree,
          bothFree.1, bothFree.2, one_ne_zero, or_self, ↓reduceIte, blocksAreAdjacent, blockEndAddr,
          header.size, nextHeader.size, header_size_eq, endAddr, beq_self_eq_true, Bool.true_eq_false,
          store_apply, wrapped, resizedNext, linkedNext, joinMemory, pure_apply]
      · have rep' : Represents heap (left ++ [block, next] ++ rest) := by simpa using rep
        have joined : joinNext block (next :: rest) = [⟨block.addr, total, true⟩] ++ rest := by
          simp [joinNext, bothFree, totalEq]
        rw [joined, ← List.append_assoc]
        refine rep'.replace _ _ block.addr next.stop ⟨rfl, ?_, rfl⟩ ⟨rfl, ?_⟩ (by simp) (by simp)
          ?_ ?_ ?_ ?_ ?_
        · simpa only [Block.stop] using touching
        · simp only [Block.stop, Tiled]
          omega
        · intro x outside notBack
          refine join_memory_kept _ _ _ _ x ?_ ?_
          · simp only [Block.stop] at outside
            omega
          · exact head_or_null afterEq fun found isNext same => same ▸ notBack found isNext
        · intro found isNext
          have bounded := rep.bounds (listed found isNext)
          rw [← head_addr isNext, ← afterEq] at bounded ⊢
          exact afterBack (by omega)
        · exact ⟨joinBack.trans back, joinForward.trans afterEq, trivial⟩
        · intro found isPart
          obtain rfl := List.mem_singleton.mp isPart
          refine ⟨joinMagic.trans header.magic, joinSize, ?_⟩
          simpa [bothFree.1] using joinFree.trans header.isFree
        · intro found isPart
          obtain rfl := List.mem_singleton.mp isPart
          have multiple := rep.multiple block member
          have nextMultiple := rep.multiple next nextMember
          simp only
          omega
      · intro x notOld
        refine join_memory_kept _ _ _ _ x (outside_joint notOld member) (head_or_null afterEq ?_)
        intro found isNext same
        have missed := outside_joint notOld (listed found isNext)
        omega
    · have someUsed : blockIsFree heap.memory block.addr = 0 ∨
          blockIsFree heap.memory next.addr = 0 := by
        rw [header.isFree, nextHeader.isFree]
        cases first : block.free <;> cases second : next.free <;> simp_all
      refine ⟨heap.memory, ?_, ?_, fun _ _ => rfl⟩
      · simp only [coalesceWithNext, bind_apply, rep.validate member, rep.validate nextMember,
          andThen_done, heapNow_apply, forward', nextNotNull, ↓reduceIte, someUsed, pure_apply]
      · have unchanged : joinNext block (next :: rest) = block :: next :: rest := by
          simp only [joinNext, Bool.and_eq_true, bothFree, ↓reduceIte]
        rw [unchanged]
        exact rep

/-- Joining a free block with what follows gives a free block at the same address
that is no smaller and has no free block after it. -/
theorem join_next_shape (free : block.free = true) (coalesced : Coalesced right) :
    ∃ size rest, joinNext block right = ⟨block.addr, size, true⟩ :: rest ∧ block.size ≤ size ∧
      used rest = used right ∧ Coalesced rest ∧ (∀ next ∈ rest.head?, next.free = false) ∧
      ∀ found ∈ rest, found ∈ right := by
  obtain ⟨addr, size, state⟩ := block
  simp only at free
  subst free
  cases right with
  | nil => exact ⟨size, [], rfl, Nat.le_refl _, rfl, List.IsChain.nil, by simp, by simp⟩
  | cons next rest =>
    cases nextFree : next.free with
    | true =>
      refine ⟨size + 24 + next.size, rest, by simp [joinNext, nextFree], by simp only; omega, ?_, ?_,
        ?_, fun found later => List.mem_cons_of_mem next later⟩
      · exact (used_cons_free nextFree rest).symm
      · exact coalesced.tail
      · intro after isNext
        rw [List.eq_cons_of_mem_head? isNext] at coalesced
        have apart := (List.isChain_cons_cons.mp coalesced).1
        cases afterFree : after.free with
        | true => exact absurd ⟨nextFree, afterFree⟩ apart
        | false => rfl
    | false =>
      refine ⟨size, next :: rest, by simp [joinNext, nextFree], Nat.le_refl _, rfl, coalesced, ?_,
        fun found later => later⟩
      intro found isNext
      have same : next = found := by simpa using isNext
      exact same ▸ nextFree

/-- A free block between two coalesced lists that both turn a used block to it
makes a coalesced list. -/
theorem coalesced_around (front : Coalesced left) (behind : Coalesced right)
    (lastUsed : ∀ other ∈ left.getLast?, other.free = false)
    (nextUsed : ∀ other ∈ right.head?, other.free = false) :
    Coalesced (left ++ block :: right) := by
  refine List.isChain_append.mpr ⟨front, List.isChain_cons.mpr ⟨?_, behind⟩, ?_⟩
  · intro other isNext both
    simp [nextUsed other isNext] at both
  · intro other isLast found isFirst both
    simp [lastUsed other isLast] at both

/-- `coalesce_around` on a free block joins it with its free neighbours on both
sides: no two free blocks remain next to each other, the used blocks are the same,
no block starts where none did, and only sizes and links of listed blocks were written.
The block returned is free, listed and no smaller than the one given.

Proof: the join with the next block is `coalesce_next_exact`. If the block before
is free, the list is cut there and the same law joins the result with it. -/
theorem coalesce_around_exact (pages : σ) (rep : Represents heap (left ++ block :: right))
    (free : block.free = true) (front : Coalesced left) (behind : Coalesced right) :
    ∃ memory blocks joined, coalesceAround block.addr ⟨heap, pages⟩ =
        .done joined.addr ⟨{ heap with memory := memory }, pages⟩ ∧
      Represents { heap with memory := memory } blocks ∧ Coalesced blocks ∧
      used blocks = used left ++ used right ∧ joined ∈ blocks ∧ joined.free = true ∧
      block.size ≤ joined.size ∧
      (∀ found ∈ blocks, ∃ other ∈ left ++ block :: right, other.addr = found.addr) ∧
      ∀ x, ¬ InJoint (left ++ block :: right) x → memory.byte x = heap.memory.byte x := by
  have member : block ∈ left ++ block :: right := by simp
  obtain ⟨memory, joinRun, joinRep, joinKept⟩ := coalesce_next_exact pages rep
  obtain ⟨size, rest, shape, grown, sameUsed, restCoalesced, nextUsed, subset⟩ :=
    join_next_shape free behind
  rw [shape] at joinRep
  have back := joinRep.links.1
  have starts : ∀ found ∈ left ++ ⟨block.addr, size, true⟩ :: rest,
      ∃ other ∈ left ++ block :: right, other.addr = found.addr := by
    intro found isListed
    simp only [List.mem_append, List.mem_cons] at isListed
    rcases isListed with inLeft | rfl | inRest
    · exact ⟨found, List.mem_append_left _ inLeft, rfl⟩
    · exact ⟨block, member, rfl⟩
    · exact ⟨found, List.mem_append_right left (List.mem_cons_of_mem block (subset found inRest)), rfl⟩
  rcases List.eq_nil_or_concat left with rfl | ⟨front', previous, rfl⟩
  · refine ⟨memory, _, ⟨block.addr, size, true⟩, ?_, joinRep, ?_, ?_, by simp, rfl, grown, starts,
      joinKept⟩
    · have noPrev : blockPrev memory block.addr = 0 := back
      simp only [coalesceAround, bind_apply, rep.validate member, andThen_done,
        joinRun, heapNow_apply, noPrev, ne_eq, not_true_eq_false, ↓reduceIte, pure_apply]
    · exact coalesced_around front restCoalesced (by simp) nextUsed
    · rw [List.nil_append, used_cons_free rfl, sameUsed]
      rfl
  · have prevAddr : blockPrev memory block.addr = previous.addr := by
      rwa [List.concat_eq_append, List.map_append, List.map_singleton, List.getLastD_concat] at back
    have shifted : Represents { heap with memory := memory }
        (front' ++ previous :: ⟨block.addr, size, true⟩ :: rest) := by
      simpa using joinRep
    have prevMember : previous ∈ front' ++ previous :: ⟨block.addr, size, true⟩ :: rest := by simp
    have prevHeader := shifted.headers previous prevMember
    have prevInside := shifted.bounds prevMember
    have touching : block.addr = previous.addr + 24 + previous.size := shifted.adjacent
    simp only [Block.stop] at prevInside
    have prevNotNull : previous.addr ≠ 0 := by omega
    have endAddr : (previous.addr + 24 + previous.size) % 2 ^ 32 = block.addr := by omega
    rw [List.concat_eq_append] at front
    have frontParts := List.isChain_append.mp front
    cases prevFree : previous.free with
    | true =>
      obtain ⟨memory', outerRun, outerRep, outerKept⟩ := coalesce_next_exact pages shifted
      have merged : joinNext previous (⟨block.addr, size, true⟩ :: rest) =
          ⟨previous.addr, previous.size + 24 + size, true⟩ :: rest := by
        simp [joinNext, prevFree]
      rw [merged] at outerRep
      refine ⟨memory', _, ⟨previous.addr, previous.size + 24 + size, true⟩, ?_, outerRep, ?_, ?_,
        by simp, rfl, by simp only; omega, ?_, ?_⟩
      · simp only [coalesceAround, bind_apply, rep.validate member, andThen_done,
          joinRun, heapNow_apply, prevAddr, prevNotNull, ne_eq, not_false_eq_true, ↓reduceIte,
          shifted.validate prevMember, prevHeader.isFree, prevFree, one_ne_zero, blocksAreAdjacent,
          blockEndAddr, prevHeader.size, header_size_eq, endAddr, beq_self_eq_true, and_self,
          outerRun]
      · refine coalesced_around frontParts.1 restCoalesced ?_ nextUsed
        intro other isLast
        have apart := frontParts.2.2 other isLast previous rfl
        cases otherFree : other.free with
        | true => exact absurd ⟨otherFree, prevFree⟩ apart
        | false => rfl
      · rw [used_append, used_cons_free rfl, sameUsed, List.concat_eq_append, used_append,
          used_cons_free prevFree]
        simp
      · intro found isListed
        simp only [List.mem_append, List.mem_cons] at isListed
        rcases isListed with inFront | rfl | inRest
        · exact starts found (by simp [inFront])
        · exact ⟨previous, by simp, rfl⟩
        · exact starts found (by simp [inRest])
      · intro x notOld
        rw [outerKept x ?_, joinKept x notOld]
        rintro ⟨found, isListed, words⟩
        obtain ⟨other, listed, same⟩ := starts found (by simpa using isListed)
        exact notOld ⟨other, listed, same ▸ words⟩
    | false =>
      refine ⟨memory, _, ⟨block.addr, size, true⟩, ?_, joinRep, ?_, ?_, by simp, rfl, grown,
        starts, joinKept⟩
      · simp only [coalesceAround, bind_apply, rep.validate member, andThen_done,
          joinRun, heapNow_apply, prevAddr, prevNotNull, ne_eq, not_false_eq_true, ↓reduceIte,
          shifted.validate prevMember, prevHeader.isFree, prevFree, Bool.false_eq_true,
          not_true_eq_false, false_and, pure_apply]
      · refine coalesced_around (by simpa using front) restCoalesced ?_ nextUsed
        intro other isLast
        have same : previous = other := by simpa using isLast
        exact same ▸ prevFree
      · rw [used_append, used_cons_free rfl, sameUsed]

end Toyix.Heap
