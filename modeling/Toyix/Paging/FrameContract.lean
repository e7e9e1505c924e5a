import Toyix.Library.Transition
import Toyix.Paging.MemoryMap

/-!
# The contract of the frame allocator

The count of free frames is kept incrementally, next to a packed bitmap. In every run of
allocations and frees the count is the number of clear bits. An allocation takes frames
that were free, or fails because no run of the wanted length is free below the limit; and
freeing what it took, in any order, restores the allocator exactly.
-/

namespace Toyix.Pmm

open Library

variable {pmm pmm' pmm'' : PmmState} {count page maxFrame limit : Nat} {client : FrameClient}

/-! ## Marking runs of frames -/

theorem for_frames_remarked {mark : Nat → PmmState → PmmState}
    (one : ∀ frame pmm, Remarked pmm (mark frame pmm)) (count frame : Nat) (pmm : PmmState) :
    Remarked pmm (forFrames mark count frame pmm) := by
  induction count generalizing frame pmm with
  | zero => exact Remarked.refl pmm
  | succ count ih => exact (one frame pmm).trans (ih (frame + 1) (mark frame pmm))

/-- States with the same bits and correct counts are equal. -/
theorem Remarked.eq_of_bits (marked : Remarked pmm pmm') (counted : Counted pmm)
    (bits : ∀ frame, bitmapTest pmm' frame = bitmapTest pmm frame) : pmm' = pmm := by
  have sameBitmap : pmm'.frameBitmap = pmm.frameBitmap := Memory.ext_of_bits bits
  have sameCount : pmm'.freeFrames = pmm.freeFrames := by
    have counted' := marked.counted counted
    rw [Counted, sameBitmap] at counted'
    exact counted'.trans counted.symm
  have total := marked.totalFrames
  have usable := marked.usableFrames
  have reserved := marked.reservedFrames
  have highest := marked.highestPhysicalAddr
  cases pmm
  cases pmm'
  simp_all

/-! ## Searching -/

/-- Frames `start`, ..., `start + count - 1` are free. -/
def FreeRun (pmm : PmmState) (start count : Nat) : Prop :=
  ∀ frame, start ≤ frame → frame < start + count → bitmapTest pmm frame = false

/-- The scan for a run of frames finds the first free one, or there is none in its range.

Proof: by induction on the frames that remain. The run so far consists of the frames just
before the current one, and no free run of the wanted length starts before it. A used
frame ends every run that would contain it. -/
theorem first_free_run_exact {pageCount : Nat} (remaining frame runStart runLength : Nat)
    (isRun : runLength ≠ 0 → runStart = frame - runLength) (low : 256 + runLength ≤ frame)
    (short : runLength < pageCount) (free : FreeRun pmm (frame - runLength) runLength)
    (earlier : ∀ start, 256 ≤ start → start < frame - runLength → ¬ FreeRun pmm start pageCount) :
    (∀ found, firstFreeRun pmm pageCount remaining frame runStart runLength = some found →
      256 ≤ found ∧ found + pageCount ≤ frame + remaining ∧ FreeRun pmm found pageCount ∧
        ∀ start, 256 ≤ start → start < found → ¬ FreeRun pmm start pageCount) ∧
    (firstFreeRun pmm pageCount remaining frame runStart runLength = none →
      ∀ start, 256 ≤ start → start + pageCount ≤ frame + remaining → ¬ FreeRun pmm start pageCount) := by
  induction remaining generalizing frame runStart runLength with
  | zero =>
    constructor
    · intro found scanned
      simp [firstFreeRun] at scanned
    · intro _ start high inRange
      exact earlier start high (by omega)
  | succ remaining ih =>
    rw [firstFreeRun]
    cases clear : bitmapTest pmm frame with
    | false =>
      have first : (if runLength = 0 then frame else runStart) = frame - runLength := by
        split
        · omega
        · exact isRun (by assumption)
      have longer : FreeRun pmm (frame - runLength) (runLength + 1) := by
        intro other otherLow otherHigh
        by_cases same : other = frame
        · rw [same]
          exact clear
        · exact free other otherLow (by omega)
      simp only [↓reduceIte, first]
      by_cases complete : runLength + 1 = pageCount
      · simp only [complete, ↓reduceIte]
        constructor
        · intro found scanned
          obtain rfl := Option.some.inj scanned
          exact ⟨by omega, by omega, complete ▸ longer, earlier⟩
        · intro nothing
          simp at nothing
      · simp only [complete, ↓reduceIte]
        have same : frame + 1 - (runLength + 1) = frame - runLength := by omega
        have rest := ih (frame + 1) (frame - runLength) (runLength + 1) (fun _ => same.symm) (by omega)
          (by omega) (by rw [same]; exact longer) (by rw [same]; exact earlier)
        rw [show frame + 1 + remaining = frame + (remaining + 1) by omega] at rest
        exact rest
    | true =>
      simp only [Bool.true_eq_false, ↓reduceIte]
      have rest := ih (frame + 1) 0 0 (fun nonzero => absurd rfl nonzero) (by omega) (by omega)
        (fun other otherLow otherHigh => absurd otherHigh (by omega)) (by
          intro start high before run
          by_cases old : start < frame - runLength
          · exact earlier start high old run
          · have used := run frame (by omega) (by omega)
            rw [clear] at used
            exact Bool.noConfusion used)
      rw [show frame + 1 + remaining = frame + (remaining + 1) by omega] at rest
      exact rest

/-! ## Allocating -/

/-- The pages of a run. -/
def runPages (first count : Nat) : List Nat := (List.range count).map fun i => first + 4096 * i

theorem mem_run_pages {first : Nat} :
    page ∈ runPages first count ↔ ∃ i < count, page = first + 4096 * i := by
  simp only [runPages, List.mem_map, List.mem_range]
  constructor
  · rintro ⟨i, small, rfl⟩
    exact ⟨i, small, rfl⟩
  · rintro ⟨i, small, rfl⟩
    exact ⟨i, small, rfl⟩

/-- An allocation of `count` pages below `limit`. -/
structure Allocates (count limit : Nat) (pmm : PmmState) (page : Nat) (pmm' : PmmState) : Prop where
  aligned : page % 4096 = 0
  high : 0x100000 ≤ page
  below : page + 4096 * count ≤ limit
  bounded : page + 4096 * count ≤ 2 ^ 32
  free : ∀ other ∈ runPages page count, ¬ FrameUsed pmm other
  bits : ∀ frame, bitmapTest pmm' frame =
    (decide (4096 * frame ∈ runPages page count) || bitmapTest pmm frame)
  remarked : Remarked pmm pmm'

/-- No run of `count` pages below `limit` is free. -/
def NoFreeRun (count limit : Nat) (pmm : PmmState) : Prop :=
  ∀ page, page % 4096 = 0 → 0x100000 ≤ page → page + 4096 * count ≤ limit →
    page + 4096 * count ≤ 2 ^ 32 → ∃ other ∈ runPages page count, FrameUsed pmm other

/-- An allocation takes a free run, or there is none and nothing changes. -/
def AllocationExact (count limit : Nat) (pmm : PmmState) (result : Nat × PmmState) : Prop :=
  (result = (pmmInvalidPage, pmm) ∧ NoFreeRun count limit pmm) ∨
    Allocates count limit pmm result.1 result.2

theorem mem_run_of_frame {start frame : Nat} :
    4096 * frame ∈ runPages (4096 * start) count ↔ start ≤ frame ∧ frame < start + count := by
  rw [mem_run_pages]
  constructor
  · rintro ⟨i, small, same⟩
    omega
  · rintro ⟨low, high⟩
    exact ⟨frame - start, by omega, by omega⟩

/-- Taking a free run of frames. -/
theorem FreeRun.allocates {start : Nat} (free : FreeRun pmm start count) (low : 256 ≤ start)
    (high : start + count ≤ maxFrame) (inside : maxFrame ≤ pmmMaxFrames)
    (within : 4096 * maxFrame ≤ limit) :
    Allocates count limit pmm (4096 * start) (forFrames markFrameUsed count start pmm) := by
  have total : maxFrame ≤ 1048576 := inside
  constructor
  · omega
  · omega
  · omega
  · omega
  · intro other isPage used
    obtain ⟨i, small, rfl⟩ := mem_run_pages.mp isPage
    have index : (4096 * start + 4096 * i) / 4096 = start + i := by omega
    rw [FrameUsed, index, free (start + i) (by omega) (by omega)] at used
    exact Bool.noConfusion used
  · intro frame
    rw [test_for_used_exact count start frame pmm (Or.inr (by omega))]
    congr 1
    rw [decide_eq_decide]
    exact mem_run_of_frame.symm
  · exact for_frames_remarked mark_used_remarked count start pmm

/-- A search that found nothing. -/
theorem no_free_run (within : limit < 4096 * maxFrame + 4096 ∨ maxFrame = pmmMaxFrames)
    (nothing : ∀ start, 256 ≤ start → start + count ≤ maxFrame → ¬ FreeRun pmm start count) :
    NoFreeRun count limit pmm := by
  intro page aligned high below bounded
  by_contra allFree
  refine nothing (page / 4096) (by omega) ?_ ?_
  · simp only [pmmMaxFrames] at within
    omega
  · intro frame low inRun
    by_contra used
    refine allFree ⟨4096 * frame, mem_run_pages.mpr ⟨frame - page / 4096, by omega, by omega⟩, ?_⟩
    have index : 4096 * frame / 4096 = frame := by omega
    rw [FrameUsed, index]
    exact Bool.eq_true_of_not_eq_false used

/-- Allocating one frame below a frame number. -/
theorem alloc_frame_below_exact (pmm : PmmState) (inside : maxFrame ≤ pmmMaxFrames)
    (within : 4096 * maxFrame ≤ limit)
    (tight : limit < 4096 * maxFrame + 4096 ∨ maxFrame = pmmMaxFrames) :
    AllocationExact 1 limit pmm (allocFrameBelow maxFrame pmm) := by
  rcases alloc_frame_below_cases maxFrame pmm inside with ⟨failed, none⟩ | ⟨frame, done, low, high, clear, -⟩
  · rw [failed]
    refine Or.inl ⟨rfl, no_free_run tight ?_⟩
    intro start startLow startHigh free
    have used := (free_below_eq_zero maxFrame pmm).mp none start startLow startHigh
    rw [free start (Nat.le_refl _) (by omega)] at used
    exact Bool.noConfusion used
  · have free : FreeRun pmm frame 1 := by
      intro other otherLow otherHigh
      obtain rfl : other = frame := by omega
      exact clear
    rw [done]
    exact Or.inr (free.allocates low high inside within)

/-- The frame number a limit is turned into. -/
theorem limit_frames (maxExclusive : Nat) : ∃ maxFrame, (if maxExclusive / pmmPageSize > pmmMaxFrames
      then pmmMaxFrames else maxExclusive / pmmPageSize) = maxFrame ∧ maxFrame ≤ pmmMaxFrames ∧
      4096 * maxFrame ≤ maxExclusive ∧
      (maxExclusive < 4096 * maxFrame + 4096 ∨ maxFrame = pmmMaxFrames) := by
  refine ⟨_, rfl, ?_⟩
  have size : pmmPageSize = 4096 := rfl
  have frames : pmmMaxFrames = 1048576 := rfl
  rw [size]
  split <;> omega

theorem pmm_alloc_page_exact (pmm : PmmState) : AllocationExact 1 (2 ^ 32) pmm (pmmAllocPage pmm) :=
  alloc_frame_below_exact pmm (Nat.le_refl _) (by decide) (Or.inr rfl)

theorem pmm_alloc_page_below_exact (maxExclusive : Nat) (pmm : PmmState) :
    AllocationExact 1 maxExclusive pmm (pmmAllocPageBelow maxExclusive pmm) := by
  obtain ⟨maxFrame, isMax, inside, within, tight⟩ := limit_frames maxExclusive
  simp only [pmmAllocPageBelow, isMax]
  exact alloc_frame_below_exact pmm inside within tight

theorem pmm_alloc_contiguous_exact (pageCount maxExclusive : Nat) (positive : 1 ≤ pageCount)
    (pmm : PmmState) : AllocationExact pageCount maxExclusive pmm
      (pmmAllocContiguousPagesBelow pageCount maxExclusive pmm) := by
  obtain ⟨maxFrame, isMax, inside, within, tight⟩ := limit_frames maxExclusive
  have nonzero : pageCount ≠ 0 := by omega
  obtain ⟨sound, complete⟩ := @first_free_run_exact pmm pageCount (maxFrame - 256) 256 0 0
    (fun nonzero => absurd rfl nonzero) (by omega) positive
    (fun other low high => absurd high (by omega)) (fun start low high => absurd high (by omega))
  simp only [pmmAllocContiguousPagesBelow, nonzero, ↓reduceIte, isMax]
  cases scanned : firstFreeRun pmm pageCount (maxFrame - 256) 256 0 0 with
  | none =>
    refine Or.inl ⟨rfl, no_free_run tight ?_⟩
    intro start low high
    exact complete scanned start low (by omega)
  | some start =>
    obtain ⟨low, high, free, -⟩ := sound start scanned
    have top : start + pageCount ≤ maxFrame := by omega
    simp only [frame_address (show start < maxFrame by omega) inside]
    exact Or.inr (free.allocates low top inside within)

/-! ## Freeing -/

/-- Free pages one after the other. -/
def freePages : List Nat → PmmState → Except String PmmState
  | [], pmm => .ok pmm
  | page :: rest, pmm => (pmmFreePage page pmm).bind (freePages rest)

/-- Freeing pages clears their bits and no others. -/
theorem free_pages_run (pages : List Nat) (all : ∀ page ∈ pages, Allocatable page) (pmm : PmmState) :
    ∃ pmm', freePages pages pmm = .ok pmm' ∧ Remarked pmm pmm' ∧
      ∀ frame, bitmapTest pmm' frame = (decide (4096 * frame ∉ pages) && bitmapTest pmm frame) := by
  induction pages generalizing pmm with
  | nil => exact ⟨pmm, rfl, Remarked.refl pmm, by simp⟩
  | cons page rest ih =>
    have allocatable := all page List.mem_cons_self
    obtain ⟨aligned, low, high⟩ := allocatable
    have inside : page / 4096 < pmmMaxFrames := by
      simp only [pmmMaxFrames]
      omega
    obtain ⟨final, freed, marked, bits⟩ := ih (fun other isOther => all other (List.mem_cons_of_mem _ isOther))
      (markFrameFree (page / 4096) pmm)
    refine ⟨final, ?_, (mark_free_remarked _ pmm).trans marked, ?_⟩
    · rw [freePages, pmm_free_page_run pmm ⟨aligned, low, high⟩]
      exact freed
    · intro frame
      have here : frame ≠ page / 4096 ↔ 4096 * frame ≠ page := by omega
      rw [bits frame, test_mark_free pmm _ frame inside, ← Bool.and_assoc, ← Bool.decide_and]
      congr 1
      rw [decide_eq_decide, List.mem_cons, not_or, here]
      exact and_comm

theorem run_page_allocatable (taken : Allocates count limit pmm page pmm') {other : Nat}
    (isPage : other ∈ runPages page count) : Allocatable other := by
  obtain ⟨i, small, rfl⟩ := mem_run_pages.mp isPage
  have aligned := taken.aligned
  have high := taken.high
  have bounded := taken.bounded
  exact ⟨by omega, by omega, by omega⟩

/-- Freeing what was just allocated, in any order, restores the allocator. -/
theorem Allocates.restored (taken : Allocates count limit pmm page pmm') (counted : Counted pmm)
    {order : List Nat} (isOrder : order.Perm (runPages page count)) :
    freePages order pmm' = .ok pmm := by
  obtain ⟨final, freed, marked, bits⟩ := free_pages_run order
    (fun other isOther => run_page_allocatable taken (isOrder.mem_iff.mp isOther)) pmm'
  have same : final = pmm := by
    refine (taken.remarked.trans marked).eq_of_bits counted ?_
    intro frame
    rw [bits frame, taken.bits frame]
    by_cases inRun : 4096 * frame ∈ runPages page count
    · have wasFree := taken.free _ inRun
      have index : 4096 * frame / 4096 = frame := by omega
      rw [FrameUsed, index, Bool.not_eq_true] at wasFree
      simp [isOrder.mem_iff, inRun, wasFree]
    · simp [isOrder.mem_iff, inRun]
  rw [freed, same]

/-! ## Runs -/

/-- The calls of the allocator. -/
inductive FrameOp where
  | allocPage
  | allocPageBelow (maxExclusive : UInt32)
  | allocContiguousPagesBelow (pageCount maxExclusive : UInt32)
  | freePage (physicalAddr : UInt32)

/-- The allocator, and the pages in the hands of its callers. -/
structure FrameClient where
  pmm : PmmState
  allocated : List Nat

/-- How many pages a call asks for, and below which address. -/
def FrameOp.request : FrameOp → Option (Nat × Nat)
  | .allocPage => some (1, 2 ^ 32)
  | .allocPageBelow maxExclusive => some (1, maxExclusive.toNat)
  | .allocContiguousPagesBelow pageCount maxExclusive => some (pageCount.toNat, maxExclusive.toNat)
  | .freePage _ => none

/-- The result of a call that allocates. -/
def FrameOp.allocate : FrameOp → PmmState → Nat × PmmState
  | .allocPage, pmm => pmmAllocPage pmm
  | .allocPageBelow maxExclusive, pmm => pmmAllocPageBelow maxExclusive.toNat pmm
  | .allocContiguousPagesBelow pageCount maxExclusive, pmm =>
    pmmAllocContiguousPagesBelow pageCount.toNat maxExclusive.toNat pmm
  | .freePage _, pmm => (pmmInvalidPage, pmm)

def frameStep (op : FrameOp) (client : FrameClient) : Option FrameClient :=
  match op with
  | .freePage physicalAddr =>
    match pmmFreePage physicalAddr.toNat client.pmm with
    | .ok pmm => some ⟨pmm, client.allocated.filter fun page => decide (page ≠ physicalAddr.toNat)⟩
    | .error _ => none
  | op =>
    let (page, pmm) := op.allocate client.pmm
    some ⟨pmm, if page = pmmInvalidPage then client.allocated
      else runPages page ((op.request.map Prod.fst).getD 0) ++ client.allocated⟩

/-- Callers ask for at least one page, and free pages that they hold. -/
def FrameProper (client : FrameClient) : FrameOp → Prop
  | .allocContiguousPagesBelow pageCount _ => 1 ≤ pageCount.toNat
  | .freePage physicalAddr => physicalAddr.toNat ∈ client.allocated
  | _ => True

/-- A call that allocates is exact. -/
theorem allocate_exact {op : FrameOp} (proper : FrameProper client op)
    (asks : op.request = some (count, limit)) :
    AllocationExact count limit client.pmm (op.allocate client.pmm) := by
  cases op with
  | allocPage =>
    obtain ⟨rfl, rfl⟩ := Prod.mk.inj (Option.some.inj asks)
    exact pmm_alloc_page_exact client.pmm
  | allocPageBelow maxExclusive =>
    obtain ⟨rfl, rfl⟩ := Prod.mk.inj (Option.some.inj asks)
    exact pmm_alloc_page_below_exact _ client.pmm
  | allocContiguousPagesBelow pageCount maxExclusive =>
    obtain ⟨rfl, rfl⟩ := Prod.mk.inj (Option.some.inj asks)
    exact pmm_alloc_contiguous_exact _ _ proper client.pmm
  | freePage physicalAddr => simp [FrameOp.request] at asks

/-- The invariant of runs: the count is right, and what callers hold is marked used. -/
structure FrameClient.Sound (client : FrameClient) : Prop where
  counted : Counted client.pmm
  total : client.pmm.totalFrames = pmmMaxFrames
  held : ∀ page ∈ client.allocated, Allocatable page ∧ FrameUsed client.pmm page

/-- A call that allocates, as a step. -/
theorem frame_step_allocate {op : FrameOp} (asks : op.request = some (count, limit)) :
    frameStep op client = some ⟨(op.allocate client.pmm).2,
      if (op.allocate client.pmm).1 = pmmInvalidPage then client.allocated
      else runPages (op.allocate client.pmm).1 count ++ client.allocated⟩ := by
  cases op with
  | freePage physicalAddr => simp [FrameOp.request] at asks
  | allocPage | allocPageBelow maxExclusive | allocContiguousPagesBelow pageCount maxExclusive =>
    obtain ⟨rfl, -⟩ := Prod.mk.inj (Option.some.inj asks)
    simp only [frameStep, FrameOp.request, Option.map_some, Option.getD_some]

/-- Every proper call keeps the invariant. -/
theorem frame_step_sound {next : FrameClient} (sound : client.Sound) {op : FrameOp}
    (proper : FrameProper client op) (taken : frameStep op client = some next) : next.Sound := by
  cases asks : op.request with
  | some request =>
    obtain ⟨count, limit⟩ := request
    rw [frame_step_allocate asks] at taken
    obtain rfl := Option.some.inj taken
    rcases allocate_exact proper asks with ⟨failed, -⟩ | allocates
    · rw [failed]
      exact sound
    · have notNull : (op.allocate client.pmm).1 ≠ pmmInvalidPage := by
        have high := allocates.high
        simp only [pmmInvalidPage]
        omega
      refine ⟨allocates.remarked.counted sound.counted, ?_, ?_⟩
      · exact allocates.remarked.totalFrames.trans sound.total
      · intro page isPage
        simp only [notNull, ↓reduceIte, List.mem_append] at isPage
        have frame : ∀ other, Allocatable other → 4096 * (other / 4096) = other := by
          rintro other ⟨aligned, -, -⟩
          omega
        rcases isPage with inRun | isOld
        · have allocatable := run_page_allocatable allocates inRun
          refine ⟨allocatable, ?_⟩
          simp [FrameUsed, allocates.bits, frame page allocatable, inRun]
        · obtain ⟨allocatable, used⟩ := sound.held page isOld
          refine ⟨allocatable, ?_⟩
          rw [FrameUsed] at used
          simp [FrameUsed, allocates.bits, used]
  | none =>
    cases op with
    | allocPage | allocPageBelow maxExclusive | allocContiguousPagesBelow pageCount maxExclusive =>
      simp [FrameOp.request] at asks
    | freePage physicalAddr =>
      obtain ⟨allocatable, -⟩ := sound.held _ proper
      simp only [frameStep, pmm_free_page_run client.pmm allocatable] at taken
      obtain rfl := Option.some.inj taken
      have marked := mark_free_remarked (physicalAddr.toNat / 4096) client.pmm
      refine ⟨marked.counted sound.counted, marked.totalFrames.trans sound.total, ?_⟩
      intro page isPage
      obtain ⟨isOld, different⟩ := List.mem_filter.mp isPage
      obtain ⟨pageAllocatable, used⟩ := sound.held page isOld
      refine ⟨pageAllocatable, ?_⟩
      have inside : physicalAddr.toNat / 4096 < pmmMaxFrames := by
        have bounded := allocatable.2.2
        simp only [pmmMaxFrames]
        omega
      have otherFrame : page / 4096 ≠ physicalAddr.toNat / 4096 := by
        have different := of_decide_eq_true different
        have aligned := allocatable.1
        have pageAligned := pageAllocatable.1
        omega
      rw [FrameUsed] at used ⊢
      rw [test_mark_free client.pmm _ _ inside, used]
      simpa using otherFrame

/-! ## Boot -/

/-- A correct count depends on the bitmap and the count only. -/
theorem Counted.congr (counted : Counted pmm) (bitmap : pmm'.frameBitmap = pmm.frameBitmap)
    (free : pmm'.freeFrames = pmm.freeFrames) : Counted pmm' := by
  rw [Counted, free, bitmap]
  exact counted

theorem free_range_remarked (startAddr endAddr : Nat) (pmm : PmmState) :
    Remarked pmm (freeRange startAddr endAddr pmm) :=
  for_frames_remarked mark_free_remarked _ _ pmm

theorem reserve_range_remarked (startAddr endAddr : Nat) (pmm : PmmState) :
    Remarked pmm (reserveRange startAddr endAddr pmm) :=
  for_frames_remarked mark_used_remarked _ _ pmm

theorem discover_entry_counted (memory : Memory) (cursor : Nat) (counted : Counted pmm) :
    Counted (discoverEntry memory cursor pmm) ∧
      (discoverEntry memory cursor pmm).totalFrames = pmm.totalFrames := by
  by_cases applies : Available memory cursor ∧ entryBase memory cursor < 0x100000000
  · have freed := free_range_remarked (entryBase memory cursor) (usableEnd memory cursor) pmm
    obtain ⟨bitmap, free, total, -⟩ := discover_entry_available pmm applies
    exact ⟨(freed.counted counted).congr bitmap free, total.trans freed.totalFrames⟩
  · rw [discover_entry_skip pmm applies]
    exact ⟨counted, rfl⟩

theorem discover_entries_counted (memory : Memory) (entries : List Nat) (counted : Counted pmm) :
    Counted (entries.foldl (fun pmm cursor => discoverEntry memory cursor pmm) pmm) ∧
      (entries.foldl (fun pmm cursor => discoverEntry memory cursor pmm) pmm).totalFrames =
        pmm.totalFrames := by
  induction entries generalizing pmm with
  | nil => exact ⟨counted, rfl⟩
  | cons cursor rest ih =>
    obtain ⟨here, sameTotal⟩ := discover_entry_counted memory cursor counted
    obtain ⟨later, laterTotal⟩ := ih here
    exact ⟨later, laterTotal.trans sameTotal⟩

theorem reserve_boot_remarked (boot : Boot) (pmm : PmmState) :
    Remarked pmm (reserveKernelAndBootData boot pmm) := by
  unfold reserveKernelAndBootData
  have three := ((reserve_range_remarked 0 0x100000 pmm).trans
    (reserve_range_remarked boot.kernelStart boot.kernelEnd _)).trans
    (reserve_range_remarked boot.mbi ((boot.mbi + sizeofMultibootInfo) % 2 ^ 32) _)
  dsimp only
  split
  · exact three.trans (reserve_range_remarked _ _ _)
  · exact three

/-- All frames are in use before the map is read. -/
theorem cleared_counted (pmm : PmmState) : Counted (clearedPmm pmm) := by
  have noneClear : (clearedPmm pmm).frameBitmap.clearBits pmmMaxFrames = ∅ := by
    rw [Finset.eq_empty_iff_forall_notMem]
    intro frame isClear
    have clear := (Memory.mem_clearBits.mp isClear).2
    have byte : (clearedPmm pmm).frameBitmap.byte (frame / 8) = 0xFF := rfl
    have full : ∀ bit : Fin 8, ((0xFF : UInt8).toBitVec.getLsbD bit.val) = true := by decide
    rw [Memory.bitTest_eq, byte, full ⟨frame % 8, Nat.mod_lt _ (by decide)⟩] at clear
    exact Bool.noConfusion clear
  rw [Counted, noneClear]
  rfl

/-- The walk of the memory map keeps the count right, whatever the map says.

Proof: by induction on the bound of the walk. -/
theorem discover_loop_counted (memory : Memory) (mmapEnd : Nat) {fuel cursor : Nat} {pmm pmm' : PmmState}
    (counted : Counted pmm)
    (walked : discoverFromMmapLoop memory mmapEnd fuel cursor pmm = .done ⟨⟩ pmm') : Counted pmm' := by
  induction fuel generalizing cursor pmm with
  | zero => cases walked
  | succ fuel ih =>
    rw [discoverFromMmapLoop, ite_run] at walked
    split at walked
    · exact ih (discover_entry_counted memory cursor counted).1 walked
    · obtain ⟨-, rfl⟩ := Outcome.done.inj walked
      exact counted

/-- After `pmm_init` the count is right. -/
theorem pmm_init_counted {boot : Boot} {pmm pmm' : PmmState}
    (returned : pmmInit boot pmm = .done ⟨⟩ pmm') : Counted pmm' := by
  unfold pmmInit at returned
  rw [ite_run] at returned
  split at returned
  · cases returned
  · obtain ⟨_, cleared, clear, walking⟩ := bind_eq_done.mp returned
    rw [ite_run] at walking
    split at walking
    · cases walking
    · obtain ⟨_, discovered, walked, booking⟩ := bind_eq_done.mp walking
      obtain ⟨_, booked, reserve, finish⟩ := bind_eq_done.mp booking
      obtain ⟨-, rfl⟩ := Outcome.done.inj clear
      obtain ⟨-, rfl⟩ := Outcome.done.inj reserve
      obtain ⟨-, rfl⟩ := Outcome.done.inj finish
      have walkedCounted := discover_loop_counted boot.memory _ (cleared_counted pmm) walked
      exact ((reserve_boot_remarked boot discovered).counted walkedCounted).congr rfl rfl

/-- After boot the count is right and nothing is in the hands of callers. -/
theorem initial_sound (boot : Boot) (entries : List Nat) (pmm : PmmState) :
    FrameClient.Sound ⟨initialPmm boot entries pmm, []⟩ := by
  obtain ⟨walked, walkedTotal⟩ := discover_entries_counted boot.memory entries (cleared_counted pmm)
  have booked := reserve_boot_remarked boot
    (entries.foldl (fun pmm cursor => discoverEntry boot.memory cursor pmm) (clearedPmm pmm))
  have sameFree : (initialPmm boot entries pmm).freeFrames = (reserveKernelAndBootData boot
      (entries.foldl (fun pmm cursor => discoverEntry boot.memory cursor pmm)
        (clearedPmm pmm))).freeFrames := by
    rw [initialPmm]
  have sameTotal : (initialPmm boot entries pmm).totalFrames = (reserveKernelAndBootData boot
      (entries.foldl (fun pmm cursor => discoverEntry boot.memory cursor pmm)
        (clearedPmm pmm))).totalFrames := by
    rw [initialPmm]
  refine ⟨(booked.counted walked).congr (initial_bitmap boot entries pmm) sameFree, ?_, ?_⟩
  · exact sameTotal.trans (booked.totalFrames.trans walkedTotal)
  · intro page isHeld
    simp at isHeld

/-! ## The contract -/

/-- What callers may rely on in a state of the allocator. -/
structure FrameContract (client : FrameClient) : Prop where
  counted : client.pmm.freeFrames = (client.pmm.frameBitmap.clearBits pmmMaxFrames).card
  stats : (pmmGetStats client.pmm).usedFrames + (pmmGetStats client.pmm).freeFrames = 2 ^ 20
  allocation : ∀ op count limit, FrameProper client op → op.request = some (count, limit) →
    (op.allocate client.pmm = (pmmInvalidPage, client.pmm) ∧ NoFreeRun count limit client.pmm) ∨
      (Allocates count limit client.pmm (op.allocate client.pmm).1 (op.allocate client.pmm).2 ∧
        (∀ page ∈ runPages (op.allocate client.pmm).1 count, page ∉ client.allocated) ∧
        ∀ order, order.Perm (runPages (op.allocate client.pmm).1 count) →
          freePages order (op.allocate client.pmm).2 = .ok client.pmm)
  freeing : ∀ page ∈ client.allocated, ∃ pmm, pmmFreePage page client.pmm = .ok pmm

/-- The invariant gives the contract. -/
theorem FrameClient.Sound.contract (sound : client.Sound) : FrameContract client := by
  constructor
  · exact sound.counted
  · have bounded := Memory.card_clearBits_le client.pmm.frameBitmap pmmMaxFrames
    have counted := sound.counted
    have total := sound.total
    simp only [Counted, pmmMaxFrames] at counted total bounded
    simp only [pmmGetStats, total]
    omega
  · intro op count limit proper asks
    rcases allocate_exact proper asks with failed | allocates
    · exact Or.inl failed
    · refine Or.inr ⟨allocates, ?_, ?_⟩
      · intro page inRun isHeld
        exact allocates.free page inRun (sound.held page isHeld).2
      · intro order isOrder
        exact allocates.restored sound.counted isOrder
  · intro page isHeld
    exact ⟨_, pmm_free_page_run client.pmm (sound.held page isHeld).1⟩

/-- After `pmm_init` the contract of the frame allocator holds throughout every run. -/
theorem frame_allocator_contract {boot : Boot} {entries : List Nat} (formed : boot.WellFormed entries)
    (pmm : PmmState) :
    ∃ start, pmmInit boot pmm = .done ⟨⟩ start ∧
      ∀ client, Reaches frameStep FrameProper ⟨start, []⟩ client → FrameContract client := by
  refine ⟨_, pmm_init_run formed.toMapped formed.mapEnds pmm, ?_⟩
  intro client reached
  have sound : client.Sound := reached.invariant FrameClient.Sound (initial_sound boot entries pmm)
    fun _ _ _ stateSound proper taken => frame_step_sound stateSound proper taken
  exact sound.contract

instance (client : FrameClient) (op : FrameOp) : Decidable (FrameProper client op) :=
  match op with
  | .allocContiguousPagesBelow _ _ => inferInstanceAs (Decidable (_ ≤ _))
  | .freePage _ => inferInstanceAs (Decidable (_ ∈ _))
  | .allocPage | .allocPageBelow _ => inferInstanceAs (Decidable True)

set_option maxRecDepth 100000 in
/-- A page and a run of three pages are allocated, and the page is freed again. -/
theorem contract_after_run : ∃ client, FrameContract client ∧
    client.allocated = [0x106000, 0x107000, 0x108000] := by
  obtain ⟨start, booted, contract⟩ := frame_allocator_contract one_range_well_formed
    ⟨⟨fun _ => 0⟩, 0, 0, 0, 0, 0⟩
  have completed : ((pmmInit (oneEntryBoot 0x100000 0x20000) ⟨⟨fun _ => 0⟩, 0, 0, 0, 0, 0⟩).result.bind
      fun booted => runAll frameStep FrameProper
        [.allocPage, .allocContiguousPagesBelow 3 0x120000, .freePage 0x105000] ⟨booted.2, []⟩).map
          FrameClient.allocated = some [0x106000, 0x107000, 0x108000] := by
    decide +kernel
  rw [booted] at completed
  obtain ⟨client, reached, held⟩ := Reaches.of_facts completed
  exact ⟨client, contract client reached, held⟩

end Toyix.Pmm
