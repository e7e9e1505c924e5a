import Toyix.Library.Bitmap
import Toyix.Library.Outcome
import Toyix.Library.Words

/-!
# The physical page allocator

This is `kernel/pmm.c`. One bit per frame of the 4 GiB physical address space says
whether the frame is in use. At boot all frames are in use; the available ranges
of the Multiboot memory map are freed, and then the first MiB, the kernel image and
the boot data are taken back. Allocation scans upwards from frame 256.

The boot data is read from physical memory as the boot loader left it. The walk of
the memory map is bounded by the number of 32-bit addresses: a longer walk has met
a cursor twice and does not end. Console output is left out.
-/

namespace Toyix.Pmm

open Library

def pmmPageSize : Nat := 4096
def pmmInvalidPage : Nat := 0
def pmmMaxFrames : Nat := 1048576
def multibootMemoryAvailable : Nat := 1
def multibootInfoMemMap : Nat := 0x40

/-- `sizeof(multiboot_info_t)`: thirteen words. -/
def sizeofMultibootInfo : Nat := 52

/-- The static variables of the allocator. -/
structure PmmState where
  frameBitmap : Memory
  totalFrames : Nat
  usableFrames : Nat
  reservedFrames : Nat
  freeFrames : Nat
  highestPhysicalAddr : Nat

variable {pmm pmm' : PmmState} {frame page maxFrame : Nat}

/-- What the boot loader hands over: the kernel image as linked, the address of the
Multiboot structure, and physical memory. -/
structure Boot where
  kernelStart : Nat
  kernelEnd : Nat
  mbi : Nat
  memory : Memory

def mbiFlags (boot : Boot) : Nat := boot.memory.read32 boot.mbi
def mbiMmapLength (boot : Boot) : Nat := boot.memory.read32 (boot.mbi + 44)
def mbiMmapAddr (boot : Boot) : Nat := boot.memory.read32 (boot.mbi + 48)

/-! ## Frames -/

def alignDownPage (value : Nat) : Nat := value &&& (2 ^ 32 - pmmPageSize)

def alignUpPage (value : Nat) : Nat :=
  ((value + (pmmPageSize - 1)) % 2 ^ 32) &&& (2 ^ 32 - pmmPageSize)

def frameIndexFromAddr (physicalAddr : Nat) : Nat := physicalAddr / pmmPageSize

def addrFromFrameIndex (frameIndex : Nat) : Nat := frameIndex * pmmPageSize % 2 ^ 32

def bitmapTest (pmm : PmmState) (frameIndex : Nat) : Bool := pmm.frameBitmap.bitTest frameIndex

/-- A frame that is used already is not counted again, -/
def markFrameUsed (frameIndex : Nat) (pmm : PmmState) : PmmState :=
  if frameIndex ≥ pmmMaxFrames then pmm
  else if bitmapTest pmm frameIndex = false then
    { pmm with
      frameBitmap := pmm.frameBitmap.bitSet frameIndex
      freeFrames := if pmm.freeFrames > 0 then pmm.freeFrames - 1 else pmm.freeFrames }
  else pmm

/-- nor is a free one. -/
def markFrameFree (frameIndex : Nat) (pmm : PmmState) : PmmState :=
  if frameIndex ≥ pmmMaxFrames then pmm
  else if bitmapTest pmm frameIndex = true then
    { pmm with
      frameBitmap := pmm.frameBitmap.bitClear frameIndex
      freeFrames := (pmm.freeFrames + 1) % 2 ^ 32 }
  else pmm

/-- Frames `frame`, `frame + 1`, ..., `count` of them. -/
def forFrames (mark : Nat → PmmState → PmmState) : Nat → Nat → PmmState → PmmState
  | 0, _, pmm => pmm
  | count + 1, frame, pmm => forFrames mark count (frame + 1) (mark frame pmm)

/-- The loop over the pages of a range. Both ends are page aligned, so the 32-bit
counter does not wrap before it reaches the end. -/
def forPages (mark : Nat → PmmState → PmmState) (start stop : Nat) (pmm : PmmState) : PmmState :=
  forFrames mark ((stop - start) / pmmPageSize) (frameIndexFromAddr start) pmm

/-- Every page that the range touches. -/
def reserveRange (startAddr endAddr : Nat) (pmm : PmmState) : PmmState :=
  forPages markFrameUsed (alignDownPage startAddr) (alignUpPage endAddr) pmm

/-- Every page inside the range. -/
def freeRange (startAddr endAddr : Nat) (pmm : PmmState) : PmmState :=
  forPages markFrameFree (alignUpPage startAddr) (alignDownPage endAddr) pmm

def markAllFramesUsed (pmm : PmmState) : PmmState :=
  { pmm with frameBitmap := ⟨fun _ => 0xFF⟩, freeFrames := 0 }

/-! ## Boot -/

/-- One entry of the memory map. -/
def discoverEntry (memory : Memory) (cursor : Nat) (pmm : PmmState) : PmmState :=
  let base := memory.read32 (cursor + 8) * 2 ^ 32 + memory.read32 (cursor + 4)
  let length := memory.read32 (cursor + 16) * 2 ^ 32 + memory.read32 (cursor + 12)
  let stop := (base + length) % 2 ^ 64
  if memory.read32 (cursor + 20) = multibootMemoryAvailable ∧ base < 0x100000000 then
    let usableStart := base
    let usableEnd := if stop > 0x100000000 then 0xFFFFFFFF else stop % 2 ^ 32
    let freed := freeRange usableStart usableEnd pmm
    let startFrame := frameIndexFromAddr (alignUpPage usableStart)
    let endFrame := frameIndexFromAddr (alignDownPage usableEnd)
    { freed with
      usableFrames :=
        if endFrame > startFrame then (freed.usableFrames + (endFrame - startFrame)) % 2 ^ 32
        else freed.usableFrames
      highestPhysicalAddr :=
        if usableEnd > freed.highestPhysicalAddr then usableEnd else freed.highestPhysicalAddr }
  else pmm

/-- The walk of the memory map; entries are `size` plus four bytes apart. -/
def discoverFromMmapLoop (memory : Memory) (mmapEnd : Nat) : Nat → Nat → Program PmmState PUnit
  | 0, _ => Program.diverge
  | fuel + 1, cursor =>
    if cursor < mmapEnd then do
      Program.update (discoverEntry memory cursor)
      discoverFromMmapLoop memory mmapEnd fuel ((cursor + memory.read32 cursor + 4) % 2 ^ 32)
    else pure ⟨⟩

def discoverFromMmap (boot : Boot) : Program PmmState PUnit :=
  discoverFromMmapLoop boot.memory ((mbiMmapAddr boot + mbiMmapLength boot) % 2 ^ 32) (2 ^ 32)
    (mbiMmapAddr boot)

/-- The first MiB, the image and what the boot loader left. -/
def reserveKernelAndBootData (boot : Boot) (pmm : PmmState) : PmmState :=
  let pmm := reserveRange 0 0x100000 pmm
  let pmm := reserveRange boot.kernelStart boot.kernelEnd pmm
  let pmm := reserveRange boot.mbi ((boot.mbi + sizeofMultibootInfo) % 2 ^ 32) pmm
  if mbiFlags boot &&& multibootInfoMemMap ≠ 0 then
    reserveRange (mbiMmapAddr boot) ((mbiMmapAddr boot + mbiMmapLength boot) % 2 ^ 32) pmm
  else pmm

/-- Only what the memory map names is free. -/
def pmmInit (boot : Boot) : Program PmmState Unit :=
  if boot.mbi = 0 then Program.panic "pmm_init received null Multiboot info pointer"
  else do
    Program.update fun pmm => { markAllFramesUsed pmm with
      totalFrames := pmmMaxFrames
      usableFrames := 0
      reservedFrames := 0
      highestPhysicalAddr := 0 }
    if mbiFlags boot &&& multibootInfoMemMap = 0 then
      Program.panic "Multiboot memory map is missing"
    else do
      discoverFromMmap boot
      Program.update (reserveKernelAndBootData boot)
      Program.update fun pmm => { pmm with
        reservedFrames := (pmm.totalFrames + 2 ^ 32 - pmm.freeFrames) % 2 ^ 32 }

/-! ## Allocation -/

/-- The first free frame among `remaining` frames from `frame` on. -/
def firstFreeFrame (pmm : PmmState) : Nat → Nat → Option Nat
  | 0, _ => none
  | remaining + 1, frame =>
    if bitmapTest pmm frame = false then some frame
    else firstFreeFrame pmm remaining (frame + 1)

/-- Take the first free frame from 1 MiB up to `maxFrame`. -/
def allocFrameBelow (maxFrame : Nat) (pmm : PmmState) : Nat × PmmState :=
  match firstFreeFrame pmm (maxFrame - 256) 256 with
  | some frame => (addrFromFrameIndex frame, markFrameUsed frame pmm)
  | none => (pmmInvalidPage, pmm)

def pmmAllocPage (pmm : PmmState) : Nat × PmmState := allocFrameBelow pmmMaxFrames pmm

/-- The limit is rounded down to a frame. -/
def pmmAllocPageBelow (maxExclusive : Nat) (pmm : PmmState) : Nat × PmmState :=
  let maxFrame := maxExclusive / pmmPageSize
  allocFrameBelow (if maxFrame > pmmMaxFrames then pmmMaxFrames else maxFrame) pmm

/-- The scan for `pageCount` free frames in a row, among `remaining` frames from `frame`
on. The run so far is `runLength` frames from `runStart` on. -/
def firstFreeRun (pmm : PmmState) (pageCount : Nat) : Nat → Nat → Nat → Nat → Option Nat
  | 0, _, _, _ => none
  | remaining + 1, frame, runStart, runLength =>
    if bitmapTest pmm frame = false then
      let runStart := if runLength = 0 then frame else runStart
      let runLength := runLength + 1
      if runLength = pageCount then some runStart
      else firstFreeRun pmm pageCount remaining (frame + 1) runStart runLength
    else firstFreeRun pmm pageCount remaining (frame + 1) 0 0

/-- The first run that fits. -/
def pmmAllocContiguousPagesBelow (pageCount maxExclusive : Nat) (pmm : PmmState) : Nat × PmmState :=
  if pageCount = 0 then (pmmInvalidPage, pmm)
  else
    let maxFrame := maxExclusive / pmmPageSize
    let maxFrame := if maxFrame > pmmMaxFrames then pmmMaxFrames else maxFrame
    match firstFreeRun pmm pageCount (maxFrame - 256) 256 0 0 with
    | some runStart => (addrFromFrameIndex runStart, forFrames markFrameUsed pageCount runStart pmm)
    | none => (pmmInvalidPage, pmm)

/-- A page that is free already is accepted. -/
def pmmFreePage (physicalAddr : Nat) (pmm : PmmState) : Except String PmmState :=
  if physicalAddr &&& (pmmPageSize - 1) ≠ 0 then
    .error "pmm_free_page received unaligned address"
  else if physicalAddr < 0x00100000 then
    .error "pmm_free_page attempted to free low memory"
  else .ok (markFrameFree (frameIndexFromAddr physicalAddr) pmm)

structure PmmStats where
  totalFrames : Nat
  usableFrames : Nat
  reservedFrames : Nat
  freeFrames : Nat
  usedFrames : Nat
  highestPhysicalAddr : Nat

/-- What is not free is used. -/
def pmmGetStats (pmm : PmmState) : PmmStats where
  totalFrames := pmm.totalFrames
  usableFrames := pmm.usableFrames
  reservedFrames := pmm.reservedFrames
  freeFrames := pmm.freeFrames
  usedFrames := (pmm.totalFrames + 2 ^ 32 - pmm.freeFrames) % 2 ^ 32
  highestPhysicalAddr := pmm.highestPhysicalAddr

/-! ## Laws -/

/-- A frame, named by its physical address, is marked used. -/
def FrameUsed (pmm : PmmState) (physical : Nat) : Prop := bitmapTest pmm (physical / 4096) = true

/-- The page addresses that can be allocated at all. -/
def Allocatable (physical : Nat) : Prop :=
  physical % 4096 = 0 ∧ 0x100000 ≤ physical ∧ physical < 2 ^ 32

theorem test_mark_used (pmm : PmmState) (frame tested : Nat) (bounded : frame < pmmMaxFrames) :
    bitmapTest (markFrameUsed frame pmm) tested = (decide (tested = frame) || bitmapTest pmm tested) := by
  have inside : ¬ frame ≥ pmmMaxFrames := by omega
  cases marked : bitmapTest pmm frame with
  | false =>
    simp only [markFrameUsed, inside, ↓reduceIte, marked]
    exact Memory.bitTest_bitSet pmm.frameBitmap frame tested
  | true =>
    simp only [markFrameUsed, inside, ↓reduceIte, marked, Bool.true_eq_false]
    by_cases same : tested = frame
    · simp [same, marked]
    · simp [same]

theorem test_mark_free (pmm : PmmState) (frame tested : Nat) (bounded : frame < pmmMaxFrames) :
    bitmapTest (markFrameFree frame pmm) tested = (decide (tested ≠ frame) && bitmapTest pmm tested) := by
  have inside : ¬ frame ≥ pmmMaxFrames := by omega
  cases marked : bitmapTest pmm frame with
  | true =>
    simp only [markFrameFree, inside, ↓reduceIte, marked]
    exact Memory.bitTest_bitClear pmm.frameBitmap frame tested
  | false =>
    simp only [markFrameFree, inside, ↓reduceIte, marked, Bool.false_eq_true]
    by_cases same : tested = frame
    · simp [same, marked]
    · simp [same]

/-! ## The count -/

/-- The count of free frames is the number of clear bits. -/
def Counted (pmm : PmmState) : Prop :=
  pmm.freeFrames = (pmm.frameBitmap.clearBits pmmMaxFrames).card

/-- Only the bitmap and the count differ, and a correct count stays correct. -/
structure Remarked (pmm pmm' : PmmState) : Prop where
  totalFrames : pmm'.totalFrames = pmm.totalFrames
  usableFrames : pmm'.usableFrames = pmm.usableFrames
  reservedFrames : pmm'.reservedFrames = pmm.reservedFrames
  highestPhysicalAddr : pmm'.highestPhysicalAddr = pmm.highestPhysicalAddr
  counted : Counted pmm → Counted pmm'

theorem Remarked.refl (pmm : PmmState) : Remarked pmm pmm := ⟨rfl, rfl, rfl, rfl, id⟩

theorem Remarked.trans {pmm' pmm'' : PmmState} (first : Remarked pmm pmm')
    (second : Remarked pmm' pmm'') : Remarked pmm pmm'' := by
  constructor
  · exact second.totalFrames.trans first.totalFrames
  · exact second.usableFrames.trans first.usableFrames
  · exact second.reservedFrames.trans first.reservedFrames
  · exact second.highestPhysicalAddr.trans first.highestPhysicalAddr
  · intro counted
    exact second.counted (first.counted counted)

theorem mark_used_remarked (frame : Nat) (pmm : PmmState) : Remarked pmm (markFrameUsed frame pmm) := by
  by_cases outside : frame ≥ pmmMaxFrames
  · simp only [markFrameUsed, outside, ↓reduceIte]
    exact Remarked.refl pmm
  · cases clear : bitmapTest pmm frame with
    | true =>
      simp only [markFrameUsed, outside, ↓reduceIte, clear, Bool.true_eq_false]
      exact Remarked.refl pmm
    | false =>
      simp only [markFrameUsed, outside, ↓reduceIte, clear]
      refine ⟨rfl, rfl, rfl, rfl, ?_⟩
      intro counted
      have card := Memory.card_clearBits_bitSet (Nat.not_le.mp outside) clear
      simp only [Counted] at counted ⊢
      split <;> omega

theorem mark_free_remarked (frame : Nat) (pmm : PmmState) : Remarked pmm (markFrameFree frame pmm) := by
  by_cases outside : frame ≥ pmmMaxFrames
  · simp only [markFrameFree, outside, ↓reduceIte]
    exact Remarked.refl pmm
  · cases isSet : bitmapTest pmm frame with
    | false =>
      simp only [markFrameFree, outside, ↓reduceIte, isSet, Bool.false_eq_true]
      exact Remarked.refl pmm
    | true =>
      simp only [markFrameFree, outside, ↓reduceIte, isSet]
      refine ⟨rfl, rfl, rfl, rfl, ?_⟩
      intro counted
      have card := Memory.card_clearBits_bitClear (Nat.not_le.mp outside) isSet
      have bounded := Memory.card_clearBits_le (pmm.frameBitmap.bitClear frame) pmmMaxFrames
      simp only [Counted, pmmMaxFrames] at counted card bounded ⊢
      omega

/-! ## Allocation -/

/-- The number of free frames from 1 MiB up to a frame. -/
def freeBelow (maxFrame : Nat) (pmm : PmmState) : Nat :=
  ((pmm.frameBitmap.clearBits maxFrame).filter (256 ≤ ·)).card

/-- A frame can be allocated below a limit exactly if one is free. -/
theorem free_below_eq_zero (maxFrame : Nat) (pmm : PmmState) :
    freeBelow maxFrame pmm = 0 ↔ ∀ frame, 256 ≤ frame → frame < maxFrame → bitmapTest pmm frame = true := by
  rw [freeBelow, Finset.card_eq_zero, Finset.eq_empty_iff_forall_notMem]
  simp only [Finset.mem_filter, Memory.mem_clearBits, not_and, Nat.not_le]
  constructor
  · intro none frame low high
    by_contra free
    exact absurd low (Nat.not_le.mpr (none frame ⟨high, Bool.eq_false_iff.mpr free⟩))
  · rintro used frame ⟨high, free⟩
    by_contra low
    exact absurd (used frame (Nat.le_of_not_lt low) high) (Bool.eq_false_iff.mp free)

theorem free_below_mono {limit : Nat} (within : maxFrame ≤ limit) (pmm : PmmState) :
    freeBelow maxFrame pmm ≤ freeBelow limit pmm := by
  refine Finset.card_le_card fun frame => ?_
  simp only [Finset.mem_filter, Memory.mem_clearBits]
  rintro ⟨⟨below, clear⟩, high⟩
  exact ⟨⟨by omega, clear⟩, high⟩

/-- The scan finds the first free frame inside its range. -/
theorem first_free_frame_sound {remaining found : Nat}
    (scanned : firstFreeFrame pmm remaining frame = some found) :
    frame ≤ found ∧ found < frame + remaining ∧ bitmapTest pmm found = false ∧
      ∀ other, frame ≤ other → other < found → bitmapTest pmm other = true := by
  induction remaining generalizing frame with
  | zero => simp [firstFreeFrame] at scanned
  | succ remaining ih =>
    simp only [firstFreeFrame] at scanned
    split at scanned
    · rename_i free
      obtain rfl := Option.some.inj scanned
      exact ⟨Nat.le_refl _, by omega, free, fun other low high => absurd low (Nat.not_le.mpr high)⟩
    · rename_i used
      obtain ⟨low, high, free, first⟩ := ih scanned
      refine ⟨by omega, by omega, free, ?_⟩
      intro other otherLow otherHigh
      by_cases same : other = frame
      · rw [same]
        exact Bool.eq_true_of_not_eq_false used
      · exact first other (by omega) otherHigh

/-- The scan for one frame misses none. -/
theorem first_free_frame_complete {remaining : Nat}
    (nothing : firstFreeFrame pmm remaining frame = none) {other : Nat} (low : frame ≤ other)
    (high : other < frame + remaining) : bitmapTest pmm other = true := by
  induction remaining generalizing frame with
  | zero => omega
  | succ remaining ih =>
    simp only [firstFreeFrame] at nothing
    split at nothing
    · simp at nothing
    · rename_i used
      by_cases same : other = frame
      · rw [same]
        exact Bool.eq_true_of_not_eq_false used
      · exact ih nothing (by omega) (by omega)

theorem frame_address (high : frame < maxFrame) (inside : maxFrame ≤ pmmMaxFrames) :
    addrFromFrameIndex frame = 4096 * frame := by
  simp only [addrFromFrameIndex, pmmPageSize, pmmMaxFrames] at inside ⊢
  omega

/-- Allocation either fails and changes nothing, since no frame below the limit is free, or takes the
first free one and marks exactly it. -/
theorem alloc_frame_below_cases (maxFrame : Nat) (pmm : PmmState) (bounded : maxFrame ≤ pmmMaxFrames) :
    (allocFrameBelow maxFrame pmm = (pmmInvalidPage, pmm) ∧ freeBelow maxFrame pmm = 0) ∨
      ∃ frame, allocFrameBelow maxFrame pmm = (4096 * frame, markFrameUsed frame pmm) ∧
        256 ≤ frame ∧ frame < maxFrame ∧ bitmapTest pmm frame = false ∧
        ∀ other, 256 ≤ other → other < frame → bitmapTest pmm other = true := by
  unfold allocFrameBelow
  cases scanned : firstFreeFrame pmm (maxFrame - 256) 256 with
  | none =>
    refine Or.inl ⟨rfl, (free_below_eq_zero maxFrame pmm).mpr ?_⟩
    intro frame low high
    exact first_free_frame_complete scanned low (by omega)
  | some frame =>
    obtain ⟨low, high, free, first⟩ := first_free_frame_sound scanned
    have below : frame < maxFrame := by omega
    exact Or.inr ⟨frame, by rw [← frame_address below bounded], low, below, free, first⟩

/-- What an allocation does, in terms of page addresses. -/
structure Takes (pmm pmm' : PmmState) (page : Nat) : Prop where
  allocatable : Allocatable page
  fresh : ¬ FrameUsed pmm page
  used : ∀ other, FrameUsed pmm' other ↔ other / 4096 = page / 4096 ∨ FrameUsed pmm other
  remarked : Remarked pmm pmm'
  first : ∀ frame, 256 ≤ frame → frame < page / 4096 → bitmapTest pmm frame = true

theorem alloc_takes (low : 256 ≤ frame) (high : frame < pmmMaxFrames)
    (free : bitmapTest pmm frame = false)
    (first : ∀ other, 256 ≤ other → other < frame → bitmapTest pmm other = true) :
    Takes pmm (markFrameUsed frame pmm) (4096 * frame) := by
  have index : 4096 * frame / 4096 = frame := by omega
  refine ⟨⟨by omega, by omega, ?_⟩, ?_, ?_, mark_used_remarked frame pmm, index.symm ▸ first⟩
  · simp only [pmmMaxFrames] at high
    omega
  · simp [FrameUsed, index, free]
  · intro other
    simp [FrameUsed, test_mark_used pmm frame _ high, index]

/-- Below every limit there is one free frame fewer, if there was any.

Proof: the frame is the first free one. It is below the limit unless all frames below it are in use. -/
theorem Takes.free_below (taken : Takes pmm pmm' page) (maxFrame : Nat) :
    freeBelow maxFrame pmm' = freeBelow maxFrame pmm - 1 := by
  have test (frame : Nat) : bitmapTest pmm' frame = true ↔ frame = page / 4096 ∨ bitmapTest pmm frame = true := by
    have used := taken.used (4096 * frame)
    rwa [FrameUsed, FrameUsed, Nat.mul_div_cancel_left _ (by decide)] at used
  obtain ⟨-, low, -⟩ := taken.allocatable
  by_cases below : page / 4096 < maxFrame
  · have isFree : page / 4096 ∈ (pmm.frameBitmap.clearBits maxFrame).filter (256 ≤ ·) := by
      rw [Finset.mem_filter, Memory.mem_clearBits]
      exact ⟨⟨below, Bool.eq_false_iff.mpr taken.fresh⟩, by omega⟩
    rw [freeBelow, freeBelow, ← Finset.card_erase_of_mem isFree]
    congr 1
    ext frame
    simp only [Finset.mem_erase, Finset.mem_filter, Memory.mem_clearBits]
    have isTest : pmm'.frameBitmap.bitTest frame = false ↔
        frame ≠ page / 4096 ∧ pmm.frameBitmap.bitTest frame = false := by
      rw [Bool.eq_false_iff, Bool.eq_false_iff, ← not_or]
      exact not_congr (test frame)
    rw [isTest]
    tauto
  · have none : freeBelow maxFrame pmm = 0 :=
      (free_below_eq_zero maxFrame pmm).mpr fun frame frameLow high =>
        taken.first frame frameLow (by omega)
    rw [none]
    refine (free_below_eq_zero maxFrame pmm').mpr fun frame frameLow high => ?_
    exact (test frame).mpr (Or.inr (taken.first frame frameLow (by omega)))

/-- Where a frame is taken there was one. -/
theorem Takes.available (taken : Takes pmm pmm' page) (below : page < 4096 * maxFrame) :
    freeBelow maxFrame pmm ≠ 0 := by
  intro none
  have low := taken.allocatable.2.1
  exact taken.fresh ((free_below_eq_zero maxFrame pmm).mp none (page / 4096) (by omega) (by omega))

/-- `pmm_alloc_page` fails or takes a free page. -/
theorem pmm_alloc_page_cases (pmm : PmmState) :
    (pmmAllocPage pmm = (0, pmm) ∧ freeBelow pmmMaxFrames pmm = 0) ∨
      ∃ page pmm', pmmAllocPage pmm = (page, pmm') ∧ Takes pmm pmm' page := by
  rcases alloc_frame_below_cases pmmMaxFrames pmm (Nat.le_refl _) with
    failed | ⟨frame, taken, low, high, free, first⟩
  · exact Or.inl failed
  · exact Or.inr ⟨_, _, taken, alloc_takes low high free first⟩

/-- `pmm_alloc_page_below` with the limit for page tables fails or takes a free page below it. -/
theorem pmm_alloc_page_below_cases {limit : Nat} (isLimit : limit = 0x01000000) (pmm : PmmState) :
    (pmmAllocPageBelow limit pmm = (0, pmm) ∧ freeBelow 4096 pmm = 0) ∨
      ∃ page pmm', pmmAllocPageBelow limit pmm = (page, pmm') ∧ Takes pmm pmm' page ∧
        page + 4096 ≤ 0x01000000 := by
  have unfolded : pmmAllocPageBelow limit pmm = allocFrameBelow 4096 pmm := by
    rw [isLimit]
    rfl
  rw [unfolded]
  rcases alloc_frame_below_cases 4096 pmm (by decide) with
    failed | ⟨frame, taken, low, high, free, first⟩
  · exact Or.inl failed
  · exact Or.inr ⟨_, _, taken, alloc_takes low (Nat.lt_trans high (by decide)) free first, by omega⟩

/-- Freeing a page that can be allocated succeeds. -/
theorem pmm_free_page_run (pmm : PmmState) (allocatable : Allocatable page) :
    pmmFreePage page pmm = .ok (markFrameFree (page / 4096) pmm) := by
  obtain ⟨aligned, low, high⟩ := allocatable
  have masked : page &&& (pmmPageSize - 1) = 0 :=
    (Nat.and_two_pow_sub_one_eq_mod page 12).trans aligned
  have notLow : ¬ page < 0x00100000 := by omega
  simp only [pmmFreePage, masked, ne_eq, not_true_eq_false, ↓reduceIte, notLow]
  rfl

/-- Freeing a page marks exactly it. -/
theorem pmm_free_page_exact (pmm : PmmState) (page : Nat) (allocatable : Allocatable page) :
    ∃ pmm', pmmFreePage page pmm = .ok pmm' ∧
      ∀ other, FrameUsed pmm' other ↔ other / 4096 ≠ page / 4096 ∧ FrameUsed pmm other := by
  refine ⟨_, pmm_free_page_run pmm allocatable, ?_⟩
  obtain ⟨-, -, high⟩ := allocatable
  intro other
  simp [FrameUsed, test_mark_free pmm (page / 4096) _ (by simp only [pmmMaxFrames]; omega)]

theorem pmm_free_page_remarked (freed : pmmFreePage page pmm = .ok pmm') : Remarked pmm pmm' := by
  unfold pmmFreePage at freed
  split at freed
  · cases freed
  · split at freed
    · cases freed
    · cases freed
      exact mark_free_remarked _ pmm

/-! ## What boot reserves -/

/-- The page of an address lies in a range as `reserve_range` rounds it. -/
def InPages (startAddr endAddr physical : Nat) : Prop :=
  alignDownPage startAddr ≤ physical / 4096 * 4096 ∧ physical / 4096 * 4096 < alignUpPage endAddr

/-- The pages reserved at boot: the first MiB, the kernel image, the Multiboot
structure and the memory map. -/
def ReservedAtBoot (boot : Boot) (physical : Nat) : Prop :=
  InPages 0 0x100000 physical ∨ InPages boot.kernelStart boot.kernelEnd physical ∨
    InPages boot.mbi ((boot.mbi + sizeofMultibootInfo) % 2 ^ 32) physical ∨
    InPages (mbiMmapAddr boot) ((mbiMmapAddr boot + mbiMmapLength boot) % 2 ^ 32) physical

/-- Marking a run of frames used, exactly: at every frame when the run is inside the bitmap, and at the
frames of the bitmap in any case. -/
theorem test_for_used_exact (count frame tested : Nat) (pmm : PmmState)
    (bounded : tested < pmmMaxFrames ∨ frame + count ≤ pmmMaxFrames) :
    bitmapTest (forFrames markFrameUsed count frame pmm) tested =
      (decide (frame ≤ tested ∧ tested < frame + count) || bitmapTest pmm tested) := by
  induction count generalizing frame pmm with
  | zero =>
    have empty : ¬ (frame ≤ tested ∧ tested < frame + 0) := by omega
    simp only [forFrames, empty, decide_false, Bool.false_or]
  | succ count ih =>
    rw [forFrames, ih _ _ (by omega)]
    by_cases inside : frame < pmmMaxFrames
    · rw [test_mark_used pmm frame tested inside, ← Bool.or_assoc, ← Bool.decide_or]
      congr 2
      rw [eq_iff_iff]
      omega
    · have outside : frame ≥ pmmMaxFrames := by omega
      have missed : ¬ (frame + 1 ≤ tested ∧ tested < frame + 1 + count) := by omega
      have missed' : ¬ (frame ≤ tested ∧ tested < frame + (count + 1)) := by omega
      simp only [markFrameUsed, outside, ↓reduceIte, missed, missed']

theorem align_down_le (value : Nat) (bounded : value < 2 ^ 32) :
    alignDownPage value = value / 4096 * 4096 :=
  land_high_mask value 12 bounded (by decide)

theorem align_up_eq (value : Nat) :
    alignUpPage value = (value + 4095) % 2 ^ 32 / 4096 * 4096 :=
  land_high_mask _ 12 (Nat.mod_lt _ (by decide)) (by decide)

/-- Reserving a range marks its pages used and frees nothing. -/
theorem reserve_range_used (startAddr endAddr physical : Nat) (pmm : PmmState)
    (startBounded : startAddr < 2 ^ 32) (bounded : physical < 2 ^ 32)
    (reserved : InPages startAddr endAddr physical ∨ FrameUsed pmm physical) :
    FrameUsed (reserveRange startAddr endAddr pmm) physical := by
  have inside : physical / 4096 < pmmMaxFrames := by
    simp only [pmmMaxFrames]
    omega
  rw [FrameUsed, reserveRange, forPages, test_for_used_exact _ _ _ _ (Or.inl inside), Bool.or_eq_true,
    decide_eq_true_iff]
  rcases reserved with ⟨low, high⟩ | used
  · refine Or.inl ?_
    have down := align_down_le startAddr startBounded
    have up := align_up_eq endAddr
    simp only [frameIndexFromAddr, pmmPageSize]
    omega
  · exact Or.inr used

/-- The addresses a boot loader and a linker can produce. -/
structure Boot.Addressable (boot : Boot) : Prop where
  kernelStart : boot.kernelStart < 2 ^ 32
  mbi : boot.mbi < 2 ^ 32

/-- The last step of `pmm_init` marks every page reserved at boot. -/
theorem reserve_boot_used {boot : Boot} (addressable : boot.Addressable) (pmm : PmmState)
    (mapped : mbiFlags boot &&& multibootInfoMemMap ≠ 0) {physical : Nat}
    (bounded : physical < 2 ^ 32) (reserved : ReservedAtBoot boot physical) :
    FrameUsed (reserveKernelAndBootData boot pmm) physical := by
  have mapBounded : mbiMmapAddr boot < 2 ^ 32 := Memory.read32_lt _ _
  obtain ⟨first, firstEq⟩ : ∃ first, first = reserveRange 0 0x100000 pmm := ⟨_, rfl⟩
  obtain ⟨second, secondEq⟩ : ∃ second, second = reserveRange boot.kernelStart boot.kernelEnd first :=
    ⟨_, rfl⟩
  obtain ⟨third, thirdEq⟩ : ∃ third, third =
    reserveRange boot.mbi ((boot.mbi + sizeofMultibootInfo) % 2 ^ 32) second := ⟨_, rfl⟩
  have low := reserve_range_used 0 0x100000 physical pmm (by decide) bounded
  have image := reserve_range_used boot.kernelStart boot.kernelEnd physical first
    addressable.kernelStart bounded
  have info := reserve_range_used boot.mbi ((boot.mbi + sizeofMultibootInfo) % 2 ^ 32) physical
    second addressable.mbi bounded
  rw [← firstEq] at low
  rw [← secondEq] at image
  rw [← thirdEq] at info
  simp only [reserveKernelAndBootData, ← firstEq, ← secondEq, ← thirdEq, if_pos mapped]
  apply reserve_range_used _ _ _ _ mapBounded bounded
  rcases reserved with inLow | inImage | inInfo | inMap
  · exact Or.inr (info (Or.inr (image (Or.inr (low (Or.inl inLow))))))
  · exact Or.inr (info (Or.inr (image (Or.inl inImage))))
  · exact Or.inr (info (Or.inl inInfo))
  · exact Or.inl inMap

/-- After `pmm_init` every page reserved at boot is marked used. -/
theorem pmm_init_reserved {boot : Boot} (addressable : boot.Addressable)
    (returned : pmmInit boot pmm = .done ⟨⟩ pmm') {physical : Nat} (bounded : physical < 2 ^ 32)
    (reserved : ReservedAtBoot boot physical) : FrameUsed pmm' physical := by
  unfold pmmInit at returned
  rw [ite_run] at returned
  split at returned
  · simp at returned
  · obtain ⟨_, started, -, returned⟩ := bind_eq_done.mp returned
    rw [ite_run] at returned
    split at returned
    · simp at returned
    · rename_i mapped
      obtain ⟨_, discovered, -, returned⟩ := bind_eq_done.mp returned
      obtain ⟨_, booked, reserve, finish⟩ := bind_eq_done.mp returned
      simp only [Program.update_apply, Outcome.done.injEq, true_and] at reserve finish
      have used := reserve_boot_used addressable discovered mapped bounded reserved
      rw [reserve] at used
      simp only [FrameUsed, bitmapTest, ← finish] at used ⊢
      exact used

end Toyix.Pmm
