import Mathlib.Order.Interval.Finset.Nat
import Toyix.Paging.FrameContract

/-!
# Contiguous allocation is first fit

`pmm_alloc_contiguous_pages_below` scans the bitmap once and keeps the start and the length of the free
run it is in. It takes the lowest run of the wanted length below its limit. For a single page it is
`pmm_alloc_page_below`.
-/

namespace Toyix.Pmm

open Library

variable {pmm : PmmState} {start count : Nat}

/-- A free run that an allocation may take. -/
structure Fits (pmm : PmmState) (count limit start : Nat) : Prop where
  low : 256 ≤ start
  free : FreeRun pmm start count
  below : start + count ≤ min (limit / 4096) (2 ^ 20)

/-- The frames of a run are marked, the count is lowered by their number, and nothing else changes. -/
structure Marks (pmm : PmmState) (start count : Nat) (next : PmmState) : Prop where
  bits : ∀ frame, bitmapTest next frame =
    (decide (start ≤ frame ∧ frame < start + count) || bitmapTest pmm frame)
  freeFrames : next.freeFrames = pmm.freeFrames - count
  remarked : Remarked pmm next

/-! ## Marking -/

section FreeRun

variable (free : FreeRun pmm start count) (inside : start + count ≤ pmmMaxFrames)

include free inside

/-- Marking a free run lowers the count, as long as it is not zero.

Proof: by induction on the frames. Each of them is free when its turn comes. -/
theorem for_used_free_frames :
    (forFrames markFrameUsed count start pmm).freeFrames = pmm.freeFrames - count := by
  induction count generalizing start pmm with
  | zero => rfl
  | succ count ih =>
    have clear : bitmapTest pmm start = false := free start (Nat.le_refl start) (by omega)
    have bounded : ¬ start ≥ pmmMaxFrames := by omega
    have lowered : (markFrameUsed start pmm).freeFrames = pmm.freeFrames - 1 := by
      simp only [markFrameUsed, bounded, ↓reduceIte, clear]
      split <;> omega
    have rest : FreeRun (markFrameUsed start pmm) (start + 1) count := by
      intro frame low high
      have other : frame ≠ start := by omega
      rw [test_mark_used pmm start frame (by omega), free frame (by omega) (by omega)]
      simp [other]
    rw [forFrames, ih rest (by omega), lowered]
    omega

theorem FreeRun.marks : Marks pmm start count (forFrames markFrameUsed count start pmm) := by
  constructor
  · exact fun tested => test_for_used_exact count start tested pmm (Or.inr inside)
  · exact for_used_free_frames free inside
  · exact for_frames_remarked mark_used_remarked count start pmm

/-- A correct count is at least the length of a free run. -/
theorem FreeRun.le_free_frames (counted : Counted pmm) : count ≤ pmm.freeFrames := by
  have clear : Finset.Ico start (start + count) ⊆ pmm.frameBitmap.clearBits pmmMaxFrames := by
    intro frame member
    rw [Finset.mem_Ico] at member
    rw [Memory.mem_clearBits]
    exact ⟨by omega, free frame member.1 member.2⟩
  have card := Finset.card_le_card clear
  rw [Nat.card_Ico, ← counted] at card
  omega

end FreeRun

/-! ## Searching for one frame -/

/-- The scan for a run of one frame is the scan for a frame. -/
theorem first_free_run_one (remaining frame : Nat) :
    firstFreeRun pmm 1 remaining frame 0 0 = firstFreeFrame pmm remaining frame := by
  induction remaining generalizing frame with
  | zero => rfl
  | succ remaining ih =>
    rw [firstFreeRun, firstFreeFrame]
    cases clear : bitmapTest pmm frame with
    | false => simp
    | true => simp [ih]

theorem contiguous_one (maxExclusive : Nat) (pmm : PmmState) :
    pmmAllocContiguousPagesBelow 1 maxExclusive pmm = pmmAllocPageBelow maxExclusive pmm := by
  obtain ⟨maxFrame, isMax, -⟩ := limit_frames maxExclusive
  unfold pmmAllocContiguousPagesBelow pmmAllocPageBelow allocFrameBelow
  dsimp only
  rw [if_neg Nat.one_ne_zero, isMax, first_free_run_one]
  cases firstFreeFrame pmm (maxFrame - 256) 256 with
  | none => simp only
  | some frame => simp only [forFrames]

/-! ## First fit -/

/-- For every state, every number of pages and every limit: the allocation returns the address of the
lowest free run that fits and marks exactly its frames; or there is none, it returns
`PMM_INVALID_PAGE` and changes nothing. A correct count of free frames is lowered by the number of
pages. For one page the allocation is that of `pmm_alloc_page_below`.

Proof: the scan finds the first run by `first_free_run_exact`, whose invariant says that no run of the
wanted length starts before the current one. -/
theorem contiguous_first_fit (pmm : PmmState) (pageCount limit : UInt32) (positive : 1 ≤ pageCount) :
    ((∃ start, Fits pmm pageCount.toNat limit.toNat start ∧
        (∀ other, Fits pmm pageCount.toNat limit.toNat other → start ≤ other) ∧
        (pmmAllocContiguousPagesBelow pageCount.toNat limit.toNat pmm).1 = 4096 * start ∧
        Marks pmm start pageCount.toNat
          (pmmAllocContiguousPagesBelow pageCount.toNat limit.toNat pmm).2 ∧
        (Counted pmm → (pmmAllocContiguousPagesBelow pageCount.toNat limit.toNat pmm).2.freeFrames +
          pageCount.toNat = pmm.freeFrames)) ∨
      (∀ start, ¬ Fits pmm pageCount.toNat limit.toNat start) ∧
        pmmAllocContiguousPagesBelow pageCount.toNat limit.toNat pmm = (pmmInvalidPage, pmm)) ∧
    ((pmmAllocContiguousPagesBelow pageCount.toNat limit.toNat pmm).1 = pmmInvalidPage ↔
      ∀ start, ¬ Fits pmm pageCount.toNat limit.toNat start) ∧
    pmmAllocContiguousPagesBelow 1 limit.toNat pmm = pmmAllocPageBelow limit.toNat pmm := by
  have atLeastOne : 1 ≤ pageCount.toNat := positive
  generalize pageCount.toNat = count at *
  obtain ⟨maxFrame, isMax, inside, within, tight⟩ := limit_frames limit.toNat
  have isMin : maxFrame = min (limit.toNat / 4096) (2 ^ 20) := by
    have frames : pmmMaxFrames = 2 ^ 20 := rfl
    omega
  obtain ⟨sound, complete⟩ := @first_free_run_exact pmm count (maxFrame - 256) 256 0 0
    (fun nonzero => absurd rfl nonzero) (by omega) atLeastOne
    (fun other low high => absurd high (by omega)) (fun start low high => absurd high (by omega))
  have nonzero : count ≠ 0 := by omega
  rw [contiguous_one]
  simp only [pmmAllocContiguousPagesBelow, nonzero, ↓reduceIte, isMax, and_true]
  cases scanned : firstFreeRun pmm count (maxFrame - 256) 256 0 0 with
  | none =>
    have nothing : ∀ start, ¬ Fits pmm count limit.toNat start := by
      rintro start ⟨low, free, below⟩
      rw [← isMin] at below
      exact complete scanned start low (by omega) free
    exact ⟨Or.inr ⟨nothing, rfl⟩, iff_of_true rfl nothing⟩
  | some start =>
    obtain ⟨low, high, free, first⟩ := sound start scanned
    have below : start + count ≤ maxFrame := by omega
    have fits : Fits pmm count limit.toNat start := ⟨low, free, isMin ▸ below⟩
    have address : addrFromFrameIndex start = 4096 * start :=
      frame_address (show start < maxFrame by omega) inside
    have marks := free.marks (Nat.le_trans below inside)
    refine ⟨Or.inl ⟨start, fits, ?_, address, marks, ?_⟩, ?_⟩
    · intro other otherFits
      by_contra lower
      exact first other otherFits.low (Nat.lt_of_not_le lower) otherFits.free
    · intro counted
      have enough := free.le_free_frames (Nat.le_trans below inside) counted
      have lowered := marks.freeFrames
      dsimp only
      omega
    · dsimp only
      rw [address]
      refine iff_of_false ?_ fun nothing => nothing start fits
      simp only [pmmInvalidPage]
      omega

/-- From 1 MiB on, the frames 258 and 261 are the only ones in use. -/
def holes : PmmState := ⟨⟨fun i => if i = 32 then 0x24 else 0⟩, 1048576, 0, 0, 1048574, 0⟩

/-- Three pages do not fit before the first or between the two used frames; they are taken behind them. -/
theorem contiguous_behind_holes :
    (pmmAllocContiguousPagesBelow 3 0x00120000 holes).1 = 4096 * 262 ∧
      Marks holes 262 3 (pmmAllocContiguousPagesBelow 3 0x00120000 holes).2 := by
  have isPage : (pmmAllocContiguousPagesBelow 3 0x00120000 holes).1 = 4096 * 262 := by decide +kernel
  obtain ⟨taken, -⟩ := contiguous_first_fit holes 3 0x00120000 (by decide)
  refine ⟨isPage, ?_⟩
  rcases taken with ⟨start, -, -, isStart, marks, -⟩ | ⟨-, nothing⟩
  · obtain rfl : start = 262 := Nat.eq_of_mul_eq_mul_left (by decide) (isStart.symm.trans isPage)
    exact marks
  · have isNull := (congrArg Prod.fst nothing).symm.trans isPage
    exact absurd isNull (by decide)

end Toyix.Pmm
