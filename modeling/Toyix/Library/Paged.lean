import Toyix.Library.Tables

/-!
# Memory behind a page map

A page map places virtual pages in frames of memory. A run of stores to consecutive
virtual addresses reaches the frames one piece at a time. `Stored` says what such a
run does: the bytes behind the run hold the source, every other byte of the mapped
frames is kept, and frames that the map does not use are not touched.

Runs compose: two runs at adjacent addresses are one run.
-/

namespace Library

/-- Virtual pages are placed in whole frames, no two in the same. -/
structure Placed (pages : Nat → Option Nat) : Prop where
  virtual : ∀ page frame, pages page = some frame → page % 4096 = 0
  aligned : ∀ page frame, pages page = some frame → frame % 4096 = 0
  single : ∀ page other frame, pages page = some frame → pages other = some frame → page = other

/-- The effect of storing `count` bytes of `source` from virtual address `first` on. -/
structure Stored (pages : Nat → Option Nat) (first count : Nat) (source : Nat → UInt8)
    (memory memory' : Memory) : Prop where
  inside : ∀ page frame, pages page = some frame → ∀ offset < 4096,
    memory'.byte (frame + offset) =
      if first ≤ page + offset ∧ page + offset < first + count then source (page + offset - first)
      else memory.byte (frame + offset)
  outside : ∀ frame, frame % 4096 = 0 → (∀ page, pages page ≠ some frame) →
    memory.SamePage memory' frame

variable {pages : Nat → Option Nat} {memory memory' memory'' : Memory}

/-- Storing nothing. -/
theorem Stored.nothing (pages : Nat → Option Nat) (first : Nat) (source : Nat → UInt8)
    (memory : Memory) : Stored pages first 0 source memory memory := by
  constructor
  · intro page frame _ offset _
    have empty : ¬ (first ≤ page + offset ∧ page + offset < first + 0) := by omega
    rw [if_neg empty]
  · intro frame _ _
    exact Memory.SamePage.refl memory frame

/-- Two adjacent runs. -/
theorem Stored.append {first count more : Nat} {source : Nat → UInt8}
    (earlier : Stored pages first count source memory memory')
    (later : Stored pages (first + count) more (fun i => source (i + count)) memory' memory'') :
    Stored pages first (count + more) source memory memory'' := by
  constructor
  · intro page frame placed offset small
    rw [later.inside page frame placed offset small, earlier.inside page frame placed offset small]
    by_cases second : first + count ≤ page + offset ∧ page + offset < first + count + more
    · have both : first ≤ page + offset ∧ page + offset < first + (count + more) := by omega
      have position : page + offset - (first + count) + count = page + offset - first := by omega
      rw [if_pos second, if_pos both, position]
    · rw [if_neg second]
      by_cases whole : first ≤ page + offset ∧ page + offset < first + (count + more)
      · have inFirst : first ≤ page + offset ∧ page + offset < first + count := by omega
        rw [if_pos whole, if_pos inFirst]
      · have notFirst : ¬ (first ≤ page + offset ∧ page + offset < first + count) := by omega
        rw [if_neg whole, if_neg notFirst]
  · intro frame aligned unused
    exact (earlier.outside frame aligned unused).trans (later.outside frame aligned unused)

/-- The part of a run that lies in one page. -/
theorem Stored.piece (placed : Placed pages) {first count frame : Nat} (source : Nat → UInt8)
    (memory : Memory) (isFrame : pages (first / 4096 * 4096) = some frame)
    (fits : first % 4096 + count ≤ 4096) :
    Stored pages first count source memory (memory.copyIn (frame + first % 4096) count source) := by
  have aligned := placed.aligned _ _ isFrame
  constructor
  · intro page other isOther offset small
    have pageAligned := placed.virtual _ _ isOther
    have otherAligned := placed.aligned _ _ isOther
    by_cases same : other = frame
    · subst same
      obtain rfl : page = first / 4096 * 4096 := placed.single _ _ _ isOther isFrame
      by_cases covered : first ≤ first / 4096 * 4096 + offset ∧
          first / 4096 * 4096 + offset < first + count
      · have position : other + offset - (other + first % 4096) =
            first / 4096 * 4096 + offset - first := by omega
        rw [if_pos covered, Memory.copyIn_apply_inside _ _ _ _ _ (by omega) (by omega), position]
      · rw [if_neg covered, Memory.copyIn_apply_outside _ _ _ _ _ (by omega)]
    · have notSame : page ≠ first / 4096 * 4096 := by
        rintro rfl
        exact same (Option.some.inj (isOther.symm.trans isFrame))
      have notCovered : ¬ (first ≤ page + offset ∧ page + offset < first + count) := by omega
      rw [if_neg notCovered, Memory.copyIn_apply_outside _ _ _ _ _ (by omega)]
  · intro other otherAligned unused x low high
    have different : other ≠ frame := by
      rintro rfl
      exact unused _ isFrame
    exact Memory.copyIn_apply_outside _ _ _ _ _ (by omega)

end Library
