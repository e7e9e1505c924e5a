import Mathlib.Data.List.Basic
import Mathlib.Data.Nat.ModEq
import Mathlib.Logic.Function.Basic
import Mathlib.Tactic.Common

/-!
# Bounded buffers in a ring of cells

A ring keeps its elements in cells that are used in turn: `head` is the cell of the oldest
element, `tail` the cell that is filled next, `count` the number of elements. All three are
stored, so a full ring and an empty one are told apart by `count`.

The contents are the elements from the oldest to the newest. Pushing appends to them, popping
takes the first one away.
-/

namespace Library

open Function

universe u

/-- The cells and the three numbers. -/
structure Cyclic (α : Type u) where
  cells : Nat → α
  head : Nat
  tail : Nat
  count : Nat

namespace Cyclic

variable {α : Type u} {capacity : Nat} {ring next : Cyclic α} {value : α}

/-- Fill the cell at the tail; a full ring refuses. -/
def push (capacity : Nat) (value : α) (ring : Cyclic α) : Option (Cyclic α) :=
  if ring.count ≥ capacity then none
  else some
    { ring with
      cells := update ring.cells ring.tail value
      tail := (ring.tail + 1) % capacity
      count := ring.count + 1 }

/-- Take the element at the head; an empty ring refuses. -/
def pop (capacity : Nat) (ring : Cyclic α) : Option (α × Cyclic α) :=
  if ring.count = 0 then none
  else some (ring.cells ring.head,
    { ring with head := (ring.head + 1) % capacity, count := ring.count - 1 })

/-- The elements, the oldest first. -/
def contents (capacity : Nat) (ring : Cyclic α) : List α :=
  (List.range ring.count).map fun offset => ring.cells ((ring.head + offset) % capacity)

/-- The three numbers agree. -/
structure Valid (capacity : Nat) (ring : Cyclic α) : Prop where
  head : ring.head < capacity
  count : ring.count ≤ capacity
  tail : ring.tail = (ring.head + ring.count) % capacity

theorem contents_length (capacity : Nat) (ring : Cyclic α) :
    (ring.contents capacity).length = ring.count := by
  simp [contents]

theorem Valid.tail_lt (valid : ring.Valid capacity) : ring.tail < capacity := by
  rw [valid.tail]
  exact Nat.mod_lt _ (Nat.zero_lt_of_lt valid.head)

theorem push_eq_none : ring.push capacity value = none ↔ capacity ≤ ring.count := by
  simp [push]

/-- Elements of a ring that is not full are in other cells than the tail. -/
theorem Valid.cell_ne_tail (valid : ring.Valid capacity) {offset : Nat}
    (inside : offset < ring.count) (room : ring.count < capacity) :
    (ring.head + offset) % capacity ≠ ring.tail := by
  rw [valid.tail]
  intro same
  have congruent : offset ≡ ring.count [MOD capacity] := Nat.ModEq.add_left_cancel' ring.head same
  have equal : offset = ring.count := congruent.eq_of_lt_of_lt (by omega) room
  omega

theorem Valid.push (valid : ring.Valid capacity) (pushed : ring.push capacity value = some next) :
    next.Valid capacity ∧ next.contents capacity = ring.contents capacity ++ [value] ∧
      next.count = ring.count + 1 := by
  unfold Cyclic.push at pushed
  split at pushed
  · cases pushed
  · rename_i room
    obtain rfl := Option.some.inj pushed
    refine ⟨⟨valid.head, ?_, ?_⟩, ?_, rfl⟩
    · simp only
      omega
    · simp only
      rw [valid.tail, Nat.mod_add_mod, Nat.add_assoc]
    · simp only [contents, List.range_succ, List.map_append, List.map_cons, List.map_nil]
      congr 1
      · apply List.map_congr_left
        intro offset inside
        rw [List.mem_range] at inside
        exact update_of_ne (valid.cell_ne_tail inside (by omega)) _ _
      · rw [← valid.tail, update_self]

theorem Valid.pop (valid : ring.Valid capacity) (popped : ring.pop capacity = some (value, next)) :
    next.Valid capacity ∧ ring.contents capacity = value :: next.contents capacity ∧
      next.count + 1 = ring.count := by
  unfold Cyclic.pop at popped
  split at popped
  · cases popped
  · rename_i filled
    obtain ⟨rfl, rfl⟩ := Prod.mk.inj (Option.some.inj popped)
    obtain ⟨count, isCount⟩ := Nat.exists_eq_succ_of_ne_zero filled
    have positive := Nat.zero_lt_of_lt valid.head
    have bounded := valid.count
    refine ⟨⟨Nat.mod_lt _ positive, ?_, ?_⟩, ?_, ?_⟩
    · simp only
      omega
    · simp only
      rw [valid.tail, Nat.mod_add_mod]
      congr 1
      omega
    · simp only [contents, isCount, Nat.succ_eq_add_one, List.range_succ_eq_map, List.map_cons,
        List.map_map, Nat.add_zero, Nat.mod_eq_of_lt valid.head, Nat.add_sub_cancel]
      congr 1
      apply List.map_congr_left
      intro offset _
      simp only [Function.comp, Nat.mod_add_mod]
      congr 2
      omega
    · simp only
      omega

end Cyclic

end Library
