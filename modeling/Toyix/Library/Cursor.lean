import Mathlib.Algebra.Ring.Nat
import Mathlib.Data.List.Basic

/-!
# A position in a list

Reading and seeking over the integers, as a reference for programs that keep the position in a
machine word. A read returns the elements from the position on, as many as there are, and advances
by their number; a seek moves the position to a base plus an offset when that lies below a limit,
and is refused otherwise.
-/

namespace Library.Cursor

universe u

variable {α : Type u} {data : List α} {position limit : Nat}

/-- The elements with an index from `start` up to `stop`. -/
def slice (data : List α) (start stop : Nat) : List α := (data.drop start).take (stop - start)

/-- What a read returns. -/
def readAt (data : List α) (position length : Nat) : List α :=
  if data.length ≤ position then [] else slice data position (min (position + length) data.length)

/-- What the offset of a seek is added to. -/
inductive Origin where
  | start
  | current
  | stop
  deriving DecidableEq

def Origin.base (data : List α) (position : Nat) : Origin → Int
  | .start => 0
  | .current => position
  | .stop => data.length

inductive Call where
  | read (length : Nat)
  | seek (origin : Option Origin) (offset : Int)

inductive Answer (α : Type u) where
  | elements (got : List α)
  | moved (position : Nat)
  | refused
  deriving DecidableEq

/-- Where a seek goes to, when it is accepted. -/
def target (limit : Nat) (data : List α) (position : Nat) (origin : Option Origin) (offset : Int) :
    Option Nat :=
  match origin with
  | none => none
  | some origin =>
    let next := origin.base data position + offset
    if 0 ≤ next ∧ next < limit then some next.toNat else none

/-- One call, with the position after it. -/
def step (limit : Nat) (data : List α) (position : Nat) : Call → Answer α × Nat
  | .read length =>
    (.elements (readAt data position length), position + (readAt data position length).length)
  | .seek origin offset =>
    match target limit data position origin offset with
    | some next => (.moved next, next)
    | none => (.refused, position)

/-- The calls of a list, with the position after them. -/
def steps (limit : Nat) (data : List α) : Nat → List Call → List (Answer α) × Nat
  | position, [] => ([], position)
  | position, call :: rest =>
    let (answer, next) := step limit data position call
    let (answers, last) := steps limit data next rest
    (answer :: answers, last)

/-! ## Reads -/

theorem readAt_eq_take (data : List α) (position length : Nat) :
    readAt data position length = (data.drop position).take length := by
  unfold readAt slice
  split
  · rename_i behind
    rw [List.drop_eq_nil_of_le behind, List.take_nil]
  · rename_i inside
    rw [List.take_eq_take_iff, List.length_drop]
    omega

theorem readAt_eq_slice (data : List α) (position length : Nat) :
    readAt data position length = slice data position (min (position + length) data.length) := by
  unfold readAt
  split
  · rename_i behind
    rw [slice, List.drop_eq_nil_of_le behind, List.take_nil]
  · rfl

theorem readAt_length (data : List α) (position length : Nat) :
    (readAt data position length).length = min length (data.length - position) := by
  rw [readAt_eq_take, List.length_take, List.length_drop]

theorem readAt_append (data : List α) (position first second : Nat) :
    readAt data position first ++ readAt data (position + (readAt data position first).length) second =
      readAt data position (first + second) := by
  rw [readAt_length, readAt_eq_take, readAt_eq_take, readAt_eq_take, List.take_add, List.drop_drop]
  congr 1
  by_cases enough : first ≤ data.length - position
  · rw [Nat.min_eq_left enough]
  · have atEnd : data.length ≤ position + min first (data.length - position) := by omega
    have behind : data.length ≤ position + first := by omega
    rw [List.drop_eq_nil_of_le atEnd, List.drop_eq_nil_of_le behind]

/-- What a call returned to a read. -/
def Answer.got : Answer α → List α
  | .elements got => got
  | .moved _ => []
  | .refused => []

/-- Consecutive reads return consecutive pieces. -/
theorem steps_reads (limit : Nat) (data : List α) (lengths : List Nat) (position : Nat) :
    ((steps limit data position (lengths.map .read)).1.map Answer.got).flatten =
      readAt data position lengths.sum := by
  induction lengths generalizing position with
  | nil => simp [steps, readAt_eq_take]
  | cons length rest ih =>
    simp only [List.map_cons, steps, step, List.flatten_cons, Answer.got, List.sum_cons]
    rw [ih, readAt_append]

/-! ## Bounds -/

theorem target_lt {origin : Option Origin} {offset : Int} {next : Nat}
    (found : target limit data position origin offset = some next) : next < limit := by
  unfold target at found
  split at found
  · cases found
  · simp only [Option.ite_none_right_eq_some, Option.some.injEq] at found
    omega

/-- The position stays below a limit that the list does not exceed. -/
theorem step_lt (short : data.length < limit) (below : position < limit) (call : Call) :
    (step limit data position call).2 < limit := by
  cases call with
  | read length =>
    have got := readAt_length data position length
    simp only [step]
    omega
  | seek origin offset =>
    simp only [step]
    cases found : target limit data position origin offset with
    | none => exact below
    | some next => exact target_lt found

theorem steps_lt (short : data.length < limit) (below : position < limit) (calls : List Call) :
    (steps limit data position calls).2 < limit := by
  induction calls generalizing position with
  | nil => exact below
  | cons call rest ih => exact ih (step_lt short below call)

end Library.Cursor
