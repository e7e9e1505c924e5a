import Mathlib.Data.List.Pairwise
import Mathlib.Tactic.Common

/-!
# Views of memory

A view gives the contents of the addresses that can be reached, and nothing for the others. It
grows by pieces: ranges of addresses that were not reachable before, with known contents at some or
all of their addresses. A view that is assembled from pieces is determined by them where the
contents are known.
-/

namespace Library

universe u

variable {β : Type u} {view view' : Nat → Option β}

/-- Store the first `count` values of a source. -/
def storeView (view : Nat → Option β) (first count : Nat) (source : Nat → β) : Nat → Option β :=
  fun x => if first ≤ x ∧ x < first + count then some (source (x - first)) else view x

/-- A range of addresses, with the contents that are known. -/
structure Piece (β : Type u) where
  first : Nat
  size : Nat
  known : Nat → Option β

def Piece.Covers (piece : Piece β) (x : Nat) : Prop :=
  piece.first ≤ x ∧ x < piece.first + piece.size

/-- The view consists of the pieces, which do not meet, and shows what is known of them. -/
structure Assembled (pieces : List (Piece β)) (view : Nat → Option β) : Prop where
  covered : ∀ x, (view x).isSome ↔ ∃ piece ∈ pieces, piece.Covers x
  apart : pieces.Pairwise fun piece other => ∀ x, piece.Covers x → ¬ other.Covers x
  shown : ∀ piece ∈ pieces, ∀ x value, piece.Covers x → piece.known x = some value →
    view x = some value

theorem Assembled.nothing (unreachable : ∀ x, view x = none) : Assembled ([] : List (Piece β)) view := by
  constructor
  · intro x
    simp [unreachable x]
  · exact List.Pairwise.nil
  · intro piece absent
    cases absent

/-- A view grows by one piece. -/
theorem Assembled.add {pieces : List (Piece β)} {piece : Piece β} (assembled : Assembled pieces view)
    (fresh : ∀ x, piece.Covers x → view x = none)
    (added : ∀ x, piece.Covers x → (view' x).isSome)
    (kept : ∀ x, ¬ piece.Covers x → view' x = view x)
    (shows : ∀ x value, piece.Covers x → piece.known x = some value → view' x = some value) :
    Assembled (pieces ++ [piece]) view' := by
  have notOld : ∀ other ∈ pieces, ∀ x, other.Covers x → ¬ piece.Covers x := by
    intro other member x covers isNew
    have reachable := (assembled.covered x).mpr ⟨other, member, covers⟩
    rw [fresh x isNew] at reachable
    cases reachable
  constructor
  · intro x
    by_cases isNew : piece.Covers x
    · exact iff_of_true (added x isNew) ⟨piece, by simp, isNew⟩
    · rw [kept x isNew, assembled.covered x]
      constructor
      · rintro ⟨other, member, covers⟩
        exact ⟨other, List.mem_append_left _ member, covers⟩
      · rintro ⟨other, member, covers⟩
        rcases List.mem_append.mp member with old | isLast
        · exact ⟨other, old, covers⟩
        · rw [List.mem_singleton.mp isLast] at covers
          exact absurd covers isNew
  · refine List.pairwise_append.mpr ⟨assembled.apart, List.pairwise_singleton _ _, ?_⟩
    intro other member last isLast x covers
    rw [List.mem_singleton.mp isLast]
    exact notOld other member x covers
  · intro other member x value covers known
    rcases List.mem_append.mp member with old | isLast
    · rw [kept x (notOld other old x covers)]
      exact assembled.shown other old x value covers known
    · obtain rfl := List.mem_singleton.mp isLast
      exact shows x value covers known

/-- Two views of the same pieces agree where the contents are known, and where there is no piece. -/
theorem Assembled.determined {pieces : List (Piece β)} (assembled : Assembled pieces view)
    (assembled' : Assembled pieces view') {x : Nat}
    (known : ∀ piece ∈ pieces, piece.Covers x → (piece.known x).isSome) : view x = view' x := by
  by_cases reachable : ∃ piece ∈ pieces, piece.Covers x
  · obtain ⟨piece, member, covers⟩ := reachable
    obtain ⟨value, isValue⟩ := Option.isSome_iff_exists.mp (known piece member covers)
    rw [assembled.shown piece member x value covers isValue,
      assembled'.shown piece member x value covers isValue]
  · have missing : ∀ {other : Nat → Option β}, Assembled pieces other → other x = none := by
      intro other isAssembled
      rw [← Option.not_isSome_iff_eq_none, isAssembled.covered x]
      exact reachable
    rw [missing assembled, missing assembled']

end Library
