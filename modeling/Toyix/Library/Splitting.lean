import Mathlib.Data.List.TakeWhile
import Mathlib.Tactic.Common

/-!
# The words of a text

The words of a text are the maximal runs of characters that are not separators. `words` finds them by
splitting at every separator and dropping the empty pieces; `words_step` finds the first one by skipping
separators and taking what comes before the next separator, as a loop does. `starts` are the positions at
which the first few words begin.
-/

namespace Library.Splitting

universe u

variable {α : Type u} {isSpace other : α → Bool}

/-- The maximal runs without separators, in order. -/
def words (isSpace : α → Bool) (text : List α) : List (List α) :=
  (text.splitOnP isSpace).filter fun word => !word.isEmpty

/-- Where the first `room` words begin, when the text begins at `position`. -/
def starts (isSpace : α → Bool) : Nat → Nat → List α → List Nat
  | 0, _, _ => []
  | room + 1, position, text =>
    match text.dropWhile isSpace with
    | [] => []
    | first :: rest =>
      let begins := position + (text.takeWhile isSpace).length
      begins :: starts isSpace room
        (begins + ((first :: rest).takeWhile fun ch => !isSpace ch).length)
        ((first :: rest).dropWhile fun ch => !isSpace ch)

@[simp] theorem words_nil : words isSpace [] = [] := by
  simp [words, List.splitOnP_nil]

theorem words_cons_space {ch : α} (separates : isSpace ch = true) (text : List α) :
    words isSpace (ch :: text) = words isSpace text := by
  have split := List.splitOnP_append_cons ([] : List α) text separates
  rw [List.nil_append] at split
  rw [words, split, List.splitOnP_nil, List.filter_append]
  rfl

/-- Separators in front belong to no word. -/
theorem words_dropWhile (text : List α) : words isSpace (text.dropWhile isSpace) = words isSpace text := by
  induction text with
  | nil => rfl
  | cons ch rest ih =>
    by_cases separates : isSpace ch = true
    · rw [List.dropWhile_cons_of_pos separates, words_cons_space separates]
      exact ih
    · rw [List.dropWhile_cons_of_neg separates]

theorem words_singleton {word : List α} (notEmpty : word ≠ []) (inside : ∀ ch ∈ word, isSpace ch = false) :
    words isSpace word = [word] := by
  rw [words, List.splitOnP_eq_singleton inside]
  simp [notEmpty]

/-- A word ends at the next separator. -/
theorem words_append {word : List α} {ch : α} (notEmpty : word ≠ [])
    (inside : ∀ ch ∈ word, isSpace ch = false) (separates : isSpace ch = true) (text : List α) :
    words isSpace (word ++ ch :: text) = word :: words isSpace text := by
  have alone := words_singleton notEmpty inside
  rw [words] at alone
  rw [words, List.splitOnP_append_cons word text separates, List.filter_append, alone]
  rfl

/-- The head of what is left after dropping fails the test. -/
theorem head_dropWhile {test : α → Bool} {text rest : List α} {first : α}
    (dropped : text.dropWhile test = first :: rest) : test first = false := by
  induction text with
  | nil => cases dropped
  | cons ch text ih =>
    by_cases passes : test ch = true
    · rw [List.dropWhile_cons_of_pos passes] at dropped
      exact ih dropped
    · rw [List.dropWhile_cons_of_neg passes] at dropped
      rw [← (List.cons.inj dropped).1]
      exact Bool.eq_false_iff.mpr passes

/-- The first word is what comes before the first separator. -/
theorem words_step {text rest : List α} {first : α} (dropped : text.dropWhile isSpace = first :: rest) :
    words isSpace text = ((first :: rest).takeWhile fun ch => !isSpace ch) ::
      words isSpace ((first :: rest).dropWhile fun ch => !isSpace ch) := by
  have inside : ∀ ch ∈ (first :: rest).takeWhile fun ch => !isSpace ch, isSpace ch = false := by
    intro ch member
    simpa using List.mem_takeWhile_imp member
  have notEmpty : ((first :: rest).takeWhile fun ch => !isSpace ch) ≠ [] := by
    rw [List.takeWhile_cons_of_pos (by simpa using head_dropWhile dropped)]
    exact List.cons_ne_nil _ _
  rw [← words_dropWhile text, dropped]
  have parts := (first :: rest).takeWhile_append_dropWhile (p := fun ch => !isSpace ch)
  cases remains : (first :: rest).dropWhile fun ch => !isSpace ch with
  | nil =>
    rw [remains, List.append_nil] at parts
    rw [← parts]
    simp only [parts]
    rw [parts] at inside notEmpty
    rw [words_nil, words_singleton notEmpty inside]
  | cons sep tail =>
    have separates : isSpace sep = true := by simpa using head_dropWhile remains
    rw [remains] at parts
    have whole := words_append notEmpty inside separates tail
    rw [parts] at whole
    rw [words_cons_space separates]
    exact whole

theorem starts_nil (room position : Nat) : starts isSpace room position [] = [] := by
  cases room with
  | zero => rfl
  | succ room => rfl

/-- A separator in front moves the beginning. -/
theorem starts_cons_space {ch : α} (separates : isSpace ch = true) (room position : Nat) (text : List α) :
    starts isSpace room position (ch :: text) = starts isSpace room (position + 1) text := by
  cases room with
  | zero => rfl
  | succ room =>
    simp only [starts]
    rw [List.dropWhile_cons_of_pos separates, List.takeWhile_cons_of_pos separates, List.length_cons]
    have moved : position + ((text.takeWhile isSpace).length + 1) =
        position + 1 + (text.takeWhile isSpace).length := by omega
    rw [moved]

theorem while_congr {text : List α} (same : ∀ ch ∈ text, isSpace ch = other ch) :
    text.takeWhile isSpace = text.takeWhile other ∧ text.dropWhile isSpace = text.dropWhile other := by
  induction text with
  | nil => exact ⟨rfl, rfl⟩
  | cons ch rest ih =>
    obtain ⟨takes, drops⟩ := ih fun ch member => same ch (List.mem_cons_of_mem _ member)
    rw [List.takeWhile_cons, List.takeWhile_cons, List.dropWhile_cons, List.dropWhile_cons,
      same ch List.mem_cons_self, takes, drops]
    exact ⟨rfl, rfl⟩

/-- Tests that agree on the text find the same words. -/
theorem starts_congr (room position : Nat) (text : List α) (same : ∀ ch ∈ text, isSpace ch = other ch) :
    starts isSpace room position text = starts other room position text := by
  induction room generalizing position text with
  | zero => rfl
  | succ room ih =>
    obtain ⟨takes, drops⟩ := while_congr same
    simp only [starts]
    rw [takes, drops]
    cases dropped : text.dropWhile other with
    | nil => rfl
    | cons first rest =>
      have sameRest : ∀ ch ∈ first :: rest, isSpace ch = other ch := by
        intro ch member
        rw [← dropped] at member
        exact same ch ((List.dropWhile_sublist other).mem member)
      have sameWord : ∀ ch ∈ first :: rest, (!isSpace ch) = !other ch :=
        fun ch member => congrArg not (sameRest ch member)
      obtain ⟨wordTakes, wordDrops⟩ := while_congr sameWord
      dsimp only
      rw [wordTakes, wordDrops, ih]
      intro ch member
      exact sameRest ch ((List.dropWhile_sublist _).mem member)

end Library.Splitting
