import Mathlib.Data.List.Induction

/-!
# Text on a page

A text is laid out in rows of a fixed width. A break starts a new row, and so does the last character
that fits a row. The page is unbounded; its last row is where the next character goes.
-/

namespace Library.Layout

universe u

variable {α : Type u}

/-- The rows of a line without breaks. A full row is followed by another one, which may be empty. -/
def wrap (width : Nat) (line : List α) : List (List α) :=
  (List.range (line.length / width + 1)).map fun k => (line.drop (width * k)).take width

/-- The rows of a text. -/
def page (width : Nat) (isBreak : α → Bool) (text : List α) : List (List α) :=
  (text.splitOnP isBreak).flatMap (wrap width)

variable {width : Nat} {isBreak : α → Bool}

/-- The last line of a text is where more characters go. -/
theorem last_line (isBreak : α → Bool) (text : List α) : ∃ earlier line,
    ∀ more, (∀ ch ∈ more, isBreak ch = false) →
      (text ++ more).splitOnP isBreak = earlier ++ [line ++ more] := by
  induction text using List.reverseRecOn with
  | nil =>
    refine ⟨[], [], ?_⟩
    intro more plain
    exact List.splitOnP_eq_singleton plain
  | append_singleton text ch ih =>
    cases breaks : isBreak ch with
    | true =>
      refine ⟨text.splitOnP isBreak, [], ?_⟩
      intro more plain
      rw [List.append_assoc, List.singleton_append, List.splitOnP_append_cons text more breaks,
        List.splitOnP_eq_singleton plain, List.nil_append]
    | false =>
      obtain ⟨earlier, line, splits⟩ := ih
      refine ⟨earlier, line ++ [ch], ?_⟩
      intro more plain
      rw [List.append_assoc, List.append_assoc]
      apply splits
      intro other member
      rw [List.singleton_append, List.mem_cons] at member
      cases member with
      | inl isFirst => rw [isFirst, breaks]
      | inr later => exact plain other later

theorem wrap_nil (width : Nat) : wrap width ([] : List α) = [[]] := by
  simp [wrap, List.range_succ]

/-- The row of a line that more characters go to. -/
theorem wrap_snoc (positive : 0 < width) (line : List α) : ∃ full current,
    wrap width line = full ++ [current] ∧ current.length < width ∧
    ∀ ch, wrap width (line ++ [ch]) =
      if current.length + 1 < width then full ++ [current ++ [ch]]
      else full ++ [current ++ [ch], []] := by
  have split := Nat.div_add_mod line.length width
  have small := Nat.mod_lt line.length positive
  have currentLength : (line.drop (width * (line.length / width))).length = line.length % width := by
    rw [List.length_drop]
    omega
  refine ⟨(List.range (line.length / width)).map fun k => (line.drop (width * k)).take width,
    line.drop (width * (line.length / width)), ?_, ?_, ?_⟩
  · rw [wrap, List.range_succ, List.map_append, List.map_singleton, List.take_of_length_le]
    omega
  · omega
  · intro ch
    -- The rows before the last are full, so that the character does not reach them.
    have sameRows : ((List.range (line.length / width)).map
        fun k => ((line ++ [ch]).drop (width * k)).take width) =
        (List.range (line.length / width)).map fun k => (line.drop (width * k)).take width := by
      apply List.map_congr_left
      intro k member
      rw [List.mem_range] at member
      have rows : width * (k + 1) ≤ width * (line.length / width) := Nat.mul_le_mul_left width member
      rw [Nat.mul_succ] at rows
      rw [List.drop_append_of_le_length (by omega), List.take_append_of_le_length]
      rw [List.length_drop]
      omega
    have lastRow : (line ++ [ch]).drop (width * (line.length / width)) =
        line.drop (width * (line.length / width)) ++ [ch] :=
      List.drop_append_of_le_length (by omega)
    have lastLength : (line.drop (width * (line.length / width)) ++ [ch]).length ≤ width := by
      rw [List.length_append, currentLength, List.length_singleton]
      omega
    have lengthSnoc : (line ++ [ch]).length = line.length + 1 := by
      rw [List.length_append, List.length_singleton]
    rw [currentLength, wrap, lengthSnoc]
    by_cases fits : line.length % width + 1 < width
    · have sameCount : (line.length + 1) / width = line.length / width := by
        apply Nat.div_eq_of_lt_le
        · rw [Nat.mul_comm]
          omega
        · rw [Nat.succ_mul, Nat.mul_comm]
          omega
      rw [if_pos fits, sameCount, List.range_succ, List.map_append, sameRows, List.map_singleton,
        lastRow, List.take_of_length_le lastLength]
    · have nextCount : (line.length + 1) / width = line.length / width + 1 := by
        apply Nat.div_eq_of_lt_le
        · rw [Nat.succ_mul, Nat.mul_comm]
          omega
        · rw [Nat.succ_mul, Nat.succ_mul, Nat.mul_comm]
          omega
      have nothingLeft : (line ++ [ch]).drop (width * (line.length / width + 1)) = [] := by
        apply List.drop_eq_nil_of_le
        rw [lengthSnoc, Nat.mul_succ]
        omega
      rw [if_neg fits, nextCount, List.range_succ, List.range_succ, List.map_append, List.map_append,
        sameRows, List.map_singleton, List.map_singleton, lastRow, List.take_of_length_le lastLength,
        nothingLeft, List.take_nil, List.append_assoc]
      rfl

/-- The row of a page that the next character goes to, and the page with that character. -/
theorem page_snoc (positive : 0 < width) (text : List α) : ∃ rows current,
    page width isBreak text = rows ++ [current] ∧ current.length < width ∧
    ∀ ch, page width isBreak (text ++ [ch]) =
      if isBreak ch = true then rows ++ [current] ++ [[]]
      else if current.length + 1 < width then rows ++ [current ++ [ch]]
      else rows ++ [current ++ [ch]] ++ [[]] := by
  obtain ⟨earlier, line, splits⟩ := last_line isBreak text
  obtain ⟨full, current, wraps, short, wrapsNext⟩ := wrap_snoc positive line
  have isPage : page width isBreak text = earlier.flatMap (wrap width) ++ full ++ [current] := by
    have alone := splits [] fun _ member => absurd member List.not_mem_nil
    rw [List.append_nil, List.append_nil] at alone
    rw [page, alone, List.flatMap_append, List.flatMap_singleton, wraps, List.append_assoc]
  refine ⟨earlier.flatMap (wrap width) ++ full, current, isPage, short, ?_⟩
  intro ch
  cases breaks : isBreak ch with
  | true =>
    rw [if_pos rfl, ← isPage, page, List.splitOnP_append_cons text [] breaks, List.splitOnP_nil,
      List.flatMap_append, List.flatMap_singleton, wrap_nil]
    rfl
  | false =>
    have next := splits [ch] (by
      intro other member
      rw [List.mem_singleton.mp member, breaks])
    rw [if_neg Bool.false_ne_true, page, next, List.flatMap_append, List.flatMap_singleton, wrapsNext]
    by_cases fits : current.length + 1 < width
    · rw [if_pos fits, if_pos fits, List.append_assoc]
    · rw [if_neg fits, if_neg fits, List.append_assoc, List.append_assoc]
      rfl

theorem page_nil (width : Nat) (isBreak : α → Bool) : page width isBreak [] = [[]] := by
  rw [page, List.splitOnP_nil, List.flatMap_singleton, wrap_nil]

end Library.Layout
