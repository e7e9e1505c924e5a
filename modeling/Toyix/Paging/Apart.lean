import Toyix.Paging.Entries

/-!
# Tables that do not meet

The entries that a directory and its tables give to addresses, when the tables of a range of
directory indices are different pages and none of them is the directory. A store into one of the
tables then changes the entry of one page, and entering a cleared page as a table changes none.
-/

namespace Toyix.Paging

open Library Pmm

variable {range : Nat → Prop} {address : Nat}

/-- The directory and its tables in a range of indices: aligned, and all different. -/
structure TablesApart (memory : Memory) (directory : Nat) (range : Nat → Prop) : Prop where
  aligned : directory % 4096 = 0
  inside : ∀ index, range index → index < 1024
  apart : ∀ index table, range index → tableOf memory directory index = some table →
    table ≠ directory
  unique : ∀ index other table, range index → range other →
    tableOf memory directory index = some table → tableOf memory directory other = some table →
    index = other

variable {memory : Memory} {directory table index tab entry : Nat}

/-- An entry is found through the table of its index. -/
theorem page_entry_of_table
    (entered : tableOf memory directory (directoryIndex address) = some table) :
    pageEntry memory directory address =
      if isPresent (memory.word table (tableIndex address)) = false then 0
      else memory.word table (tableIndex address) := by
  obtain ⟨present, rfl⟩ := table_of_eq_some.mp entered
  simp only [pageEntry, present, Bool.true_eq_false, ↓reduceIte]

theorem page_entry_of_no_table (absent : tableOf memory directory (directoryIndex address) = none) :
    pageEntry memory directory address = 0 := by
  simp only [pageEntry, table_of_eq_none.mp absent, ↓reduceIte]

section TablesApart

variable (apart : TablesApart memory directory range) (inRange : range index)
  (entered : tableOf memory directory index = some table) (tabInside : tab < 1024)
  (bounded : entry < 2 ^ 32)

include apart inRange entered tabInside bounded

/-- A store into a table does not change the directory. -/
theorem TablesApart.directory_kept {other : Nat} (otherInside : other < 1024) :
    (memory.setWord table tab entry).word directory other = memory.word directory other := by
  rw [Memory.word_setWord _ (table_of_aligned entered) apart.aligned tabInside otherInside bounded,
    if_neg]
  rintro ⟨same, -⟩
  exact apart.apart index table inRange entered same.symm

theorem TablesApart.stored : TablesApart (memory.setWord table tab entry) directory range := by
  have same : ∀ other, range other → tableOf (memory.setWord table tab entry) directory other =
      tableOf memory directory other := fun other otherRange =>
    table_of_congr (apart.directory_kept inRange entered tabInside bounded
      (apart.inside other otherRange))
  refine ⟨apart.aligned, apart.inside, ?_, ?_⟩
  · intro other otherTable otherRange found
    exact apart.apart other otherTable otherRange ((same other otherRange).symm.trans found)
  · intro left right sharedTable leftRange rightRange isLeft isRight
    rw [same left leftRange] at isLeft
    rw [same right rightRange] at isRight
    exact apart.unique left right sharedTable leftRange rightRange isLeft isRight

/-- A store into a table changes one entry. -/
theorem TablesApart.entry_stored (addressRange : range (directoryIndex address)) :
    pageEntry (memory.setWord table tab entry) directory address =
      if directoryIndex address = index ∧ tableIndex address = tab then
        (if isPresent entry = false then 0 else entry)
      else pageEntry memory directory address := by
  have kept := apart.directory_kept inRange entered tabInside bounded
    (apart.inside _ addressRange)
  have sameTable := table_of_congr kept
  cases found : tableOf memory directory (directoryIndex address) with
  | none =>
    rw [page_entry_of_no_table (sameTable.trans found), page_entry_of_no_table found, if_neg]
    rintro ⟨rfl, -⟩
    rw [found] at entered
    cases entered
  | some otherTable =>
    rw [page_entry_of_table (sameTable.trans found), page_entry_of_table found,
      Memory.word_setWord _ (table_of_aligned entered) (table_of_aligned found) tabInside (table_index_lt address) bounded]
    by_cases same : directoryIndex address = index ∧ tableIndex address = tab
    · obtain ⟨rfl, rfl⟩ := same
      obtain rfl : otherTable = table := Option.some.inj (found.symm.trans entered)
      simp only [and_self, ↓reduceIte]
    · have different : ¬ (otherTable = table ∧ tableIndex address = tab) := by
        rintro ⟨rfl, sameTab⟩
        exact same ⟨apart.unique _ _ _ addressRange inRange found entered, sameTab⟩
      rw [if_neg different, if_neg same]

end TablesApart

/-- Entering a cleared page as a table changes no entry. -/
theorem TablesApart.entry_opened (apart : TablesApart memory directory range) {pde : Nat}
    (absent : tableOf memory directory index = none) (inRange : range index)
    (aligned : table % 4096 = 0) (notDirectory : table ≠ directory)
    (fresh : ∀ other, range other → tableOf memory directory other ≠ some table)
    (present : isPresent pde = true) (frame : tableFromPde pde = table) (bounded : pde < 2 ^ 32) :
    TablesApart ((memory.clearPage table).setWord directory index pde) directory range ∧
      tableOf ((memory.clearPage table).setWord directory index pde) directory index = some table ∧
      ∀ address, range (directoryIndex address) →
        pageEntry ((memory.clearPage table).setWord directory index pde) directory address =
          pageEntry memory directory address := by
  have words : ∀ page, page % 4096 = 0 → ∀ slot < 1024,
      ((memory.clearPage table).setWord directory index pde).word page slot =
        if page = directory ∧ slot = index then pde
        else if page = table then 0 else memory.word page slot := by
    intro page pageAligned slot slotInside
    rw [Memory.word_setWord _ apart.aligned pageAligned (apart.inside index inRange) slotInside
      bounded, Memory.word_clearPage _ aligned pageAligned slotInside]
  have entries : ∀ other, range other →
      tableOf ((memory.clearPage table).setWord directory index pde) directory other =
        if other = index then some table else tableOf memory directory other := by
    intro other otherRange
    have word := words directory apart.aligned other (apart.inside other otherRange)
    by_cases isIndex : other = index
    · rw [if_pos ⟨rfl, isIndex⟩] at word
      rw [if_pos isIndex]
      exact table_of_eq_some.mpr (by rw [word]; exact ⟨present, frame⟩)
    · rw [if_neg (fun both => isIndex both.2), if_neg (Ne.symm notDirectory)] at word
      rw [if_neg isIndex]
      exact table_of_congr word
  refine ⟨⟨apart.aligned, apart.inside, ?_, ?_⟩, ?_, ?_⟩
  · intro other otherTable otherRange entered
    rw [entries other otherRange] at entered
    split at entered
    · cases entered
      exact notDirectory
    · exact apart.apart other otherTable otherRange entered
  · intro left right sharedTable leftRange rightRange isLeft isRight
    rw [entries left leftRange] at isLeft
    rw [entries right rightRange] at isRight
    split at isLeft <;> split at isRight
    · rename_i same same'
      exact same.trans same'.symm
    · cases isLeft
      exact absurd isRight (fresh right rightRange)
    · cases isRight
      exact absurd isLeft (fresh left leftRange)
    · exact apart.unique left right sharedTable leftRange rightRange isLeft isRight
  · rw [entries index inRange, if_pos rfl]
  · intro address addressRange
    have entered := entries (directoryIndex address) addressRange
    by_cases isIndex : directoryIndex address = index
    · rw [if_pos isIndex] at entered
      have cleared := words table aligned _ (table_index_lt address)
      rw [if_neg (fun both => notDirectory both.1), if_pos rfl] at cleared
      rw [page_entry_of_table entered, page_entry_of_no_table (isIndex ▸ absent), cleared]
      rfl
    · rw [if_neg isIndex] at entered
      cases found : tableOf memory directory (directoryIndex address) with
      | none => rw [page_entry_of_no_table (entered.trans found), page_entry_of_no_table found]
      | some otherTable =>
        have different : otherTable ≠ table := fun same => fresh _ addressRange (same ▸ found)
        have notDirectory' := apart.apart _ _ addressRange found
        have kept := words otherTable (table_of_aligned found) _ (table_index_lt address)
        rw [if_neg (fun both => notDirectory' both.1), if_neg different] at kept
        rw [page_entry_of_table (entered.trans found), page_entry_of_table found, kept]

/-- An entry depends on the words of the directory and of the table. -/
theorem page_entry_congr {memory' : Memory}
    (same : memory'.word directory (directoryIndex address) =
      memory.word directory (directoryIndex address))
    (sameTable : ∀ table, tableOf memory directory (directoryIndex address) = some table →
      memory'.word table (tableIndex address) = memory.word table (tableIndex address)) :
    pageEntry memory' directory address = pageEntry memory directory address := by
  cases found : tableOf memory directory (directoryIndex address) with
  | none =>
    rw [page_entry_of_no_table ((table_of_congr same).trans found), page_entry_of_no_table found]
  | some table =>
    rw [page_entry_of_table ((table_of_congr same).trans found), page_entry_of_table found,
      sameTable table found]

end Toyix.Paging
