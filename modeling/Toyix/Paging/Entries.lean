import Toyix.Paging.Kernel

/-!
# Reading page tables

Arithmetic of directory and table entries, and the two partial functions a
directory gives: the table of an index and the page of a virtual address. Storing
one entry, or clearing a fresh page, changes these functions at one place.
-/

namespace Toyix.Paging

open Library Pmm

variable {memory : Memory} {directory index : Nat}

/-! ## Arithmetic -/

/-- The test of the low twelve bits. -/
theorem is_page_aligned_iff (value : Nat) : isPageAligned value = true ↔ value % 4096 = 0 := by
  have mask : value &&& (x86PageSize - 1) = value % 4096 := Nat.and_two_pow_sub_one_eq_mod value 12
  rw [isPageAligned, mask]
  exact beq_iff_eq

/-- The present bit is bit 0. -/
theorem is_present_iff (entry : Nat) : isPresent entry = true ↔ entry % 2 = 1 := by
  have mask : entry &&& x86PagePresent = entry % 2 := Nat.and_two_pow_sub_one_eq_mod entry 1
  rw [isPresent, mask]
  simp

/-- The user bit of an entry. -/
def isUser (entry : Nat) : Bool := entry &&& x86PageUser != 0

/-- The user bit is bit 2. -/
theorem is_user_iff (entry : Nat) : isUser entry = true ↔ entry / 4 % 2 = 1 := by
  have masked : entry &&& x86PageUser = (entry.testBit 2).toNat * 2 ^ 2 := Nat.and_two_pow entry 2
  rw [isUser, masked, Nat.testBit_eq_decide_div_mod_eq]
  simp

/-- The mask clears the low twelve bits. -/
theorem frame_of_entry (entry : Nat) (bounded : entry < 2 ^ 32) :
    entry &&& x86PageFrameMask = entry / 4096 * 4096 :=
  land_high_mask entry 12 bounded (by decide)

/-- The upper ten bits. -/
theorem directory_index_eq (virtualAddr : Nat) : directoryIndex virtualAddr = virtualAddr / 2 ^ 22 :=
  Nat.shiftRight_eq_div_pow virtualAddr 22

/-- The next ten bits. -/
theorem table_index_eq (virtualAddr : Nat) :
    tableIndex virtualAddr = virtualAddr / 2 ^ 12 % 1024 := by
  rw [tableIndex, Nat.shiftRight_eq_div_pow]
  exact Nat.and_two_pow_sub_one_eq_mod _ 10

/-- A table has 1024 entries, -/
theorem table_index_lt (virtualAddr : Nat) : tableIndex virtualAddr < 1024 := by
  rw [table_index_eq]
  exact Nat.mod_lt _ (by decide)

/-- and so has a directory. -/
theorem directory_index_lt {virtualAddr : Nat} (bounded : virtualAddr < 2 ^ 32) :
    directoryIndex virtualAddr < 1024 := by
  rw [directory_index_eq]
  omega

/-- A page address is determined by its two indices. -/
theorem page_address_unique {virtualAddr other : Nat} (aligned : virtualAddr % 4096 = 0)
    (aligned' : other % 4096 = 0) (sameDir : directoryIndex virtualAddr = directoryIndex other)
    (sameTab : tableIndex virtualAddr = tableIndex other) : virtualAddr = other := by
  rw [directory_index_eq, directory_index_eq] at sameDir
  rw [table_index_eq, table_index_eq] at sameTab
  omega

/-- The entry made of a page address and flags. -/
theorem entry_eq_add {physical flags : Nat} (aligned : physical % 4096 = 0)
    (bounded : physical < 2 ^ 32) (small : flags < 4096) :
    (physical &&& x86PageFrameMask) ||| flags = physical + flags := by
  have same : physical &&& x86PageFrameMask = physical := by
    rw [frame_of_entry physical bounded]
    omega
  rw [same]
  exact lor_eq_add physical flags 12 aligned small

/-! ## Tables and pages of a directory -/

/-- The table a directory enters at an index. -/
def tableOf (memory : Memory) (directory index : Nat) : Option Nat :=
  if isPresent (memory.word directory index) then some (tableFromPde (memory.word directory index))
  else none

/-- The page an entry refers to. -/
def entryPage (entry : Nat) : Option Nat :=
  if isPresent entry then some (entry &&& x86PageFrameMask) else none

/-- The page a directory maps at a pair of indices. -/
def pageOf (memory : Memory) (directory dirIndex tabIndex : Nat) : Option Nat :=
  (tableOf memory directory dirIndex).bind fun table => entryPage (memory.word table tabIndex)

/-- Tables are page aligned. -/
theorem table_from_pde_aligned {pde : Nat} (bounded : pde < 2 ^ 32) : tableFromPde pde % 4096 = 0 := by
  rw [tableFromPde, frame_of_entry pde bounded]
  omega

/-- A table is entered when its entry is present. -/
theorem table_of_eq_some {table : Nat} :
    tableOf memory directory index = some table ↔
      isPresent (memory.word directory index) = true ∧
        tableFromPde (memory.word directory index) = table := by
  unfold tableOf
  split <;> simp_all

/-- A table that is entered is page aligned. -/
theorem table_of_aligned {table : Nat} (entered : tableOf memory directory index = some table) :
    table % 4096 = 0 := by
  obtain ⟨-, rfl⟩ := table_of_eq_some.mp entered
  exact table_from_pde_aligned (Memory.word_lt _ _ _)

/-- No table is entered when the entry is absent. -/
theorem table_of_eq_none :
    tableOf memory directory index = none ↔ isPresent (memory.word directory index) = false := by
  unfold tableOf
  split <;> simp_all

/-- An entry that was cleared. -/
theorem entry_page_zero : entryPage 0 = none := by decide

/-- An absent entry has no page. -/
theorem entry_page_eq_none {entry : Nat} : entryPage entry = none ↔ isPresent entry = false := by
  unfold entryPage
  split <;> simp_all

/-- A present entry has the page of its upper bits. -/
theorem entry_page_eq_some {entry page : Nat} :
    entryPage entry = some page ↔ isPresent entry = true ∧ entry &&& x86PageFrameMask = page := by
  unfold entryPage
  split <;> simp_all

/-- An entry made of an aligned page and odd flags refers to that page. -/
theorem entry_page_made {physical flags : Nat} (aligned : physical % 4096 = 0)
    (bounded : physical < 2 ^ 32) (small : flags < 4096) (odd : flags % 2 = 1) :
    isPresent ((physical &&& x86PageFrameMask) ||| flags) = true ∧
      ((physical &&& x86PageFrameMask) ||| flags) &&& x86PageFrameMask = physical ∧
      ((physical &&& x86PageFrameMask) ||| flags) < 2 ^ 32 := by
  rw [entry_eq_add aligned bounded small, is_present_iff]
  have total : physical + flags < 2 ^ 32 := by omega
  rw [frame_of_entry _ total]
  omega

/-- The directory's entry for an address decides the page. -/
theorem page_entry_of_page (memory : Memory) (directory virtualAddr : Nat) :
    entryPage (pageEntry memory directory virtualAddr) =
      pageOf memory directory (directoryIndex virtualAddr) (tableIndex virtualAddr) := by
  unfold pageEntry pageOf tableOf
  by_cases entered : isPresent (memory.word directory (directoryIndex virtualAddr)) = true
  · simp only [entered, Bool.true_eq_false, ↓reduceIte, Option.bind_some]
    split
    · rename_i absent
      rw [entry_page_zero, entry_page_eq_none.mpr absent]
    · rfl
  · simp only [Bool.not_eq_true] at entered
    simp [entered, entry_page_zero]

/-! ## One store -/

/-- Tables and pages depend on the words of the directory and of its tables. -/
theorem table_of_congr {memory' : Memory}
    (same : memory'.word directory index = memory.word directory index) :
    tableOf memory' directory index = tableOf memory directory index := by
  rw [tableOf, tableOf, same]

/-- A page depends on two words: the directory entry and the table entry. -/
theorem page_of_congr {memory' : Memory} {dirIndex tabIndex : Nat}
    (same : memory'.word directory dirIndex = memory.word directory dirIndex)
    (sameTable : ∀ table, tableOf memory directory dirIndex = some table →
      memory'.word table tabIndex = memory.word table tabIndex) :
    pageOf memory' directory dirIndex tabIndex = pageOf memory directory dirIndex tabIndex := by
  rw [pageOf, pageOf, table_of_congr same]
  cases entered : tableOf memory directory dirIndex with
  | none => rfl
  | some table =>
    rw [Option.bind_some, Option.bind_some, sameTable table entered]

end Toyix.Paging
