import Toyix.Library.Ledger
import Toyix.Paging.Entries
import Toyix.Paging.Spaces

/-!
# Who owns a physical page

A page in use belongs to one owner: the kernel's heap, a page table, a process
directory, or a user page of one process. The owner's page is read off the page
tables themselves, so the ledger of owners is a function of memory and of the list
of address spaces.

Every store to a directory or a table changes this function at exactly one owner,
and stores elsewhere do not change it. The laws of the ledger then carry ownership
through the code: pages are taken from the frame allocator, held for a while,
entered into a table, removed again and returned.
-/

namespace Toyix.Paging

open Library Pmm Function

variable {space : SpaceRef} {virtualAddr directory : Nat} {index kernelDirectory : Nat}

/-- The kinds of owners. The kernel's tables and pages have the space `none`. -/
inductive Owner where
  | directory (space : Nat)
  | table (space : SpaceRef) (index : Nat)
  | page (space : SpaceRef) (virtualAddr : Nat)
deriving DecidableEq

/-- The directory entries for which a space has tables of its own. -/
def TableRange : SpaceRef → Nat → Prop
  | none, index => 4 ≤ index ∧ index < 1024
  | some _, index => 4 ≤ index ∧ index < 768

/-- The pages a space maps: the heap window of the kernel, the user range of a
process. -/
def PageRange : SpaceRef → Nat → Prop
  | none, virtualAddr =>
    virtualAddr % 4096 = 0 ∧ 0xD1000000 ≤ virtualAddr ∧ virtualAddr < 0xD2000000
  | some _, virtualAddr =>
    virtualAddr % 4096 = 0 ∧ 0x01000000 ≤ virtualAddr ∧ virtualAddr < 0xC0000000

instance (space : SpaceRef) (index : Nat) : Decidable (TableRange space index) := by
  cases space <;> exact inferInstanceAs (Decidable (_ ∧ _))

instance (space : SpaceRef) (virtualAddr : Nat) : Decidable (PageRange space virtualAddr) := by
  cases space <;> exact inferInstanceAs (Decidable (_ ∧ _))

theorem PageRange.aligned (inRange : PageRange space virtualAddr) : virtualAddr % 4096 = 0 := by
  cases space with
  | none | some object => exact inRange.1

theorem PageRange.table_range (inRange : PageRange space virtualAddr) :
    TableRange space (directoryIndex virtualAddr) := by
  rw [directory_index_eq]
  cases space with
  | none | some object =>
    obtain ⟨-, low, high⟩ := inRange
    exact ⟨by omega, by omega⟩

theorem TableRange.lt (inRange : TableRange space index) : index < 1024 := by
  cases space with
  | none => exact inRange.2
  | some object => exact Nat.lt_trans inRange.2 (by decide)

section Owners

variable (spaces : Nat → Option AddressSpace) (kernelDirectory : Nat) (memory : Memory)

/-- The directory of a space. -/
def directoryOf : SpaceRef → Option Nat
  | none => some kernelDirectory
  | some object => (spaces object).map AddressSpace.pageDirectory

/-- The page of an owner, if it has one. -/
def ownedFrame : Owner → Option Nat
  | .directory object => (spaces object).map AddressSpace.pageDirectoryPhysical
  | .table space index =>
    if TableRange space index then
      (directoryOf spaces kernelDirectory space).bind fun directory =>
        tableOf memory directory index
    else none
  | .page space virtualAddr =>
    if PageRange space virtualAddr then
      (directoryOf spaces kernelDirectory space).bind fun directory =>
        pageOf memory directory (directoryIndex virtualAddr) (tableIndex virtualAddr)
    else none

end Owners

/-- The owners as a function of the machine. -/
abbrev ownersOf (spaces : Nat → Option AddressSpace) (machine : Machine) : Owner → Option Nat :=
  ownedFrame spaces machine.kernelDirectory machine.memory

/-- The pages that may be handed out: page aligned, from 1 MiB on, not reserved at
boot. -/
def Permitted (image : Image) (physical : Nat) : Prop :=
  Allocatable physical ∧ ¬ ReservedAtBoot image.boot physical

/-- Ownership is sound: every owned or held page is in use and permitted, and none
has two owners. The reserved pages stay in use, and the identity map of the first
16 MiB stays in place. -/
structure Owned (image : Image) (spaces : Nat → Option AddressSpace) (held : Set Nat)
    (machine : Machine) : Prop where
  kernelDirectory : machine.kernelDirectory = image.pageDirectory
  reserved : ∀ physical, physical < 2 ^ 32 → ReservedAtBoot image.boot physical →
    FrameUsed machine.pmm physical
  directories : ∀ object record, spaces object = some record →
    record.pageDirectory = record.pageDirectoryPhysical
  identity : ∀ index < 4, tableOf machine.memory machine.kernelDirectory index =
    some (image.identityTables + 4096 * index)
  sound : Ledger.Sound (Permitted image) (FrameUsed machine.pmm) held (ownersOf spaces machine)

/-! ## Reserved pages -/

/-- Pages of the kernel image are reserved. -/
theorem Image.image_reserved (image : Image) {physical : Nat}
    (aligned : physical % 4096 = 0) (low : image.boot.kernelStart ≤ physical)
    (high : physical + 4096 ≤ image.boot.kernelEnd) : ReservedAtBoot image.boot physical := by
  have small := image.identity
  refine Or.inr (Or.inl ⟨?_, ?_⟩)
  · rw [align_down_le _ image.addressable.kernelStart]
    omega
  · rw [align_up_eq]
    omega

theorem Image.directory_reserved (image : Image) :
    ReservedAtBoot image.boot image.pageDirectory :=
  image.image_reserved image.aligned image.low image.high

namespace Owned

variable {image : Image} {spaces : Nat → Option AddressSpace} {held : Set Nat} {machine : Machine}

section Owned

variable (inv : Owned image spaces held machine)

include inv

/-- An owned page is page aligned, permitted and nonzero. -/
theorem permitted {owner : Owner} {physical : Nat}
    (owns : ownersOf spaces machine owner = some physical) :
    Permitted image physical := (inv.sound.owned owns).2.1

/-- The kernel directory has no owner. -/
theorem kernel_unowned (owner : Owner) :
    ownersOf spaces machine owner ≠ some machine.kernelDirectory := by
  intro owns
  have notReserved := (inv.permitted owns).2
  rw [inv.kernelDirectory] at notReserved
  exact notReserved image.directory_reserved

/-- The owner of a space's directory. -/
theorem directory_owner {object : Nat}
    (isDirectory : directoryOf spaces machine.kernelDirectory (some object) = some directory) :
    ownersOf spaces machine (.directory object) = some directory := by
  obtain ⟨record, isSpace, rfl⟩ := Option.map_eq_some_iff.mp isDirectory
  simp only [ownedFrame, isSpace, Option.map_some, inv.directories object record isSpace]

/-- Different spaces have different directories. -/
theorem directory_unique {other : SpaceRef}
    (isDirectory : directoryOf spaces machine.kernelDirectory space = some directory)
    (isOther : directoryOf spaces machine.kernelDirectory other = some directory) :
    space = other := by
  cases space with
  | none =>
    cases other with
    | none => rfl
    | some object =>
      obtain rfl : machine.kernelDirectory = directory := Option.some.inj isDirectory
      exact absurd (inv.directory_owner isOther) (inv.kernel_unowned _)
  | some object =>
    cases other with
    | none =>
      obtain rfl : machine.kernelDirectory = directory := Option.some.inj isOther
      exact absurd (inv.directory_owner isDirectory) (inv.kernel_unowned _)
    | some object' =>
      have same := inv.sound.single (inv.directory_owner isDirectory) (inv.directory_owner isOther)
      rw [Owner.directory.inj same]

theorem kernel_aligned : machine.kernelDirectory % 4096 = 0 := by
  rw [inv.kernelDirectory]
  exact image.aligned

/-- A directory is a page, and not a table. -/
theorem directory_aligned
    (isDirectory : directoryOf spaces machine.kernelDirectory space = some directory) :
    directory % 4096 = 0 := by
  cases space with
  | none =>
    obtain rfl : machine.kernelDirectory = directory := Option.some.inj isDirectory
    exact inv.kernel_aligned
  | some object => exact (inv.permitted (inv.directory_owner isDirectory)).1.1

theorem table_not_directory {other : SpaceRef} {table : Nat}
    (owns : ownersOf spaces machine (.table space index) = some table) :
    directoryOf spaces machine.kernelDirectory other ≠ some table := by
  intro isDirectory
  cases other with
  | none =>
    obtain rfl : machine.kernelDirectory = table := Option.some.inj isDirectory
    exact inv.kernel_unowned _ owns
  | some object =>
    have same := inv.sound.single owns (inv.directory_owner isDirectory)
    simp at same

end Owned

end Owned

/-! ## Stores -/

section Stores

variable {image : Image} {spaces : Nat → Option AddressSpace} {held : Set Nat} {machine : Machine}

/-- The pages that hold directories and tables. -/
def Structural (spaces : Nat → Option AddressSpace) (kernelDirectory : Nat) (memory : Memory)
    (page : Nat) : Prop :=
  (∃ space, directoryOf spaces kernelDirectory space = some page) ∨
    ∃ space index, ownedFrame spaces kernelDirectory memory (.table space index) = some page

/-- The tables of a space are those of its directory. -/
theorem table_owner
    (isDirectory : directoryOf spaces machine.kernelDirectory space = some directory)
    (inRange : TableRange space index) :
    ownersOf spaces machine (.table space index) = tableOf machine.memory directory index := by
  simp only [ownersOf, ownedFrame, inRange, ↓reduceIte, isDirectory, Option.bind_some]

/-- The pages of a space are those of its directory. -/
theorem page_owner (isDirectory : directoryOf spaces machine.kernelDirectory space = some directory)
    (inRange : PageRange space virtualAddr) :
    ownersOf spaces machine (.page space virtualAddr) =
      entryPage (pageEntry machine.memory directory virtualAddr) := by
  simp only [ownersOf, ownedFrame, inRange, ↓reduceIte, isDirectory, Option.bind_some,
    page_entry_of_page]

/-- The table an owned page is entered in. -/
theorem table_of_page {memory : Memory} {table : Nat} (inRange : PageRange space virtualAddr)
    (isDirectory : directoryOf spaces kernelDirectory space = some directory)
    (entered : tableOf memory directory (directoryIndex virtualAddr) = some table) :
    ownedFrame spaces kernelDirectory memory (.table space (directoryIndex virtualAddr)) =
      some table := by
  simp only [ownedFrame, inRange.table_range, ↓reduceIte, isDirectory, Option.bind_some, entered]

/-- The directory entry that leads to an owner's page. -/
def Owner.At (space : SpaceRef) (index : Nat) : Owner → Prop
  | .directory _ => False
  | .table other otherIndex => other = space ∧ otherIndex = index
  | .page other virtualAddr => other = space ∧ directoryIndex virtualAddr = index

/-- What an owner has depends on its directory entry and, for a page, on the entry of its table. -/
theorem owned_frame_congr {memory memory' : Memory} {owner : Owner}
    (sameDirectory : ∀ space index directory, owner.At space index → TableRange space index →
      directoryOf spaces kernelDirectory space = some directory →
      memory'.word directory index = memory.word directory index)
    (sameTable : ∀ space virtualAddr table, owner = .page space virtualAddr → PageRange space virtualAddr →
      ownedFrame spaces kernelDirectory memory (.table space (directoryIndex virtualAddr)) = some table →
      memory'.word table (tableIndex virtualAddr) = memory.word table (tableIndex virtualAddr)) :
    ownedFrame spaces kernelDirectory memory' owner = ownedFrame spaces kernelDirectory memory owner := by
  cases owner with
  | directory object => rfl
  | table space index =>
    simp only [ownedFrame]
    split
    · rename_i inRange
      cases isDirectory : directoryOf spaces kernelDirectory space with
      | none => rfl
      | some directory =>
        exact table_of_congr (sameDirectory space index directory ⟨rfl, rfl⟩ inRange isDirectory)
    · rfl
  | page space virtualAddr =>
    simp only [ownedFrame]
    split
    · rename_i inRange
      cases isDirectory : directoryOf spaces kernelDirectory space with
      | none => rfl
      | some directory =>
        refine page_of_congr ?_ ?_
        · exact sameDirectory space _ directory ⟨rfl, rfl⟩ inRange.table_range isDirectory
        · intro table entered
          exact sameTable space virtualAddr table rfl inRange (table_of_page inRange isDirectory entered)
    · rfl

/-- Storing a table entry changes the page at one virtual address.

Proof: the table is no directory, so all tables stay. A page entered in the same
table belongs to the same space and directory index, by ownership of the table;
among these only the stored entry differs. -/
theorem owned_frame_store_page (inv : Owned image spaces held machine)
    {table : Nat} (entry : Nat) (inRange : PageRange space virtualAddr)
    (owns : ownersOf spaces machine (.table space (directoryIndex virtualAddr)) = some table)
    (bounded : entry < 2 ^ 32) :
    ownedFrame spaces machine.kernelDirectory
        (machine.memory.setWord table (tableIndex virtualAddr) entry) =
      update (ownersOf spaces machine)
        (.page space virtualAddr) (entryPage entry) := by
  have tableAligned : table % 4096 = 0 := (inv.permitted owns).1.1
  have sameDirectory : ∀ other index directory, TableRange other index →
      directoryOf spaces machine.kernelDirectory other = some directory →
      (machine.memory.setWord table (tableIndex virtualAddr) entry).word directory index =
        machine.memory.word directory index := by
    intro other index directory otherRange isDirectory
    rw [Memory.word_setWord _ tableAligned (inv.directory_aligned isDirectory)
      (table_index_lt _) otherRange.lt bounded, if_neg]
    rintro ⟨rfl, -⟩
    exact inv.table_not_directory owns isDirectory
  funext owner
  by_cases isTarget : owner = .page space virtualAddr
  · subst isTarget
    rw [update_self]
    simp only [ownedFrame, inRange.table_range, ↓reduceIte] at owns
    obtain ⟨directory, isDirectory, entered⟩ := Option.bind_eq_some_iff.mp owns
    simp only [ownedFrame, inRange, ↓reduceIte, isDirectory, Option.bind_some, pageOf]
    rw [table_of_congr (sameDirectory space _ directory inRange.table_range isDirectory), entered,
      Option.bind_some, Memory.word_setWord _ tableAligned tableAligned (table_index_lt _)
        (table_index_lt _) bounded, if_pos ⟨rfl, rfl⟩]
  · rw [update_of_ne isTarget]
    refine owned_frame_congr (fun other index directory _ => sameDirectory other index directory) ?_
    intro other otherAddr otherTable isPage otherRange otherOwns
    rw [Memory.word_setWord _ tableAligned (inv.permitted otherOwns).1.1 (table_index_lt _)
      (table_index_lt _) bounded, if_neg]
    rintro ⟨rfl, sameIndex⟩
    obtain ⟨rfl, sameDir⟩ := Owner.table.inj (inv.sound.single otherOwns owns)
    have sameAddr := page_address_unique otherRange.aligned inRange.aligned sameDir sameIndex
    exact isTarget (isPage.trans (congrArg _ sameAddr))

/-- No entry of a table is present. -/
def EmptyTable (memory : Memory) (table : Nat) : Prop :=
  ∀ index < 1024, isPresent (memory.word table index) = false

/-- An empty table maps no page. -/
theorem page_of_empty_table {memory : Memory}
    (isDirectory : directoryOf spaces kernelDirectory space = some directory)
    (empty : ∀ table, tableOf memory directory (directoryIndex virtualAddr) = some table →
      EmptyTable memory table) :
    ownedFrame spaces kernelDirectory memory (.page space virtualAddr) = none := by
  simp only [ownedFrame, isDirectory, Option.bind_some, pageOf]
  split
  · cases entered : tableOf memory directory (directoryIndex virtualAddr) with
    | none => rfl
    | some table => exact entry_page_eq_none.mpr (empty table entered _ (table_index_lt _))
  · rfl

/-- Storing a directory entry changes the table at one index, when neither the old
nor the new table maps a page. -/
theorem owned_frame_store_table (inv : Owned image spaces held machine) (entry : Nat)
    (inRange : TableRange space index)
    (isDirectory : directoryOf spaces machine.kernelDirectory space = some directory)
    (bounded : entry < 2 ^ 32)
    (oldEmpty : ∀ table, tableOf machine.memory directory index = some table →
      EmptyTable machine.memory table)
    (newEmpty : isPresent entry = true → tableFromPde entry ≠ directory ∧
      EmptyTable machine.memory (tableFromPde entry)) :
    ownedFrame spaces machine.kernelDirectory (machine.memory.setWord directory index entry) =
      update (ownersOf spaces machine)
        (.table space index) (if isPresent entry then some (tableFromPde entry) else none) := by
  have dirAligned := inv.directory_aligned isDirectory
  have stored : tableOf (machine.memory.setWord directory index entry) directory index =
      if isPresent entry then some (tableFromPde entry) else none := by
    simp only [tableOf, Memory.word_setWord _ dirAligned dirAligned inRange.lt inRange.lt bounded,
      and_self, ↓reduceIte]
  funext owner
  by_cases isTarget : owner = .table space index
  · subst isTarget
    rw [update_self, ← stored]
    simp only [ownedFrame, inRange, ↓reduceIte, isDirectory, Option.bind_some]
  · rw [update_of_ne isTarget]
    by_cases below : owner.At space index
    · -- Neither the old nor the new table has a present entry.
      cases owner with
      | directory object => cases below
      | table other otherIndex => exact absurd (by rw [below.1, below.2]) isTarget
      | page other otherAddr =>
        obtain ⟨rfl, rfl⟩ := below
        refine (page_of_empty_table isDirectory ?_).trans (page_of_empty_table isDirectory oldEmpty).symm
        intro table entered slot inside
        rw [stored] at entered
        split at entered
        · rename_i present
          obtain rfl := Option.some.inj entered
          obtain ⟨notDir, empty⟩ := newEmpty present
          rw [Memory.word_setWord _ dirAligned (table_from_pde_aligned bounded) inRange.lt inside bounded,
            if_neg (fun both => notDir both.1)]
          exact empty slot inside
        · cases entered
    · refine owned_frame_congr ?_ ?_
      · intro other otherIndex otherDir isAt otherRange isOther
        rw [Memory.word_setWord _ dirAligned (inv.directory_aligned isOther) inRange.lt otherRange.lt
          bounded, if_neg]
        rintro ⟨rfl, rfl⟩
        exact below (inv.directory_unique isDirectory isOther ▸ isAt)
      · intro other otherAddr table _ otherRange otherOwns
        rw [Memory.word_setWord _ dirAligned (inv.permitted otherOwns).1.1 inRange.lt
          (table_index_lt _) bounded, if_neg]
        rintro ⟨rfl, -⟩
        exact inv.table_not_directory otherOwns isDirectory

end Stores

end Toyix.Paging
