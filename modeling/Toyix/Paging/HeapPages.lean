import Toyix.Heap.Growth
import Toyix.Paging.Moves

/-!
# The heap's pages

The heap takes pages from the frame allocator and maps them in its window through
the kernel's page tables, opening tables as it goes. This is the only way in which
the rest of the kernel changes page tables behind the back of a caller of `kmalloc`,
so its effect is described once.

Growth keeps ownership sound, and it is confined to the kernel's side: it does not
touch a page that a process owns or that a caller holds, it does not change an entry
of the kernel directory that was present, and it maps nothing for user access.
-/

namespace Toyix.Paging

open Library Pmm

variable {image : Image} {spaces : Nat → Option AddressSpace} {held kept : Set Nat} {machine : Machine}
  {index table : Nat}

/-- The owners that belong to a process. -/
def Owner.OfProcess : Owner → Prop
  | .directory _ => True
  | .table space _ => space ≠ none
  | .page space _ => space ≠ none

/-- The pages that belong to processes or are held by callers. -/
def Protected (spaces : Nat → Option AddressSpace) (kept : Set Nat) (machine : Machine)
    (physical : Nat) : Prop :=
  physical ∈ kept ∨ ∃ owner : Owner, owner.OfProcess ∧ ownersOf spaces machine owner = some physical

/-- No entry of a kernel table carries the user bit. -/
def KernelBits (machine : Machine) : Prop :=
  ∀ index < 1024, ∀ table, tableOf machine.memory machine.kernelDirectory index = some table →
    ∀ slot < 1024, isUser (machine.memory.word table slot) = false

/-- Only the kernel's side changed. -/
structure KernelSide (spaces : Nat → Option AddressSpace) (kept : Set Nat)
    (start machine : Machine) : Prop where
  directory : machine.kernelDirectory = start.kernelDirectory
  cr3 : machine.cr3 = start.cr3
  bytes : ∀ physical, Protected spaces kept start physical →
    start.memory.SamePage machine.memory physical
  entries : ∀ index < 1024, isPresent (start.memory.word start.kernelDirectory index) = true →
    machine.memory.word start.kernelDirectory index = start.memory.word start.kernelDirectory index

/-! ## The kernel's tables -/

section Owned

variable (inv : Owned image spaces held machine)

include inv

/-- What is known about a page of the kernel image. -/
theorem Owned.image_page (page : Nat) (aligned : page % 4096 = 0)
    (low : image.boot.kernelStart ≤ page) (high : page + 4096 ≤ image.boot.kernelEnd) :
    FrameUsed machine.pmm page ∧ page ∉ held ∧ ∀ owner, ownersOf spaces machine owner ≠ some page := by
  have reserved := image.image_reserved aligned low high
  have limit := image.identity
  refine ⟨inv.reserved page (by omega) reserved, ?_, ?_⟩
  · intro isHeld
    exact (inv.sound.loose isHeld).2.2 reserved
  · intro owner owns
    exact (inv.permitted owns).2 reserved

/-- A fresh page is not the kernel directory. -/
theorem Owned.fresh_not_kernel {pmm : PmmState} {page : Nat}
    (taken : Takes machine.pmm pmm page) : page ≠ machine.kernelDirectory := by
  rintro rfl
  have used := (inv.image_page image.pageDirectory image.aligned image.low image.high).1
  rw [← inv.kernelDirectory] at used
  exact taken.fresh used

/-- The tables of the kernel directory: the identity tables, and those it owns. -/
theorem Owned.kernel_table_cases (inside : index < 1024)
    (entered : tableOf machine.memory machine.kernelDirectory index = some table) :
    (index < 4 ∧ table = image.identityTables + 4096 * index) ∨
      ownersOf spaces machine (.table none index) = some table := by
  by_cases low : index < 4
  · rw [inv.identity index low] at entered
    exact Or.inl ⟨low, (Option.some.inj entered).symm⟩
  · have inRange : TableRange none index := ⟨by omega, inside⟩
    exact Or.inr ((table_owner rfl inRange).trans entered)

/-- A table of the kernel is a page in use that no process owns and no caller
holds. -/
theorem Owned.kernel_table (inside : index < 1024)
    (entered : tableOf machine.memory machine.kernelDirectory index = some table) :
    FrameUsed machine.pmm table ∧ table ≠ machine.kernelDirectory ∧ table ∉ held ∧
      ∀ owner : Owner, owner.OfProcess → ownersOf spaces machine owner ≠ some table := by
  rcases inv.kernel_table_cases inside entered with ⟨low, rfl⟩ | owns
  · have tablesAligned := image.tablesAligned
    have tablesLow := image.tablesLow
    have tablesHigh := image.tablesHigh
    have apart := image.apart
    have kernel := inv.kernelDirectory
    obtain ⟨used, notHeld, unowned⟩ := inv.image_page (image.identityTables + 4096 * index)
      (by omega) (by omega) (by omega)
    exact ⟨used, by omega, notHeld, fun owner _ => unowned owner⟩
  · obtain ⟨used, -, notHeld⟩ := inv.sound.owned owns
    refine ⟨used, ?_, notHeld, ?_⟩
    · rintro rfl
      exact inv.kernel_unowned _ owns
    · intro owner ofProcess ownerOwns
      obtain rfl := inv.sound.single ownerOwns owns
      exact ofProcess rfl

/-- Different entries of the kernel directory have different tables. -/
theorem Owned.kernel_table_unique {other : Nat} (inside : index < 1024)
    (inside' : other < 1024)
    (entered : tableOf machine.memory machine.kernelDirectory index = some table)
    (entered' : tableOf machine.memory machine.kernelDirectory other = some table) :
    index = other := by
  have notImage : ∀ low < 4, ∀ owner,
      ownersOf spaces machine owner ≠ some (image.identityTables + 4096 * low) := by
    intro low isLow
    have tablesAligned := image.tablesAligned
    have tablesLow := image.tablesLow
    have tablesHigh := image.tablesHigh
    exact (inv.image_page _ (by omega) (by omega) (by omega)).2.2
  rcases inv.kernel_table_cases inside entered with ⟨low, same⟩ | owns
  · rcases inv.kernel_table_cases inside' entered' with ⟨low', same'⟩ | owns'
    · omega
    · exact absurd (same ▸ owns') (notImage index low _)
  · rcases inv.kernel_table_cases inside' entered' with ⟨low', same'⟩ | owns'
    · exact absurd (same' ▸ owns) (notImage other low' _)
    · exact (Owner.table.inj (inv.sound.single owns owns')).2

/-- A protected page is permitted and in use, and is not a table of the kernel. -/
theorem Owned.protected_page (subset : kept ⊆ held) {physical : Nat}
    (guarded : Protected spaces kept machine physical) :
    FrameUsed machine.pmm physical ∧ Permitted image physical ∧
      physical ≠ machine.kernelDirectory ∧
      ∀ index < 1024, tableOf machine.memory machine.kernelDirectory index ≠ some physical := by
  have notKernel : Permitted image physical → physical ≠ machine.kernelDirectory := by
    rintro permitted rfl
    have reserved := image.directory_reserved
    rw [← inv.kernelDirectory] at reserved
    exact permitted.2 reserved
  rcases guarded with isKept | ⟨owner, ofProcess, owns⟩
  · obtain ⟨used, permitted⟩ := inv.sound.loose (subset isKept)
    refine ⟨used, permitted, notKernel permitted, ?_⟩
    intro index inside entered
    exact (inv.kernel_table inside entered).2.2.1 (subset isKept)
  · obtain ⟨used, permitted, -⟩ := inv.sound.owned owns
    refine ⟨used, permitted, notKernel permitted, ?_⟩
    intro index inside entered
    exact (inv.kernel_table inside entered).2.2.2 owner ofProcess owns

end Owned

/-! ## The kernel's side -/

theorem KernelSide.refl (spaces : Nat → Option AddressSpace) (kept : Set Nat) (machine : Machine) :
    KernelSide spaces kept machine machine :=
  ⟨rfl, rfl, fun _ _ => Memory.SamePage.refl _ _, fun _ _ _ => rfl⟩

/-- Only the frame allocator and the counter changed. -/
theorem KernelSide.of_same_memory (machine machine' : Machine) (sameMemory : machine'.memory = machine.memory)
    (sameDirectory : machine'.kernelDirectory = machine.kernelDirectory)
    (sameCr3 : machine'.cr3 = machine.cr3) : KernelSide spaces kept machine machine' := by
  refine ⟨sameDirectory, sameCr3, ?_, ?_⟩
  · intro physical _
    rw [sameMemory]
    exact Memory.SamePage.refl _ _
  · intro index _ _
    rw [sameMemory]

/-- What a process owns is still its own.

Proof: directories and tables of processes are protected, so the words that decide
ownership are the same. -/
theorem KernelSide.owners {start : Machine} (side : KernelSide spaces kept start machine)
    (inv : Owned image spaces held start) {owner : Owner} (ofProcess : owner.OfProcess) :
    ownersOf spaces machine owner = ownersOf spaces start owner := by
  have process : ∀ {space index}, owner.At space index → ∃ object, space = some object := by
    intro space index isAt
    refine Option.ne_none_iff_exists'.mp ?_
    cases owner with
    | directory object => cases isAt
    | table other otherIndex | page other virtualAddr => exact isAt.1 ▸ ofProcess
  rw [ownersOf, side.directory]
  refine owned_frame_congr ?_ ?_
  · intro space index directory isAt inRange isDirectory
    obtain ⟨object, rfl⟩ := process isAt
    refine (side.bytes directory ?_).word inRange.lt
    exact Or.inr ⟨.directory object, trivial, inv.directory_owner isDirectory⟩
  · rintro space virtualAddr table rfl inRange owns
    refine (side.bytes table (Or.inr ⟨_, ?_, owns⟩)).word (table_index_lt virtualAddr)
    exact ofProcess

/-- The kernel's side changes in steps. -/
theorem KernelSide.trans {start middle : Machine} (first : KernelSide spaces kept start middle)
    (second : KernelSide spaces kept middle machine) (inv : Owned image spaces held start) :
    KernelSide spaces kept start machine := by
  refine ⟨second.directory.trans first.directory, second.cr3.trans first.cr3, ?_, ?_⟩
  · intro physical guarded
    refine (first.bytes physical guarded).trans (second.bytes physical ?_)
    rcases guarded with isKept | ⟨owner, ofProcess, owns⟩
    · exact Or.inl isKept
    · exact Or.inr ⟨owner, ofProcess, (first.owners inv ofProcess).trans owns⟩
  · intro index inside present
    have middleEntry := first.entries index inside present
    have sameDirectory := first.directory
    have later := second.entries index inside
    rw [sameDirectory, middleEntry] at later
    exact later present

/-- Opening a table of the kernel. -/
theorem Owned.open_kernel_side (inv : Owned image spaces held machine)
    (subset : kept ⊆ held) {flags : Nat} {pmm : PmmState} (inside : index < 1024)
    (absent : isPresent (machine.memory.word machine.kernelDirectory index) = false)
    (taken : Takes machine.pmm pmm table)
    (bounded : ((table &&& x86PageFrameMask) ||| flags) < 2 ^ 32) :
    KernelSide spaces kept machine (machine.opened pmm machine.kernelDirectory index table flags) := by
  have aligned := taken.allocatable.1
  have kernelAligned := inv.kernel_aligned
  have notKernel := inv.fresh_not_kernel taken
  refine ⟨rfl, rfl, ?_, ?_⟩
  · intro physical guarded
    obtain ⟨used, permitted, notDirectory, -⟩ := inv.protected_page subset guarded
    have notTable : physical ≠ table := by
      rintro rfl
      exact taken.fresh used
    exact (Memory.samePage_clearPage _ permitted.aligned aligned notTable).trans
      (Memory.samePage_setWord _ permitted.aligned kernelAligned inside notDirectory)
  · intro other otherInside present
    have different : other ≠ index := by
      rintro rfl
      rw [absent] at present
      simp at present
    simp only [Machine.opened]
    rw [Memory.word_setWord _ kernelAligned kernelAligned inside otherInside bounded,
      if_neg (fun both => different both.2), Memory.word_clearPage _ aligned kernelAligned otherInside,
      if_neg notKernel.symm]

/-- The page at address zero and the tables of the kernel are pages other than the
directory. -/
theorem Owned.kernel_target (inv : Owned image spaces held machine)
    (isTable : table = 0 ∨ ∃ index < 1024,
      tableOf machine.memory machine.kernelDirectory index = some table) :
    table % 4096 = 0 ∧ machine.kernelDirectory ≠ table := by
  rcases isTable with rfl | ⟨index, inside, entered⟩
  · exact ⟨rfl, inv.structural_ne_zero (Or.inl ⟨none, rfl⟩)⟩
  · exact ⟨table_of_aligned entered, (inv.kernel_table inside entered).2.1.symm⟩

/-- Storing into a table of the kernel, or into the page at address zero. -/
theorem Owned.store_kernel_side (inv : Owned image spaces held machine)
    (subset : kept ⊆ held) {slot entry : Nat} (inside : slot < 1024)
    (isTable : table = 0 ∨ ∃ index < 1024,
      tableOf machine.memory machine.kernelDirectory index = some table) :
    KernelSide spaces kept machine (machine.stored table slot entry) := by
  obtain ⟨aligned, notKernel⟩ := inv.kernel_target isTable
  refine ⟨rfl, rfl, ?_, ?_⟩
  · intro physical guarded
    obtain ⟨-, permitted, -, notTable⟩ := inv.protected_page subset guarded
    refine Memory.samePage_setWord _ permitted.aligned aligned inside ?_
    rintro rfl
    rcases isTable with rfl | ⟨index, low, entered⟩
    · exact Nat.lt_irrefl _ permitted.pos
    · exact notTable index low entered
  · intro index low _
    exact (Memory.samePage_setWord _ inv.kernel_aligned aligned inside notKernel).word low

/-! ## User bits -/

theorem user_bit_zero : isUser 0 = false := by decide

/-- A new table has no entries. -/
theorem Owned.open_kernel_bits (inv : Owned image spaces held machine)
    {flags : Nat} {pmm : PmmState} (inRange : TableRange none index)
    (taken : Takes machine.pmm pmm table) (small : flags < 4096) (odd : flags % 2 = 1)
    (bits : KernelBits machine) :
    KernelBits (machine.opened pmm machine.kernelDirectory index table flags) := by
  have aligned := taken.allocatable.1
  have kernelAligned := inv.kernel_aligned
  obtain ⟨-, frame, bounded⟩ := entry_page_made aligned taken.allocatable.2.2 small odd
  intro other inside found entered slot inSlot
  simp only [Machine.opened] at entered ⊢
  have foundAligned := table_of_aligned entered
  by_cases same : other = index
  · -- The new table is clear.
    subst same
    obtain ⟨-, isFound⟩ := table_of_eq_some.mp entered
    rw [Memory.word_setWord _ kernelAligned kernelAligned inside inside bounded, if_pos ⟨rfl, rfl⟩,
      tableFromPde, frame] at isFound
    subst isFound
    rw [Memory.word_setWord _ kernelAligned aligned inside inSlot bounded,
      if_neg (fun both => inv.fresh_not_kernel taken both.1),
      Memory.word_clearPage _ aligned aligned inSlot, if_pos rfl]
    exact user_bit_zero
  · -- The other tables are those from before.
    have before : tableOf machine.memory machine.kernelDirectory other = some found := by
      rw [← entered]
      refine (table_of_congr ?_).symm
      rw [Memory.word_setWord _ kernelAligned kernelAligned inRange.lt inside bounded,
        if_neg (fun both => same both.2), Memory.word_clearPage _ aligned kernelAligned inside,
        if_neg (inv.fresh_not_kernel taken).symm]
    obtain ⟨used, notKernel, -⟩ := inv.kernel_table inside before
    rw [Memory.word_setWord _ kernelAligned foundAligned inRange.lt inSlot bounded,
      if_neg (fun both => notKernel both.1), Memory.word_clearPage _ aligned foundAligned inSlot, if_neg]
    · exact bits other inside found before slot inSlot
    · rintro rfl
      exact taken.fresh used

/-- An entry without the user bit is stored into a table of the kernel. -/
theorem Owned.store_kernel_bits (inv : Owned image spaces held machine)
    {slot entry : Nat} (inside : slot < 1024) (bounded : entry < 2 ^ 32)
    (isTable : table = 0 ∨ ∃ index < 1024,
      tableOf machine.memory machine.kernelDirectory index = some table)
    (plain : isUser entry = false) (bits : KernelBits machine) :
    KernelBits (machine.stored table slot entry) := by
  obtain ⟨aligned, notKernel⟩ := inv.kernel_target isTable
  intro other otherInside found entered position inPosition
  simp only [Machine.stored] at entered ⊢
  have foundAligned := table_of_aligned entered
  have before : tableOf machine.memory machine.kernelDirectory other = some found := by
    rw [← entered]
    exact (table_of_congr ((Memory.samePage_setWord _ inv.kernel_aligned aligned inside
      notKernel).word otherInside)).symm
  rw [Memory.word_setWord _ aligned foundAligned inside inPosition bounded]
  split
  · exact plain
  · exact bits other otherInside found before position inPosition

end Toyix.Paging
