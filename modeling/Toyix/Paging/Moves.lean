import Toyix.Paging.Ownership

/-!
# Elementary changes of ownership

The code changes ownership in few ways: a page is taken from the frame allocator or
returned to it, a table is opened or closed, a page is entered into a table or
removed from it. Each change has one law, which says that ownership stays sound and
how the owners differ afterwards. A store that meets no directory and no table
changes no owner.
-/

namespace Toyix.Paging

open Library Pmm Function

variable {image : Image} {spaces : Nat → Option AddressSpace} {held : Set Nat} {machine : Machine}
  {pmm : PmmState} {page directory index : Nat} {space : SpaceRef}
  {table physical virtualAddr : Nat}

/-- The machine after a fresh page was cleared and entered into a directory. -/
def Machine.opened (machine : Machine) (pmm : PmmState) (directory index table flags : Nat) : Machine :=
  { machine with
    pmm := pmm
    memory := (machine.memory.clearPage table).setWord directory index
      ((table &&& x86PageFrameMask) ||| flags) }

/-- The machine after one word of a page was stored. -/
def Machine.stored (machine : Machine) (page index entry : Nat) : Machine :=
  { machine with memory := machine.memory.setWord page index entry }

/-! ## Pages of the frame allocator -/

theorem Permitted.aligned (permitted : Permitted image physical) :
    physical % 4096 = 0 := permitted.1.1

theorem Permitted.bounded (permitted : Permitted image physical) :
    physical < 2 ^ 32 := permitted.1.2.2

theorem Permitted.pos (permitted : Permitted image physical) : 0 < physical :=
  Nat.lt_of_lt_of_le (by decide) permitted.1.2.1

section FreshPage

variable (inv : Owned image spaces held machine) (taken : Takes machine.pmm pmm page)

include inv taken

/-- A page the allocator hands out may be handed out. -/
theorem Owned.fresh_permitted : Permitted image page :=
  ⟨taken.allocatable, fun isReserved =>
    taken.fresh (inv.reserved page taken.allocatable.2.2 isReserved)⟩

theorem Owned.fresh_unheld : page ∉ held :=
  fun isHeld => taken.fresh (inv.sound.loose isHeld).1

theorem Owned.fresh_unowned (owner : Owner) : ownersOf spaces machine owner ≠ some page :=
  fun owns => taken.fresh (inv.sound.owned owns).1

end FreshPage

/-- Pages are equal when their frames are. -/
theorem page_eq_of_frame {other : Nat} (aligned : page % 4096 = 0) (aligned' : other % 4096 = 0) :
    page / 4096 = other / 4096 ↔ page = other := by
  omega

/-- A page is taken from the frame allocator. -/
theorem Owned.take (inv : Owned image spaces held machine) (taken : Takes machine.pmm pmm page) :
    Owned image spaces (insert page held) { machine with pmm := pmm } := by
  refine ⟨inv.kernelDirectory, ?_, inv.directories, inv.identity, ?_⟩
  · intro physical bounded isReserved
    exact (taken.used physical).mpr (Or.inr (inv.reserved physical bounded isReserved))
  · refine inv.sound.take taken.fresh (inv.fresh_permitted taken) ?_
    intro other permitted
    rw [taken.used other, page_eq_of_frame permitted.aligned taken.allocatable.1]

/-- A held page is returned to the frame allocator; this does not stop the machine. -/
theorem Owned.give_back (inv : Owned image spaces held machine) (isHeld : page ∈ held) :
    ∃ pmm, pmmFreePage page machine.pmm = .ok pmm ∧
      Owned image spaces (held \ {page}) { machine with pmm := pmm } := by
  have permitted := (inv.sound.loose isHeld).2
  obtain ⟨pmm, freed, used⟩ := pmm_free_page_exact machine.pmm page permitted.1
  refine ⟨pmm, freed, inv.kernelDirectory, ?_, inv.directories, inv.identity, ?_⟩
  · intro physical bounded isReserved
    refine (used physical).mpr ⟨?_, inv.reserved physical bounded isReserved⟩
    -- A page in the frame of a reserved address is reserved.
    intro sameFrame
    refine permitted.2 ?_
    simpa only [ReservedAtBoot, InPages, sameFrame] using isReserved
  · refine inv.sound.giveBack isHeld ?_
    intro other otherPermitted
    rw [used other, Ne, page_eq_of_frame otherPermitted.aligned permitted.aligned]

/-- A held page may be forgotten: it is then lost to everyone. -/
theorem Owned.forget (inv : Owned image spaces held machine) {fewer : Set Nat}
    (subset : fewer ⊆ held) : Owned image spaces fewer machine :=
  ⟨inv.kernelDirectory, inv.reserved, inv.directories, inv.identity, inv.sound.forget subset⟩

/-! ## Stores that meet no table -/

/-- Stores outside directories and tables keep ownership. -/
theorem Owned.write (inv : Owned image spaces held machine) {memory : Memory}
    (same : ∀ page, Structural spaces machine.kernelDirectory machine.memory page →
      ∀ index < 1024, memory.word page index = machine.memory.word page index) :
    Owned image spaces held { machine with memory := memory } ∧
      ownersOf spaces { machine with memory := memory } = ownersOf spaces machine := by
  have sameOwners : ownersOf spaces { machine with memory := memory } = ownersOf spaces machine := by
    refine funext fun owner => owned_frame_congr ?_ ?_
    · intro space index directory _ inRange isDirectory
      exact same directory (Or.inl ⟨space, isDirectory⟩) index inRange.lt
    · intro space virtualAddr table _ _ owns
      exact same table (Or.inr ⟨space, _, owns⟩) _ (table_index_lt virtualAddr)
  refine ⟨⟨inv.kernelDirectory, inv.reserved, inv.directories, ?_, ?_⟩, sameOwners⟩
  · intro index low
    rw [← inv.identity index low]
    exact table_of_congr (same machine.kernelDirectory (Or.inl ⟨none, rfl⟩) index (by omega))
  · rw [sameOwners]
    exact inv.sound

section StructuralPage

variable (inv : Owned image spaces held machine)
  (isStructural : Structural spaces machine.kernelDirectory machine.memory page)

include inv isStructural

/-- A structural page is aligned. It is a page of the kernel image, or it has an
owner other than a user or heap page. -/
theorem Owned.structural_aligned : page % 4096 = 0 := by
  rcases isStructural with ⟨space, isDirectory⟩ | ⟨space, index, owns⟩
  · exact inv.directory_aligned isDirectory
  · exact (inv.permitted owns).aligned

/-- A structural page is not held. -/
theorem Owned.structural_unheld : page ∉ held := by
  rcases isStructural with ⟨space, isDirectory⟩ | ⟨space, index, owns⟩
  · cases space with
    | none =>
      obtain rfl : machine.kernelDirectory = page := Option.some.inj isDirectory
      intro isHeld
      have notReserved := (inv.sound.loose isHeld).2.2
      rw [inv.kernelDirectory] at notReserved
      exact notReserved image.directory_reserved
    | some object => exact (inv.sound.owned (inv.directory_owner isDirectory)).2.2
  · exact (inv.sound.owned owns).2.2

/-- The page at address zero is not structural. -/
theorem Owned.structural_ne_zero : page ≠ 0 := by
  rcases isStructural with ⟨space, isDirectory⟩ | ⟨space, index, owns⟩
  · cases space with
    | none =>
      obtain rfl : machine.kernelDirectory = page := Option.some.inj isDirectory
      rw [inv.kernelDirectory]
      have low := image.low
      have loaded := image.loaded
      omega
    | some object => exact Nat.ne_of_gt (inv.permitted (inv.directory_owner isDirectory)).pos
  · exact Nat.ne_of_gt (inv.permitted owns).pos

end StructuralPage

/-- A store inside one page that is not structural keeps ownership. -/
theorem Owned.write_page (inv : Owned image spaces held machine)
    (memory : Memory) {target : Nat} (aligned : target % 4096 = 0)
    (notStructural : ¬ Structural spaces machine.kernelDirectory machine.memory target)
    (outside : ∀ x, x < target ∨ target + 4096 ≤ x → memory.byte x = machine.memory.byte x) :
    Owned image spaces held { machine with memory := memory } ∧
      ownersOf spaces { machine with memory := memory } = ownersOf spaces machine := by
  refine inv.write ?_
  intro page isStructural index inside
  have pageAligned := inv.structural_aligned isStructural
  have different : page ≠ target := by
    rintro rfl
    exact notStructural isStructural
  refine Memory.word_congr inside ?_
  intro x low high
  exact outside x (by omega)

/-! ## Tables -/

section TableEntry

variable (inv : Owned image spaces held machine) (inRange : TableRange space index)
  (isDirectory : directoryOf spaces machine.kernelDirectory space = some directory)

include inv inRange isDirectory

/-- A word of the kernel directory below the fifth is not changed by a store to a
table range of some directory. -/
theorem identity_kept {entry : Nat} (bounded : entry < 2 ^ 32) (low : Nat)
    (isLow : low < 4) :
    tableOf (machine.memory.setWord directory index entry) machine.kernelDirectory low =
      some (image.identityTables + 4096 * low) := by
  rw [← inv.identity low isLow]
  have notLow : 4 ≤ index := by
    cases space with
    | none => exact inRange.1
    | some object => exact inRange.1
  refine table_of_congr ?_
  rw [Memory.word_setWord _ (inv.directory_aligned isDirectory) inv.kernel_aligned inRange.lt
    (by omega) bounded, if_neg]
  rintro ⟨-, same⟩
  omega

/-- A fresh page becomes the table of an absent directory entry.

Proof: the page is taken, then cleared while it is held, then entered. It is empty,
so no page becomes mapped. -/
theorem Owned.open_table {flags : Nat}
    (absent : isPresent (machine.memory.word directory index) = false)
    (taken : Takes machine.pmm pmm table) (small : flags < 4096) (odd : flags % 2 = 1) :
    Owned image spaces held (machine.opened pmm directory index table flags) ∧
      ownersOf spaces (machine.opened pmm directory index table flags) =
        update (ownersOf spaces machine) (.table space index) (some table) := by
  have permitted := inv.fresh_permitted taken
  have unheld := inv.fresh_unheld taken
  obtain ⟨present, frame, bounded⟩ := entry_page_made permitted.aligned permitted.bounded small odd
  have notDirectory : table ≠ directory := by
    rintro rfl
    have isHeld : table ∈ insert table held := Set.mem_insert _ _
    exact (inv.take taken).structural_unheld (Or.inl ⟨space, isDirectory⟩) isHeld
  have cleared := (inv.take taken).write_page (machine.memory.clearPage table)
    permitted.aligned
    (fun isStructural => (inv.take taken).structural_unheld isStructural (Set.mem_insert _ _))
    (fun x outside => Memory.clearPage_byte machine.memory outside)
  obtain ⟨clearedInv, sameOwners⟩ := cleared
  have sameOwners : ownedFrame spaces machine.kernelDirectory (machine.memory.clearPage table) =
    ownersOf spaces machine := sameOwners
  have stillAbsent : tableOf (machine.memory.clearPage table) directory index = none := by
    refine table_of_eq_none.mpr ?_
    rw [Memory.word_clearPage _ permitted.aligned (inv.directory_aligned isDirectory) inRange.lt,
      if_neg notDirectory.symm]
    exact absent
  have stored := owned_frame_store_table clearedInv _ inRange isDirectory bounded
    (fun old entered => by
      rw [stillAbsent] at entered
      simp at entered)
    (fun _ => by
      rw [tableFromPde, frame]
      refine ⟨notDirectory, ?_⟩
      intro entry inside
      simp only
      rw [Memory.word_clearPage _ permitted.aligned permitted.aligned inside, if_pos rfl]
      rfl)
  have stored : ownersOf spaces (machine.opened pmm directory index table flags) =
      update (ownersOf spaces machine) (.table space index) (some table) := by
    refine stored.trans ?_
    simp only [present, tableFromPde, frame, ↓reduceIte, sameOwners]
  refine ⟨⟨inv.kernelDirectory, clearedInv.reserved, inv.directories, ?_, ?_⟩, stored⟩
  · exact identity_kept clearedInv inRange isDirectory bounded
  · rw [stored]
    have assigned := (inv.take taken).sound.assign (.table space index)
      (Set.mem_insert table held)
    rwa [Set.insert_sdiff_self_of_notMem unheld] at assigned

/-- An empty table is taken out of its directory and held. -/
theorem Owned.close_table (entered : tableOf machine.memory directory index = some table)
    (empty : EmptyTable machine.memory table) :
    Owned image spaces (insert table held) (machine.stored directory index 0) ∧
      ownersOf spaces (machine.stored directory index 0) =
        update (ownersOf spaces machine) (.table space index) none := by
  have notPresent : isPresent 0 = false := by decide
  have stored := owned_frame_store_table inv 0 inRange isDirectory (by decide)
    (fun old isOld => by
      rw [entered] at isOld
      exact Option.some.inj isOld ▸ empty)
    (fun present => by
      rw [notPresent] at present
      simp at present)
  have stored : ownersOf spaces (machine.stored directory index 0) =
      update (ownersOf spaces machine) (.table space index) none := stored
  have owns : ownersOf spaces machine (.table space index) = some table :=
    (table_owner isDirectory inRange).trans entered
  refine ⟨⟨inv.kernelDirectory, inv.reserved, inv.directories, ?_, ?_⟩, stored⟩
  · exact identity_kept inv inRange isDirectory (by decide)
  · rw [stored]
    exact inv.sound.release owns

end TableEntry

/-! ## Pages -/

/-- Storing an entry of an owned table keeps the kernel directory. -/
theorem Owned.table_store_keeps_directory (inv : Owned image spaces held machine) {slot entry : Nat}
    (owns : ownersOf spaces machine (.table space index) = some table) (other : SpaceRef)
    (isDirectory : directoryOf spaces machine.kernelDirectory other = some directory)
    (inSlot : slot < 1024) (bounded : entry < 2 ^ 32) (word : Nat) (inside : word < 1024) :
    (machine.memory.setWord table slot entry).word directory word =
      machine.memory.word directory word := by
  rw [Memory.word_setWord _ (inv.permitted owns).aligned (inv.directory_aligned isDirectory)
    inSlot inside bounded, if_neg]
  rintro ⟨rfl, -⟩
  exact inv.table_not_directory owns isDirectory

/-- Storing an entry of an owned table keeps the identity map. -/
theorem Owned.identity_stored (inv : Owned image spaces held machine) {entry : Nat}
    (owns : ownersOf spaces machine (.table space (directoryIndex virtualAddr)) = some table)
    (bounded : entry < 2 ^ 32) : ∀ index < 4, tableOf
      (machine.stored table (tableIndex virtualAddr) entry).memory machine.kernelDirectory index =
        some (image.identityTables + 4096 * index) := by
  intro index low
  rw [← inv.identity index low]
  exact table_of_congr (inv.table_store_keeps_directory owns none rfl (table_index_lt _) bounded
    index (by omega))

/-- A held page is entered at a virtual address. -/
theorem Owned.enter_page (inv : Owned image spaces held machine)
    {space : SpaceRef} {virtualAddr table physical entry : Nat} (inRange : PageRange space virtualAddr)
    (owns : ownersOf spaces machine (.table space (directoryIndex virtualAddr)) = some table)
    (bounded : entry < 2 ^ 32) (refers : entryPage entry = some physical) (isHeld : physical ∈ held) :
    Owned image spaces (held \ {physical}) (machine.stored table (tableIndex virtualAddr) entry) ∧
      ownersOf spaces (machine.stored table (tableIndex virtualAddr) entry) =
        update (ownersOf spaces machine) (.page space virtualAddr) (some physical) := by
  have stored := owned_frame_store_page inv entry inRange owns bounded
  rw [refers] at stored
  have stored : ownersOf spaces (machine.stored table (tableIndex virtualAddr) entry) =
      update (ownersOf spaces machine) (.page space virtualAddr) (some physical) := stored
  refine ⟨⟨inv.kernelDirectory, inv.reserved, inv.directories, ?_, ?_⟩, stored⟩
  · exact inv.identity_stored owns bounded
  · rw [stored]
    exact inv.sound.assign _ isHeld

/-- A mapped page is removed from its table and held. -/
theorem Owned.remove_page (inv : Owned image spaces held machine)
    (inRange : PageRange space virtualAddr)
    (owns : ownersOf spaces machine (.table space (directoryIndex virtualAddr)) = some table)
    (mapped : ownersOf spaces machine (.page space virtualAddr) = some physical) :
    Owned image spaces (insert physical held) (machine.stored table (tableIndex virtualAddr) 0) ∧
      ownersOf spaces (machine.stored table (tableIndex virtualAddr) 0) =
        update (ownersOf spaces machine) (.page space virtualAddr) none := by
  have stored := owned_frame_store_page inv 0 inRange owns (by decide)
  rw [entry_page_zero] at stored
  have stored : ownersOf spaces (machine.stored table (tableIndex virtualAddr) 0) =
      update (ownersOf spaces machine) (.page space virtualAddr) none := stored
  refine ⟨⟨inv.kernelDirectory, inv.reserved, inv.directories, ?_, ?_⟩, stored⟩
  · exact inv.identity_stored owns (by decide)
  · rw [stored]
    exact inv.sound.release mapped

end Toyix.Paging
