import Toyix.Paging.Teardown

/-!
# Destroying an address space

The three phases of `address_space_destroy` keep the accounts one after another: the
pages are unmapped until the list is empty, the tables are closed, and the record and
the directory are given up. None of them stops the machine in a sound state.
-/

namespace Toyix.Paging

open Library Pmm Function

variable {image : Image} {held : Set Nat} {system : MemorySystem} {object table : Nat}
  {next : MemorySystem} {record : AddressSpace} {index : Nat}

/-- What a phase leaves alone while it works on one space. -/
structure WorksOn (object : Nat) (system next : MemorySystem) : Prop where
  shared : SharedKept system.spaces {object} system.machine next.machine
  others : ∀ other, other ≠ object → next.spaces other = system.spaces other
  kernelSpace : next.kernelSpace = system.kernelSpace
  currentSpace : next.currentSpace = system.currentSpace
  frames : next.frames = system.frames

theorem WorksOn.refl (object : Nat) (system : MemorySystem) : WorksOn object system system :=
  ⟨SharedKept.refl _ _ _, fun _ _ => rfl, rfl, rfl, rfl⟩

/-- Phases compose when the directory of the space stays. -/
theorem WorksOn.trans {middle : MemorySystem} (first : WorksOn object system middle)
    (second : WorksOn object middle next)
    (sameDirectory : (middle.spaces object).map AddressSpace.pageDirectory =
      (system.spaces object).map AddressSpace.pageDirectory) : WorksOn object system next := by
  have sameDirectories : ∀ other, (middle.spaces other).map AddressSpace.pageDirectory =
      (system.spaces other).map AddressSpace.pageDirectory := by
    intro other
    by_cases isObject : other = object
    · exact isObject ▸ sameDirectory
    · rw [first.others other isObject]
  have later : SharedKept system.spaces {object} middle.machine next.machine := by
    refine ⟨⟨second.shared.directory, second.shared.cr3, ?_, second.shared.entries⟩, second.shared.bits, ?_⟩
    · intro other directory isDirectory
      exact second.shared.words other directory ((sameDirectories other).trans isDirectory)
    · refine fun shown => second.shared.steady (shown.imp_right ?_)
      rintro ⟨other, isDirectory, visible⟩
      exact ⟨other, (sameDirectories other).trans isDirectory, visible⟩
  refine ⟨first.shared.trans later, ?_, second.kernelSpace.trans first.kernelSpace,
    second.currentSpace.trans first.currentSpace, second.frames.trans first.frames⟩
  intro other different
  exact (second.others other different).trans (first.others other different)

/-! ## Unmapping all pages -/

theorem UnmapEffect.works_on {virtualAddr physical : Nat} {mapping : Mapping}
    {others : List Mapping}
    (effect : UnmapEffect image held object virtualAddr system next record table physical mapping others)
    (inv : Accounted image held system) : WorksOn object system next := by
  refine ⟨effect.shared_kept inv, ?_, effect.kernelSpace, effect.currentSpace, effect.frames⟩
  intro other different
  rw [effect.spaces, update_of_ne different]

/-- The loop of `address_space_destroy` empties the list.

Proof: by induction on the bound. The first node of the list is mapped, so the call
succeeds, and it takes one node out of the list. -/
theorem unmap_all_run {fuel : Nat} (inv : Accounted image held system)
    (isSpace : system.spaces object = some record) (enough : record.userMappings.length < fuel) :
    ∃ next final, unmapAll (some object) fuel system = .done ⟨⟩ next ∧ Accounted image held next ∧
      WorksOn object system next ∧ BalancedFor object (fun _ => False) held system held next ∧
      next.spaces object = some final ∧ final.userMappings = [] ∧
      final.pageDirectory = record.pageDirectory := by
  induction fuel generalizing system record with
  | zero => omega
  | succ fuel ih =>
    simp only [unmapAll, bind_apply, readSpace_apply isSpace, andThen_done]
    cases listed : record.userMappings with
    | nil =>
      exact ⟨system, record, rfl, inv, WorksOn.refl object system, Balanced.refl _ _ _ _ _, isSpace,
        listed, rfl⟩
    | cons mapping rest =>
      have sound := inv.records object record isSpace
      have mapped := (sound.listed mapping.virtualAddr mapping.physicalAddr).mp
        ⟨mapping, by rw [listed]; exact List.mem_cons_self, rfl, rfl⟩
      rcases address_space_unmap_page_run inv isSpace mapping.virtualAddr with
        ⟨unmapped, -⟩ | ⟨next, table, physical, taken, others, ran, effect⟩
      · rw [unmapped] at mapped
        simp at mapped
      · have works := effect.works_on inv
        have nextSpace : next.spaces object = some { record with
            userMappings := others
            userPageCount := record.userPageCount - 1 } := by
          rw [effect.spaces, update_self]
        have shorter : others.length + 1 = record.userMappings.length := by
          obtain ⟨-, front, back, listEq, othersEq⟩ := take_mapping_split effect.taken
          rw [listEq, othersEq]
          simp only [List.length_append, List.length_cons]
          omega
        obtain ⟨last, final, finished, inv', works', balanced, isFinal, empty, sameDirectory⟩ :=
          ih (effect.accounted inv) nextSpace (by simp only; omega)
        refine ⟨last, final, ?_, inv', works.trans works' ?_, (effect.balanced inv).trans balanced,
          isFinal, empty, sameDirectory⟩
        · simp only [bind_apply, ran, andThen_done, ne_eq, not_true_eq_false, ↓reduceIte]
          exact finished
        · rw [nextSpace, isSpace]
          rfl

/-! ## Closing the tables -/

/-- Another machine under the same records. -/
theorem Accounted.with_machine (inv : Accounted image held system) {machine : Machine}
    {held' touched : Set Nat} (owned : Owned image system.spaces held' machine)
    (kept : DirectoriesKept system.spaces touched system.machine machine)
    (samePages : ∀ object virtualAddr, ownersOf system.spaces machine (.page (some object) virtualAddr) =
      ownersOf system.spaces system.machine (.page (some object) virtualAddr)) :
    Accounted image held' (system.withMachine machine) := by
  refine ⟨inv.heap.with_machine machine, owned, ?_, kept.sound inv.shared, ?_, ?_⟩
  · intro object record isSpace
    exact (inv.records object record isSpace).congr (fun _ _ isUsed _ => isUsed)
      fun virtualAddr => samePages object virtualAddr
  · have same : (system.withMachine machine).machine.kernelDirectory =
      system.machine.kernelDirectory := kept.directory
    rw [same]
    exact inv.kernelSpace
  · have same : (system.withMachine machine).machine.cr3 = system.machine.cr3 := kept.cr3
    rw [same]
    exact inv.current

theorem any_present_false {memory : Memory} {count : Nat}
    (empty : ∀ index < count, isPresent (memory.word table index) = false) :
    anyPresent memory table count = false := by
  induction count with
  | zero => rfl
  | succ count ih =>
    rw [anyPresent, ih (fun index inside => empty index (by omega)), empty count (by omega)]
    rfl

/-- The tables of a space without pages are empty. -/
theorem empty_table_of_no_pages (inv : Accounted image held system)
    (isSpace : system.spaces object = some record) (noPages : record.userMappings = [])
    (inRange : TableRange (some object) index)
    (owns : ownersOf system.spaces system.machine (.table (some object) index) = some table) :
    EmptyTable system.machine.memory table := by
  intro slot inSlot
  -- The page at this position of the table is a user page of the space.
  have low := inRange.1
  have high := inRange.2
  have indexEq : directoryIndex (2 ^ 22 * index + 4096 * slot) = index := by
    rw [directory_index_eq]
    omega
  have slotEq : tableIndex (2 ^ 22 * index + 4096 * slot) = slot := by
    rw [table_index_eq]
    omega
  have pageRange : PageRange (some object) (2 ^ 22 * index + 4096 * slot) :=
    ⟨by omega, by omega, by omega⟩
  have page := owned_page_of_table pageRange (indexEq.symm ▸ owns)
  rw [slotEq] at page
  cases mapped : entryPage (system.machine.memory.word table slot) with
  | none => exact entry_page_eq_none.mp mapped
  | some physical =>
    have listed := ((inv.records object record isSpace).listed _ physical).mpr (page.trans mapped)
    obtain ⟨mapping, member, -⟩ := listed
    rw [noPages] at member
    simp at member

/-- Storing an entry in the user range of a process directory. -/
theorem Owned.directory_store_kept {spaces : Nat → Option AddressSpace} {machine : Machine}
    (owned : Owned image spaces held machine) {directory : Nat} (entry : Nat)
    (inRange : TableRange (some object) index)
    (isDirectory : directoryOf spaces machine.kernelDirectory (some object) = some directory)
    (bounded : entry < 2 ^ 32) :
    SharedKept spaces {object} machine (machine.stored directory index entry) := by
  have aligned := owned.directory_aligned isDirectory
  have otherPage : ∀ page, page % 4096 = 0 → page ≠ directory → ∀ word < 1024,
      (machine.stored directory index entry).memory.word page word = machine.memory.word page word := by
    intro page pageAligned different word inside
    exact (Memory.samePage_setWord _ pageAligned aligned inRange.lt different).word inside
  have notKernel : machine.kernelDirectory ≠ directory := by
    rintro rfl
    have same : some object = none := owned.directory_unique isDirectory rfl
    simp at same
  have kernelSame := otherPage machine.kernelDirectory owned.kernel_aligned notKernel
  refine ⟨⟨rfl, rfl, ?_, fun word inside _ => kernelSame word inside⟩, ?_, fun _ _ => kernelSame⟩
  · intro other otherDirectory isOther word inside untouched
    have isOther : directoryOf spaces machine.kernelDirectory (some other) = some otherDirectory := isOther
    by_cases same : otherDirectory = directory
    · subst same
      have isShared := untouched (Option.some.inj (owned.directory_unique isOther isDirectory))
      simp only [Machine.stored]
      rw [Memory.word_setWord _ aligned aligned inRange.lt inside bounded, if_neg]
      rintro ⟨-, rfl⟩
      have low := inRange.1
      have high := inRange.2
      simp only [SharedIndex] at isShared
      omega
    · exact otherPage otherDirectory (owned.directory_aligned isOther) same word inside
  · intro bits
    refine bits.of_same rfl kernelSame ?_
    intro other inside found entered slot inSlot
    refine otherPage found (table_of_aligned entered) ?_ slot inSlot
    rintro rfl
    exact (owned.kernel_table inside entered).2.2.2 (.directory object) trivial
      (owned.directory_owner isDirectory)

/-- Closing one table of a space without pages. -/
theorem close_table_run (inv : Accounted image held system)
    (isSpace : system.spaces object = some record) (noPages : record.userMappings = [])
    (inRange : TableRange (some object) index)
    (entered : tableOf system.machine.memory record.pageDirectory index = some table) :
    ∃ pmm, freePage table (system.withMachine (system.machine.stored record.pageDirectory index 0)) =
        .done ⟨⟩ (system.withMachine
          { system.machine.stored record.pageDirectory index 0 with pmm := pmm }) ∧
      Accounted image held (system.withMachine
        { system.machine.stored record.pageDirectory index 0 with pmm := pmm }) ∧
      SharedKept system.spaces {object} system.machine
        { system.machine.stored record.pageDirectory index 0 with pmm := pmm } ∧
      BalancedFor object (fun _ => False) held system held (system.withMachine
        { system.machine.stored record.pageDirectory index 0 with pmm := pmm }) := by
  have isDirectory := directory_of_space system.machine.kernelDirectory isSpace
  have owns : ownersOf system.spaces system.machine (.table (some object) index) = some table :=
    (table_owner isDirectory inRange).trans entered
  obtain ⟨-, -, notHeld⟩ := inv.owned.sound.owned owns
  obtain ⟨closed, owners⟩ := inv.owned.close_table inRange isDirectory entered
    (empty_table_of_no_pages inv isSpace noPages inRange owns)
  obtain ⟨pmm, returned, freed, owned⟩ := free_page_run
    (system.withMachine (system.machine.stored record.pageDirectory index 0)) closed
    (Set.mem_insert table held)
  have returned : pmmFreePage table system.machine.pmm = .ok pmm := returned
  rw [Set.insert_sdiff_self_of_notMem notHeld] at owned
  have kept := (inv.owned.directory_store_kept 0 inRange isDirectory (by decide)).with_pmm pmm
  have balanced : BalancedFor object (fun _ => False) held system held (system.withMachine
      { system.machine.stored record.pageDirectory index 0 with pmm := pmm }) :=
    (Balanced.refl (Owner.BelongsTo object) _ _ _ _).release_free inv.owned owns (Or.inl rfl)
      (show (system.machine.stored record.pageDirectory index 0).pmm = _ from rfl) owners returned
  refine ⟨pmm, freed, inv.with_machine owned kept.toDirectoriesKept ?_, kept, balanced⟩
  intro other virtualAddr
  have unchanged : ownersOf system.spaces (system.machine.stored record.pageDirectory index 0)
      (.page (some other) virtualAddr) =
      ownersOf system.spaces system.machine (.page (some other) virtualAddr) := by
    rw [owners, update_of_ne Owner.noConfusion]
  exact unchanged

/-- The loop over the directory closes every table in its range.

Proof: by induction on the number of entries left. Entries before the current one
have no table, and closing a table changes no other entry. -/
theorem free_user_page_tables_run (noPages : record.userMappings = [])
    (remaining dir : Nat) (low : 4 ≤ dir) (high : dir + remaining = 768)
    (inv : Accounted image held system) (isSpace : system.spaces object = some record)
    (cleared : ∀ index, 4 ≤ index → index < dir →
      tableOf system.machine.memory record.pageDirectory index = none) :
    ∃ machine, freeUserPageTablesFrom record.pageDirectory remaining dir system =
        .done ⟨⟩ (system.withMachine machine) ∧
      Accounted image held (system.withMachine machine) ∧
      SharedKept system.spaces {object} system.machine machine ∧
      BalancedFor object (fun _ => False) held system held (system.withMachine machine) ∧
      NoUserTables machine.memory record.pageDirectory := by
  induction remaining generalizing system dir with
  | zero =>
    refine ⟨system.machine, rfl, inv, SharedKept.refl _ _ _, Balanced.refl _ _ _ _ _, ?_⟩
    intro index from4 below
    exact cleared index from4 (by omega)
  | succ remaining ih =>
    have inRange : TableRange (some object) dir := ⟨low, by omega⟩
    simp only [freeUserPageTablesFrom, bind_apply, machineNow_apply, andThen_done, ite_run]
    cases entered : tableOf system.machine.memory record.pageDirectory dir with
    | none =>
      simp only [table_of_eq_none.mp entered, ↓reduceIte]
      refine ih (dir + 1) (by omega) (by omega) inv isSpace ?_
      intro index from4 below
      by_cases same : index = dir
      · exact same ▸ entered
      · exact cleared index from4 (by omega)
    | some table =>
      obtain ⟨present, isTable⟩ := table_of_eq_some.mp entered
      have isDirectory := directory_of_space system.machine.kernelDirectory isSpace
      have owns : ownersOf system.spaces system.machine (.table (some object) dir) = some table :=
        (table_owner isDirectory inRange).trans entered
      have notPresent : anyPresent system.machine.memory table pageTableEntries = false :=
        any_present_false (empty_table_of_no_pages inv isSpace noPages inRange owns)
      obtain ⟨pmm, freed, inv', kept, balanced⟩ := close_table_run inv isSpace noPages inRange entered
      have clearedNow : ∀ index, 4 ≤ index → index < dir + 1 →
          tableOf (system.machine.stored record.pageDirectory dir 0).memory record.pageDirectory index =
            none := by
        intro index from4 below
        have aligned := inv.owned.directory_aligned isDirectory
        refine table_of_eq_none.mpr ?_
        simp only [Machine.stored]
        rw [Memory.word_setWord _ aligned aligned inRange.lt (by omega) (by decide)]
        by_cases same : index = dir
        · rw [if_pos ⟨rfl, same⟩]
          rfl
        · rw [if_neg (fun both => same both.2)]
          exact table_of_eq_none.mp (cleared index from4 (by omega))
      obtain ⟨machine, finished, inv'', kept', balanced', noTables⟩ := ih (dir + 1) (by omega) (by omega)
        inv' isSpace clearedNow
      refine ⟨machine, ?_, inv'', kept.trans kept', balanced.trans balanced', noTables⟩
      simp only [present, Bool.true_eq_false, ↓reduceIte, isTable, notPresent, Bool.false_eq_true,
        setMachine_apply, andThen_done]
      exact (bind_done freed).trans finished

/-! ## Giving up the record -/

/-- What remains when a record, its directory and its heap block are given up. -/
structure DropEffect (image : Image) (held : Set Nat) (object : Nat) (system next : MemorySystem) :
    Prop where
  owned : Owned image next.spaces held next.machine
  account : HeapAccount next
  spaces : next.spaces = update system.spaces object none
  machine : ∃ directory pmm, ownersOf system.spaces system.machine (.directory object) = some directory ∧
    pmmFreePage directory system.machine.pmm = .ok pmm ∧
    next.machine = { system.machine with pmm := pmm }
  blockUse : next.blockUse = update system.blockUse object none
  kernelSpace : next.kernelSpace = system.kernelSpace
  currentSpace : next.currentSpace = system.currentSpace
  frames : next.frames = system.frames

section Dropping

variable (inv : Accounted image held system) (isSpace : system.spaces object = some record)
  (noTables : NoUserTables system.machine.memory record.pageDirectory)

include inv isSpace noTables

/-- The last part of `address_space_destroy`. -/
theorem drop_space_run :
    ∃ next, (do
        Program.update fun system => { system with
          spaces := update system.spaces object none }
        freePage record.pageDirectoryPhysical
        kfreeBlock object : MemoryProgram PUnit) system = .done ⟨⟩ next ∧
      DropEffect image held object system next := by
  have sound := inv.records object record isSpace
  have owns := inv.owned.directory_owner (directory_of_space system.machine.kernelDirectory isSpace)
  rw [inv.owned.directories object record isSpace] at owns
  obtain ⟨-, -, notHeld⟩ := inv.owned.sound.owned owns
  have owners := owners_remove_space isSpace noTables
  have released : Owned image (update system.spaces object none)
      (insert record.pageDirectoryPhysical held) system.machine := by
    refine ⟨inv.owned.kernelDirectory, inv.owned.reserved, ?_, inv.owned.identity, ?_⟩
    · intro other otherRecord isOther
      by_cases same : other = object
      · subst same
        simp at isOther
      · rw [update_of_ne same] at isOther
        exact inv.owned.directories other otherRecord isOther
    · rw [owners]
      exact inv.owned.sound.release owns
  obtain ⟨pmm, returned, freed, owned⟩ := free_page_run
    { system with spaces := update system.spaces object none } released
    (Set.mem_insert record.pageDirectoryPhysical held)
  rw [Set.insert_sdiff_self_of_notMem notHeld] at owned
  have account := (inv.heap.with_spaces (update system.spaces object none)).with_machine
    { system.machine with pmm := pmm }
  obtain ⟨client, freedBlock, samePages, account'⟩ := kfree_block_run account sound.block
  refine ⟨_, (bind_done rfl).trans ((bind_done freed).trans freedBlock), ?_, account',
    rfl, ⟨_, pmm, owns, returned, samePages⟩, rfl, rfl, rfl, rfl⟩
  have samePages : client.system.pages = { system.machine with pmm := pmm } := samePages
  exact samePages ▸ owned

/-- Giving up the record keeps the accounts of the other spaces. -/
theorem DropEffect.accounted (effect : DropEffect image held object system next)
    (notCurrent : system.currentSpace ≠ some object) : Accounted image held next := by
  obtain ⟨-, pmm, -, -, machine⟩ := effect.machine
  have sound := inv.records object record isSpace
  have before : ∀ other otherRecord, next.spaces other = some otherRecord →
      other ≠ object ∧ system.spaces other = some otherRecord := by
    intro other otherRecord isOther
    rw [effect.spaces] at isOther
    by_cases same : other = object
    · subst same
      simp at isOther
    · rw [update_of_ne same] at isOther
      exact ⟨same, isOther⟩
  have samePages : ∀ other virtualAddr,
      ownersOf next.spaces next.machine (.page (some other) virtualAddr) =
        ownersOf system.spaces system.machine (.page (some other) virtualAddr) := by
    intro other virtualAddr
    have unchanged := congrFun (owners_remove_space isSpace noTables) (.page (some other) virtualAddr)
    rw [update_of_ne Owner.noConfusion] at unchanged
    rw [effect.spaces, machine]
    exact unchanged
  refine ⟨effect.account, effect.owned, ?_, ?_, ?_, ?_⟩
  · intro other otherRecord isOther
    obtain ⟨different, isOther⟩ := before other otherRecord isOther
    have otherSound := inv.records other otherRecord isOther
    refine ⟨?_, ?_, otherSound.distinct, otherSound.once, ?_, otherSound.count⟩
    · rw [effect.blockUse, update_of_ne different]
      exact otherSound.block
    · intro mapping member
      have isNode := otherSound.nodes mapping member
      rw [effect.blockUse, update_of_ne]
      · exact isNode
      · intro isObject
        rw [isObject, sound.block] at isNode
        simp at isNode
    · intro virtualAddr physicalAddr
      rw [samePages other virtualAddr]
      exact otherSound.listed virtualAddr physicalAddr
  · intro other otherRecord isOther
    rw [machine]
    exact inv.shared other otherRecord (before other otherRecord isOther).2
  · rw [effect.kernelSpace, machine]
    exact inv.kernelSpace
  · rw [effect.currentSpace, machine]
    refine Eq.trans ?_ inv.current
    cases isCurrent : system.currentSpace with
    | none => simp only [MemorySystem.lookup, effect.kernelSpace]
    | some other =>
      have different : other ≠ object := by
        rintro rfl
        exact notCurrent isCurrent
      simp only [MemorySystem.lookup, effect.spaces, update_of_ne different]

/-- Giving up the record returns the directory to the frame allocator. -/
theorem DropEffect.balanced (effect : DropEffect image held object system next) :
    BalancedFor object (fun _ => False) held system held next := by
  obtain ⟨directory, pmm, owns, freed, machine⟩ := effect.machine
  show Balanced _ _ _ _ _ _ _ next.machine
  rw [machine, effect.spaces]
  exact (Balanced.refl (Owner.BelongsTo object) _ _ _ _).release_free inv.owned owns (Or.inl rfl) rfl
    (owners_remove_space isSpace noTables) freed

end Dropping

/-! ## The whole function -/

/-- What the destruction of a space leaves alone. -/
structure Destroyed (object : Nat) (system next : MemorySystem) : Prop where
  gone : next.spaces object = none
  others : ∀ other, other ≠ object → next.spaces other = system.spaces other
  shared : SharedKept system.spaces {object} { system.machine with cr3 := next.machine.cr3 } next.machine
  kernelSpace : next.kernelSpace = system.kernelSpace
  currentSpace : next.currentSpace =
    if system.currentSpace = some object then none else system.currentSpace
  frames : next.frames = system.frames

/-- `address_space_destroy` returns and keeps the accounts. -/
theorem address_space_destroy_run (inv : Accounted image held system)
    (isSpace : system.spaces object = some record) :
    ∃ next, addressSpaceDestroy (some object) system = .done ⟨⟩ next ∧ Accounted image held next ∧
      Destroyed object system next ∧ BalancedFor object (fun _ => False) held system held next := by
  have firstDir : directoryIndex addressSpaceUserBase = 4 := by decide
  have lastDir : directoryIndex (addressSpaceUserTop - 1) = 767 := by decide
  -- The directory is left first if it is the current one.
  obtain ⟨away, left, awayInv, awaySpaces, awayCurrent, awayMachine, awayKernel, awayFrames⟩ :
      ∃ away, (if system.currentSpace = some object then addressSpaceSwitch none else pure ⟨⟩ :
          MemoryProgram PUnit) system = .done ⟨⟩ away ∧ Accounted image held away ∧
        away.spaces = system.spaces ∧
        away.currentSpace = (if system.currentSpace = some object then none else system.currentSpace) ∧
        (∃ cr3, away.machine = { system.machine with cr3 := cr3 }) ∧
        away.kernelSpace = system.kernelSpace ∧ away.frames = system.frames := by
    by_cases isCurrent : system.currentSpace = some object
    · have switched := address_space_switch_run inv (show system.lookup none = some system.kernelSpace from rfl)
      simp only [isCurrent, ↓reduceIte]
      exact ⟨_, switched, switched_accounted inv rfl, rfl, rfl, ⟨_, rfl⟩, rfl, rfl⟩
    · simp only [isCurrent, ↓reduceIte]
      exact ⟨system, rfl, inv, rfl, rfl, ⟨_, rfl⟩, rfl, rfl⟩
  have awaySpace : away.spaces object = some record := by rw [awaySpaces]; exact isSpace
  obtain ⟨bare, final, unmapped, bareInv, bareWorks, bareBalanced, isFinal, noPages, sameDirectory⟩ :=
    unmap_all_run awayInv awaySpace (Nat.lt_succ_self _)
  obtain ⟨machine, freed, closedInv, closedKept, closedBalanced, noTables⟩ :=
    free_user_page_tables_run noPages 764 4 (by decide) (by decide) bareInv isFinal (fun index low below => by omega)
  obtain ⟨next, dropped, effect⟩ := drop_space_run closedInv isFinal noTables
  have samePhysical : final.pageDirectoryPhysical = record.pageDirectoryPhysical := by
    rw [← bareInv.owned.directories object final isFinal, sameDirectory,
      inv.owned.directories object record isSpace]
  rw [sameDirectory] at freed
  rw [samePhysical] at dropped
  have freedAll : freeUserPageTables record.pageDirectory bare =
      .done ⟨⟩ (bare.withMachine machine) := by
    simp only [freeUserPageTables, firstDir, lastDir]
    exact freed
  have rest : (do
      unmapAll (some object) (record.userMappings.length + 1)
      freeUserPageTables record.pageDirectory
      Program.update fun system => { system with
        spaces := update system.spaces object none }
      freePage record.pageDirectoryPhysical
      kfreeBlock object : MemoryProgram PUnit) away = .done ⟨⟩ next := by
    refine (bind_done unmapped).trans ?_
    exact (bind_done freedAll).trans dropped
  obtain ⟨cr3, awayMachine⟩ := awayMachine
  obtain ⟨-, pmm, -, -, nextMachine⟩ := effect.machine
  have nextMachine : next.machine = { machine with pmm := pmm } := nextMachine
  have worksCr3 : next.machine.cr3 = cr3 := by
    rw [nextMachine]
    exact closedKept.cr3.trans (bareWorks.shared.cr3.trans (by rw [awayMachine]))
  have leftBalanced : BalancedFor object (fun _ => False) held system held away := by
    show Balanced _ _ _ _ _ away.spaces _ away.machine
    rw [awaySpaces, awayMachine]
    exact (Balanced.refl _ _ _ _ _).same rfl rfl
  have balanced : BalancedFor object (fun _ => False) held system held next :=
    ((leftBalanced.trans bareBalanced).trans closedBalanced).trans
      (effect.balanced closedInv isFinal noTables)
  refine ⟨next, ?_, ?_, ⟨?_, ?_, ?_, ?_, ?_, ?_⟩, balanced⟩
  · simp only [addressSpaceDestroy, bind_apply, validate_space_run inv.owned isSpace,
      andThen_done, current_apply]
    by_cases isCurrent : system.currentSpace = some object
    · simp only [isCurrent, ↓reduceIte] at left ⊢
      exact (bind_done left).trans rest
    · simp only [isCurrent, ↓reduceIte] at left ⊢
      obtain rfl : system = away := (Outcome.done.inj left).2
      exact rest
  · refine effect.accounted closedInv isFinal noTables ?_
    have same : bare.currentSpace = _ := bareWorks.currentSpace.trans awayCurrent
    intro isCurrent
    have isCurrent : bare.currentSpace = some object := isCurrent
    rw [same] at isCurrent
    split at isCurrent
    · simp at isCurrent
    · rename_i different
      exact different isCurrent
  · rw [effect.spaces, update_self]
  · intro other different
    rw [effect.spaces, update_of_ne different, ← awaySpaces]
    exact bareWorks.others other different
  · have closedWorks : WorksOn object bare (bare.withMachine machine) :=
      ⟨closedKept, fun _ _ => rfl, rfl, rfl, rfl⟩
    have sameMap : (bare.spaces object).map AddressSpace.pageDirectory =
        (away.spaces object).map AddressSpace.pageDirectory := by
      rw [isFinal, awaySpace, Option.map_some, Option.map_some, sameDirectory]
    have whole := (bareWorks.trans closedWorks sameMap).shared.with_pmm pmm
    rw [awaySpaces, awayMachine] at whole
    rw [worksCr3, nextMachine]
    exact whole
  · exact effect.kernelSpace.trans (bareWorks.kernelSpace.trans awayKernel)
  · exact effect.currentSpace.trans (bareWorks.currentSpace.trans awayCurrent)
  · exact effect.frames.trans (bareWorks.frames.trans awayFrames)

end Toyix.Paging
