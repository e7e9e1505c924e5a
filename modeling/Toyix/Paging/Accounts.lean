import Toyix.Paging.Growth

/-!
# The accounts of the memory system

The records of address spaces and their mapping nodes live in heap blocks. Each block
in use is recorded with its purpose, so that a block returned by `kmalloc` is never
one that a record or a node still uses.

The laws here are for the parts from which the functions of `address_space.c` are
built: allocating and freeing a block, freeing a page, and changing the record of
an address space.
-/

namespace Toyix.Paging

open Library Pmm Function

variable {image : Image} {held : Set Nat} {system : MemorySystem} {object : Nat}
  {record : AddressSpace}

/-! ## Running the parts -/

@[simp] theorem with_machine_machine (system : MemorySystem) (machine : Machine) :
    (system.withMachine machine).machine = machine := rfl

@[simp] theorem with_machine_spaces (system : MemorySystem) (machine : Machine) :
    (system.withMachine machine).spaces = system.spaces := rfl

@[simp] theorem with_machine_frames (system : MemorySystem) (machine : Machine) :
    (system.withMachine machine).frames = system.frames := rfl

@[simp] theorem with_machine_twice (system : MemorySystem) (machine machine' : Machine) :
    (system.withMachine machine).withMachine machine' = system.withMachine machine' := rfl

@[simp] theorem setMachine_apply (change : Machine → Machine) (system : MemorySystem) :
    setMachine change system = .done ⟨⟩ (system.withMachine (change system.machine)) := rfl

@[simp] theorem machineNow_apply (system : MemorySystem) :
    machineNow system = .done system.machine system := rfl

@[simp] theorem callMachine_apply {α : Type} (operation : Machine → α × Machine)
    (system : MemorySystem) :
    callMachine operation system =
      .done (operation system.machine).1 (system.withMachine (operation system.machine).2) := rfl

@[simp] theorem setSpace_apply (object : Nat) (change : AddressSpace → AddressSpace)
    (system : MemorySystem) :
    setSpace (some object) change system = .done ⟨⟩ { system with
      spaces := update system.spaces object ((system.spaces object).map change) } := rfl

theorem readSpace_apply (isSpace : system.spaces object = some record) :
    readSpace (some object) system = .done record system := by
  simp [readSpace, MemorySystem.lookup, isSpace]

/-- A held page is freed without stopping the machine. -/
theorem free_page_run (system : MemorySystem) {spaces : Nat → Option AddressSpace} {physical : Nat}
    (owned : Owned image spaces held system.machine) (isHeld : physical ∈ held) :
    ∃ pmm, pmmFreePage physical system.machine.pmm = .ok pmm ∧
      freePage physical system = .done ⟨⟩ (system.withMachine { system.machine with pmm := pmm }) ∧
      Owned image spaces (held \ {physical}) { system.machine with pmm := pmm } := by
  obtain ⟨pmm, freed, owned'⟩ := owned.give_back isHeld
  refine ⟨pmm, freed, ?_, owned'⟩
  simp [freePage, freed]

/-! ## Heap blocks -/

/-- The heap is consistent, and every block with a recorded purpose is live. -/
structure HeapAccount (system : MemorySystem) : Prop where
  client : ∃ blocks, Heap.ClientInvariant system.client blocks
  live : ∀ ptr use, system.blockUse ptr = some use →
    ∃ allocation ∈ system.client.live, allocation.ptr = ptr

/-- The machine below the heap does not matter to the heap. -/
theorem HeapAccount.with_machine (account : HeapAccount system) (machine : Machine) :
    HeapAccount (system.withMachine machine) := by
  obtain ⟨blocks, inv⟩ := account.client
  exact ⟨⟨blocks, inv.consistent, inv.mapped, inv.accounts⟩, account.live⟩

/-- The records of address spaces do not matter to the heap. -/
theorem HeapAccount.with_spaces (account : HeapAccount system)
    (spaces : Nat → Option AddressSpace) : HeapAccount { system with spaces := spaces } :=
  ⟨account.client, account.live⟩

/-- What an allocation of a block changes. -/
structure BlockTaken (image : Image) (held : Set Nat) (use : BlockUse) (size ptr : Nat)
    (system next : MemorySystem) : Prop where
  notNull : ptr ≠ 0
  fresh : system.blockUse ptr = none
  account : HeapAccount next
  beneath : Beneath image system.spaces held system.machine held next.machine
  draws : Draws (2 * ((size + 4126) / 4096)) system.machine next.machine
  changed : ∃ client, next = { system with
    client := client
    blockUse := update system.blockUse ptr (some use) }

/-- Allocating a block, with growth of the heap if it needs it. -/
theorem kmalloc_for_sat (account : HeapAccount system)
    (owned : Owned image system.spaces held system.machine) (use : BlockUse) {size : Nat}
    (positive : 0 < size) :
    (kmallocFor use size system).Sat fun ptr next => BlockTaken image held use size ptr system next := by
  obtain ⟨blocks, inv⟩ := account.client
  have law : (Heap.kmalloc kernelPages size system.client.system).Sat _ :=
    Heap.kmalloc_sat (fun count few => Heap.RegionGives.and (region_gives_beneath owned count)
      (region_gives_draws few)) inv.consistent ⟨Beneath.refl owned, fun _ => Nat.le_add_right _ _⟩
  have notZero : size ≠ 0 := by omega
  simp only [notZero, ↓reduceIte] at law
  simp only [kmallocFor, bind_apply, callHeap]
  cases ran : Heap.kmalloc kernelPages size system.client.system with
  | diverged =>
    rw [ran] at law
    exact law
  | panicked message next => trivial
  | done ptr next =>
    obtain ⟨⟨beneath, draws⟩, notNull, blocks', allocated⟩ := law.of_done ran
    have inv' := inv.allocated positive notNull allocated
    have recorded : Heap.recordLive ptr size system.client.live = ⟨ptr, size⟩ :: system.client.live := by
      simp [Heap.recordLive, notNull]
    have fresh : system.blockUse ptr = none := by
      cases used : system.blockUse ptr with
      | none => rfl
      | some other =>
        obtain ⟨allocation, isLive, same⟩ := account.live ptr other used
        have distinct := inv'.accounts.distinct
        rw [recorded, List.map_cons, List.nodup_cons] at distinct
        exact absurd (List.mem_map.mpr ⟨allocation, isLive, same⟩) distinct.1
    simp only [andThen_done, notNull, ↓reduceIte]
    refine ⟨notNull, fresh, ⟨⟨blocks', inv'⟩, ?_⟩, beneath, draws, _, rfl⟩
    intro other use' isUsed
    simp only [recorded]
    by_cases same : other = ptr
    · exact ⟨⟨ptr, size⟩, List.mem_cons_self, same.symm⟩
    · simp only [update_of_ne same] at isUsed
      obtain ⟨allocation, isLive, isPtr⟩ := account.live other use' isUsed
      exact ⟨allocation, List.mem_cons_of_mem _ isLive, isPtr⟩

/-- Freeing a block with a recorded purpose. -/
theorem kfree_block_run (account : HeapAccount system) {ptr : Nat} {use : BlockUse}
    (isUsed : system.blockUse ptr = some use) :
    ∃ client, kfreeBlock ptr system = .done ⟨⟩ { system with
        client := client
        blockUse := update system.blockUse ptr none } ∧
      client.system.pages = system.machine ∧
      HeapAccount { system with
        client := client
        blockUse := update system.blockUse ptr none } := by
  obtain ⟨blocks, inv⟩ := account.client
  obtain ⟨allocation, isLive, rfl⟩ := account.live ptr use isUsed
  obtain ⟨next, blocks', freed, samePages, inv', -⟩ := Heap.kfree_step inv isLive
  refine ⟨_, ?_, samePages, ⟨blocks', inv'⟩, ?_⟩
  · simp only [kfreeBlock, bind_apply, callHeap, freed, andThen_done, Program.update_apply]
  · intro other use' isOther
    by_cases same : other = allocation.ptr
    · simp [same] at isOther
    · simp only [update_of_ne same] at isOther
      obtain ⟨kept, keptLive, isPtr⟩ := account.live other use' isOther
      refine ⟨kept, List.mem_filter.mpr ⟨keptLive, ?_⟩, isPtr⟩
      simpa [isPtr] using same

/-! ## Records of address spaces -/

section Spaces

variable {spaces : Nat → Option AddressSpace} {machine : Machine}

/-- Owners depend on the directories of the spaces only. -/
theorem owners_spaces_congr {spaces' : Nat → Option AddressSpace}
    (same : ∀ object, (spaces' object).map AddressSpace.pageDirectory =
      (spaces object).map AddressSpace.pageDirectory)
    (samePhysical : ∀ object, (spaces' object).map AddressSpace.pageDirectoryPhysical =
      (spaces object).map AddressSpace.pageDirectoryPhysical) :
    ownersOf spaces' machine = ownersOf spaces machine := by
  have sameDirectory : directoryOf spaces' machine.kernelDirectory =
      directoryOf spaces machine.kernelDirectory := by
    funext space
    cases space with
    | none => rfl
    | some object => exact same object
  funext owner
  cases owner with
  | directory object => exact samePhysical object
  | table space index => simp only [ownersOf, ownedFrame, sameDirectory]
  | page space virtualAddr => simp only [ownersOf, ownedFrame, sameDirectory]

/-- A field of the records that an update leaves alone. -/
theorem map_update_record {α : Type} (field : AddressSpace → α) {changed : AddressSpace}
    (isSpace : spaces object = some record) (same : field changed = field record) (other : Nat) :
    (update spaces object (some changed) other).map field = (spaces other).map field := by
  by_cases isObject : other = object
  · subst isObject
    rw [update_self, isSpace, Option.map_some, Option.map_some, same]
  · rw [update_of_ne isObject]

/-- Changing the list or the count of a space keeps ownership. -/
theorem Owned.change_record (owned : Owned image spaces held machine) {changed : AddressSpace}
    (isSpace : spaces object = some record) (same : changed.pageDirectory = record.pageDirectory)
    (samePhysical : changed.pageDirectoryPhysical = record.pageDirectoryPhysical) :
    Owned image (update spaces object (some changed)) held machine ∧
      ownersOf (update spaces object (some changed)) machine = ownersOf spaces machine := by
  have sameOwners : ownersOf (update spaces object (some changed)) machine =
      ownersOf spaces machine := by
    apply owners_spaces_congr
    · exact map_update_record _ isSpace same
    · exact map_update_record _ isSpace samePhysical
  refine ⟨⟨owned.kernelDirectory, owned.reserved, ?_, owned.identity, ?_⟩, sameOwners⟩
  · intro other otherRecord isOther
    by_cases isObject : other = object
    · subst isObject
      obtain rfl : changed = otherRecord := by simpa using isOther
      rw [same, samePhysical]
      exact owned.directories other record isSpace
    · rw [update_of_ne isObject] at isOther
      exact owned.directories other otherRecord isOther
  · rw [sameOwners]
    exact owned.sound

/-- No table is entered for the user range of a directory. -/
def NoUserTables (memory : Memory) (directory : Nat) : Prop :=
  ∀ index, 4 ≤ index → index < 768 → tableOf memory directory index = none

/-- A record for a directory without tables adds the owner of the directory. -/
theorem owners_add_space (absent : spaces object = none)
    (noTables : NoUserTables machine.memory record.pageDirectory) :
    ownersOf (update spaces object (some record)) machine =
      update (ownersOf spaces machine) (.directory object)
        (some record.pageDirectoryPhysical) := by
  have sameElsewhere : ∀ space : SpaceRef, space ≠ some object →
      directoryOf (update spaces object (some record)) machine.kernelDirectory space =
        directoryOf spaces machine.kernelDirectory space := by
    intro space different
    cases space with
    | none => rfl
    | some other =>
      have notObject : other ≠ object := fun same => different (congrArg some same)
      simp only [directoryOf, update_of_ne notObject]
  have before : directoryOf spaces machine.kernelDirectory (some object) = none := by
    simp only [directoryOf, absent, Option.map_none]
  have now : directoryOf (update spaces object (some record)) machine.kernelDirectory
      (some object) = some record.pageDirectory := by
    simp only [directoryOf, update_self, Option.map_some]
  funext owner
  cases owner with
  | directory other =>
    by_cases same : other = object
    · subst same
      simp only [ownersOf, ownedFrame, update_self, Option.map_some]
    · have different : Owner.directory other ≠ Owner.directory object :=
        fun equal => same (Owner.directory.inj equal)
      simp only [update_of_ne different, ownersOf, ownedFrame, update_of_ne same]
  | table space index =>
    have different : Owner.table space index ≠ Owner.directory object := Owner.noConfusion
    rw [update_of_ne different]
    by_cases same : space = some object
    · subst same
      simp only [ownersOf, ownedFrame, before, now, Option.bind_some, Option.bind_none, ite_self]
      split
      · rename_i inRange
        exact noTables index inRange.1 inRange.2
      · rfl
    · simp only [ownersOf, ownedFrame, sameElsewhere space same]
  | page space virtualAddr =>
    have different : Owner.page space virtualAddr ≠ Owner.directory object := Owner.noConfusion
    rw [update_of_ne different]
    by_cases same : space = some object
    · subst same
      simp only [ownersOf, ownedFrame, before, now, Option.bind_some, Option.bind_none, ite_self]
      split
      · rename_i inRange
        have tableRange : TableRange (some object) (directoryIndex virtualAddr) := inRange.table_range
        simp only [pageOf, noTables _ tableRange.1 tableRange.2, Option.bind_none]
      · rfl
    · simp only [ownersOf, ownedFrame, sameElsewhere space same]

/-- Dropping the record of a directory without tables drops the owner of the
directory. -/
theorem owners_remove_space (isSpace : spaces object = some record)
    (noTables : NoUserTables machine.memory record.pageDirectory) :
    ownersOf (update spaces object none) machine =
      update (ownersOf spaces machine) (.directory object) none := by
  have back : update (update spaces object none) object (some record) = spaces := by
    rw [update_idem, ← isSpace, update_eq_self]
  have added := owners_add_space (update_self object none spaces) noTables
  rw [back] at added
  have absent : ownersOf (update spaces object none) machine (.directory object) = none := by
    simp only [ownersOf, ownedFrame, update_self, Option.map_none]
  rw [added, update_idem, ← absent, update_eq_self]

end Spaces

/-! ## The invariant of the system -/

/-- A list has a page at an address. -/
def Lists (mappings : List Mapping) (virtualAddr physicalAddr : Nat) : Prop :=
  ∃ mapping ∈ mappings, mapping.virtualAddr = virtualAddr ∧ mapping.physicalAddr = physicalAddr

/-- What the record of an address space says, and what the page tables say, agree. -/
structure RecordSound (system : MemorySystem) (object : Nat) (record : AddressSpace) : Prop where
  block : system.blockUse object = some .space
  nodes : ∀ mapping ∈ record.userMappings, system.blockUse mapping.node = some (.mapping object)
  distinct : (record.userMappings.map Mapping.node).Nodup
  once : (record.userMappings.map Mapping.virtualAddr).Nodup
  listed : ∀ virtualAddr physicalAddr, Lists record.userMappings virtualAddr physicalAddr ↔
    ownersOf system.spaces system.machine (.page (some object) virtualAddr) = some physicalAddr
  count : record.userPageCount = record.userMappings.length

/-- The directory indices that all address spaces share. -/
def SharedIndex (index : Nat) : Prop := index < 4 ∨ (768 ≤ index ∧ index < 1024)

instance (index : Nat) : Decidable (SharedIndex index) := inferInstanceAs (Decidable (_ ∨ _))

/-- A shared entry that is present in a process directory is the kernel's. -/
def SharedSound (spaces : Nat → Option AddressSpace) (machine : Machine) : Prop :=
  ∀ object record, spaces object = some record → ∀ index, SharedIndex index →
    isPresent (machine.memory.word record.pageDirectory index) = true →
    machine.memory.word record.pageDirectory index =
      machine.memory.word machine.kernelDirectory index

/-- The system between two calls. Pages in `held` are taken from the frame allocator
and mapped nowhere. -/
structure Accounted (image : Image) (held : Set Nat) (system : MemorySystem) : Prop where
  heap : HeapAccount system
  owned : Owned image system.spaces held system.machine
  records : ∀ object record, system.spaces object = some record → RecordSound system object record
  shared : SharedSound system.spaces system.machine
  kernelSpace : system.kernelSpace.pageDirectory = system.machine.kernelDirectory ∧
    system.kernelSpace.pageDirectoryPhysical = system.machine.kernelDirectory
  current : (system.lookup system.currentSpace).map AddressSpace.pageDirectoryPhysical =
    some system.machine.cr3

end Toyix.Paging
