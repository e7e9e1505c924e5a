import Toyix.Paging.Mapping

/-!
# Creating and switching address spaces

A new directory is a fresh page, cleared, with copies of the kernel's shared entries.
Switching to a process copies the shared entries again before the directory is
loaded. Copying touches only shared entries, so it changes no owner and no user
mapping.
-/

namespace Toyix.Paging

open Library Pmm Function

variable {image : Image} {held : Set Nat} {system : MemorySystem} {page index : Nat}
  {record : AddressSpace} {space : SpaceRef} {spaces : Nat → Option AddressSpace}
  {machine : Machine}

/-! ## Copying the shared entries -/

/-- A word after the shared entries were copied. -/
theorem sync_word (memory : Memory) {directory kernelDirectory : Nat}
    (aligned : directory % 4096 = 0) (kernelAligned : kernelDirectory % 4096 = 0)
    (pageAligned : page % 4096 = 0) (different : kernelDirectory ≠ directory)
    (inside : index < 1024) :
    (syncDirectory directory kernelDirectory memory).word page index =
      if page = directory ∧ SharedIndex index then memory.word kernelDirectory index
      else memory.word page index := by
  have lowCount : lowIdentitySharedBytes / (4 * 1024 * 1024) = 4 := by decide
  have highStart : directoryIndex kernelHighBase = 768 := by decide
  have highCount : pageDirectoryEntries - 768 = 256 := by decide
  have lowWord : ∀ page' index', page' % 4096 = 0 → index' < 1024 →
      (memory.writeWords directory 4 fun i => memory.word kernelDirectory i).word page' index' =
        if page' = directory ∧ index' < 4 then memory.word kernelDirectory index'
        else memory.word page' index' := by
    intro page' index' pageAligned' inside'
    have stored := Memory.word_writeWords memory 0 4
      (fun i => memory.word kernelDirectory i) aligned pageAligned' (by decide) inside'
      (fun i _ => Memory.word_lt _ _ _)
    simpa using stored
  simp only [syncDirectory, lowCount, highStart, highCount]
  rw [Memory.word_writeWords _ _ _ _ aligned pageAligned (by decide) inside (fun i _ => Memory.word_lt _ _ _)]
  by_cases high : page = directory ∧ 768 ≤ index ∧ index < 768 + 256
  · obtain ⟨rfl, from768, below⟩ := high
    have isShared : SharedIndex index := Or.inr ⟨from768, inside⟩
    have position : 768 + (index - 768) = index := by omega
    simp only [from768, below, and_self, ↓reduceIte, isShared, position]
    rw [lowWord _ _ kernelAligned inside, if_neg (fun both => different both.1)]
  · rw [if_neg high, lowWord page index pageAligned inside]
    have sameCondition : (page = directory ∧ index < 4) ↔ (page = directory ∧ SharedIndex index) := by
      simp only [SharedIndex]
      omega
    simp only [sameCondition]

/-- The machine after the shared entries were copied into a directory. -/
def Machine.synced (machine : Machine) (directory : Nat) : Machine :=
  { machine with memory := syncDirectory directory machine.kernelDirectory machine.memory }

section Sync

variable {spaces : Nat → Option AddressSpace} {machine : Machine} {object directory : Nat}

/-- Words of a machine after copying into the directory of a process. -/
theorem Owned.synced_word (owned : Owned image spaces held machine)
    (isDirectory : directoryOf spaces machine.kernelDirectory (some object) = some directory)
    (pageAligned : page % 4096 = 0) (inside : index < 1024) :
    (machine.synced directory).memory.word page index =
      if page = directory ∧ SharedIndex index then machine.memory.word machine.kernelDirectory index
      else machine.memory.word page index := by
  refine sync_word machine.memory (owned.directory_aligned isDirectory)
    owned.kernel_aligned pageAligned ?_ inside
  rintro rfl
  have same : some object = none := owned.directory_unique isDirectory rfl
  simp at same

section Owned

variable (owned : Owned image spaces held machine)
  (isDirectory : directoryOf spaces machine.kernelDirectory (some object) = some directory)

include owned isDirectory

/-- Copying keeps the kernel directory. -/
theorem Owned.synced_kernel_word (inside : index < 1024) :
    (machine.synced directory).memory.word machine.kernelDirectory index =
      machine.memory.word machine.kernelDirectory index := by
  rw [owned.synced_word isDirectory owned.kernel_aligned inside]
  split <;> rfl

/-- Copying changes no owner. -/
theorem Owned.sync :
    Owned image spaces held (machine.synced directory) ∧
      ownersOf spaces (machine.synced directory) = ownersOf spaces machine := by
  have sameOwners : ownersOf spaces (machine.synced directory) = ownersOf spaces machine := by
    refine funext fun owner => owned_frame_congr ?_ ?_
    · intro space index other _ inRange isOther
      have isOther : directoryOf spaces machine.kernelDirectory space = some other := isOther
      rw [owned.synced_word isDirectory (owned.directory_aligned isOther) inRange.lt]
      split
      · rename_i copied
        obtain ⟨rfl, isShared⟩ := copied
        obtain rfl := owned.directory_unique isOther isDirectory
        have low := inRange.1
        have high := inRange.2
        simp only [SharedIndex] at isShared
        omega
      · rfl
    · intro space virtualAddr table _ _ owns
      have owns : ownersOf spaces machine (.table space (directoryIndex virtualAddr)) = some table := owns
      rw [owned.synced_word isDirectory (owned.permitted owns).aligned (table_index_lt _), if_neg]
      rintro ⟨rfl, -⟩
      exact owned.table_not_directory owns isDirectory
  refine ⟨⟨owned.kernelDirectory, owned.reserved, owned.directories, ?_, ?_⟩, sameOwners⟩
  · intro index low
    rw [← owned.identity index low]
    exact table_of_congr (owned.synced_kernel_word isDirectory (by omega))
  · rw [sameOwners]
    exact owned.sound

/-- After copying, the shared entries of the directory are the kernel's. -/
theorem Owned.sync_shared
    (others : ∀ other record, other ≠ object → spaces other = some record → ∀ index,
      SharedIndex index → isPresent (machine.memory.word record.pageDirectory index) = true →
      machine.memory.word record.pageDirectory index =
        machine.memory.word machine.kernelDirectory index) :
    SharedSound spaces (machine.synced directory) := by
  intro other record isSpace index isShared present
  have isOther := directory_of_space machine.kernelDirectory isSpace
  have word := owned.synced_word isDirectory (owned.directory_aligned isOther) isShared.lt
  have kernelWord := owned.synced_kernel_word isDirectory isShared.lt
  rw [word] at present ⊢
  rw [show (machine.synced directory).kernelDirectory = machine.kernelDirectory from rfl, kernelWord]
  by_cases same : other = object
  · subst same
    obtain rfl : record.pageDirectory = directory := Option.some.inj (isOther.symm.trans isDirectory)
    rw [if_pos ⟨rfl, isShared⟩]
  · have different : ¬ (record.pageDirectory = directory ∧ SharedIndex index) := by
      rintro ⟨rfl, -⟩
      exact same (Option.some.inj (owned.directory_unique isOther isDirectory))
    rw [if_neg different] at present ⊢
    exact others other record same isSpace index isShared present

/-- Copying keeps the kernel's bits. -/
theorem Owned.sync_bits (bits : KernelBits machine) : KernelBits (machine.synced directory) := by
  refine bits.of_same rfl (fun index inside => owned.synced_kernel_word isDirectory inside) ?_
  intro index inside table entered slot inSlot
  rw [owned.synced_word isDirectory (table_of_aligned entered) inSlot, if_neg]
  rintro ⟨rfl, -⟩
  exact (owned.kernel_table inside entered).2.2.2 (.directory object) trivial
    (owned.directory_owner isDirectory)

end Owned

end Sync

/-! ## Switching -/

/-- The machine after a switch. -/
def Machine.switched (machine : Machine) (space : SpaceRef) (record : AddressSpace) : Machine :=
  match space with
  | none => { machine with cr3 := record.pageDirectoryPhysical }
  | some _ => { machine.synced record.pageDirectory with cr3 := record.pageDirectoryPhysical }

/-- The system after a switch. -/
def MemorySystem.switched (system : MemorySystem) (space : SpaceRef) (record : AddressSpace) :
    MemorySystem :=
  { system.withMachine (system.machine.switched space record) with currentSpace := space }

/-- The kernel's own space passes `validate_space`. -/
theorem validate_kernel_run (inv : Accounted image held system) :
    validateSpace none system = .done system.kernelSpace system := by
  obtain ⟨directory, physical⟩ := inv.kernelSpace
  have notNull : system.machine.kernelDirectory ≠ 0 :=
    inv.owned.structural_ne_zero (Or.inl ⟨none, rfl⟩)
  have present : ¬ (system.kernelSpace.pageDirectory = 0 ∨
      system.kernelSpace.pageDirectoryPhysical = 0) := by
    rw [directory, physical]
    simp [notNull]
  simp [validateSpace, readSpace, MemorySystem.lookup, present]

/-- `address_space_switch` in a sound state. When the space is current already, the
directory is loaded already. -/
theorem address_space_switch_run (inv : Accounted image held system)
    (isSpace : system.lookup space = some record) :
    addressSpaceSwitch space system = .done ⟨⟩ (system.switched space record) := by
  have alreadyLoaded : system.currentSpace = space →
      system.machine.cr3 = record.pageDirectoryPhysical := by
    rintro rfl
    have loaded := inv.current
    rw [isSpace] at loaded
    exact (Option.some.inj loaded).symm
  cases space with
  | none =>
    obtain rfl : system.kernelSpace = record := Option.some.inj isSpace
    simp only [addressSpaceSwitch, bind_apply, validate_kernel_run inv,
      andThen_done, ne_eq, not_true_eq_false, ↓reduceIte, pure_apply,
      current_apply, ite_run, Program.update_apply, setMachine_apply]
    split
    · rename_i isCurrent
      simp only [MemorySystem.switched, Machine.switched, ← alreadyLoaded isCurrent, ← isCurrent]
      rfl
    · rfl
  | some object =>
    have isSpace : system.spaces object = some record := isSpace
    simp only [addressSpaceSwitch, bind_apply, validate_space_run inv.owned isSpace, andThen_done,
      ne_eq, reduceCtorEq, not_false_eq_true, ↓reduceIte, syncKernelMappings, setMachine_apply,
      pure_apply, current_apply, ite_run, Program.update_apply]
    split
    · rename_i isCurrent
      have isCurrent : system.currentSpace = some object := isCurrent
      simp only [MemorySystem.switched, Machine.switched, ← alreadyLoaded isCurrent, ← isCurrent]
      rfl
    · rfl

/-- Ownership does not depend on the loaded directory. -/
theorem Owned.load (owned : Owned image spaces held machine) (cr3 : Nat) :
    Owned image spaces held { machine with cr3 := cr3 } :=
  ⟨owned.kernelDirectory, owned.reserved, owned.directories, owned.identity, owned.sound⟩

/-- A switch keeps ownership and the owners. -/
theorem switched_owned (inv : Accounted image held system)
    (isSpace : system.lookup space = some record) :
    Owned image system.spaces held (system.machine.switched space record) ∧
      ownersOf system.spaces (system.machine.switched space record) =
        ownersOf system.spaces system.machine ∧
      SharedSound system.spaces (system.machine.switched space record) := by
  cases space with
  | none => exact ⟨inv.owned.load _, rfl, inv.shared⟩
  | some object =>
    have isDirectory := directory_of_space system.machine.kernelDirectory isSpace
    obtain ⟨synced, sameOwners⟩ := inv.owned.sync isDirectory
    refine ⟨synced.load _, sameOwners, ?_⟩
    exact inv.owned.sync_shared isDirectory fun other record _ isOther =>
      inv.shared other record isOther

/-- A switch keeps the accounts. -/
theorem switched_accounted (inv : Accounted image held system)
    (isSpace : system.lookup space = some record) :
    Accounted image held (system.switched space record) := by
  obtain ⟨owned, sameOwners, shared⟩ := switched_owned inv isSpace
  have sameKernel : (system.machine.switched space record).kernelDirectory =
      system.machine.kernelDirectory := by
    cases space <;> rfl
  have loaded : (system.machine.switched space record).cr3 = record.pageDirectoryPhysical := by
    cases space <;> rfl
  have account := inv.heap.with_machine (system.machine.switched space record)
  refine ⟨⟨account.client, account.live⟩, owned, ?_, shared, ?_, ?_⟩
  · intro other otherRecord isOther
    exact (inv.records other otherRecord isOther).congr (fun _ _ isUsed _ => isUsed)
      fun virtualAddr => congrFun sameOwners _
  · have same : (system.switched space record).machine.kernelDirectory =
      system.machine.kernelDirectory := sameKernel
    rw [same]
    exact inv.kernelSpace
  · have sameLookup : (system.switched space record).lookup space = system.lookup space := by
      cases space <;> rfl
    have cr3 : (system.switched space record).machine.cr3 = record.pageDirectoryPhysical := loaded
    rw [show (system.switched space record).currentSpace = space from rfl, sameLookup, isSpace, cr3]
    rfl

/-! ## Creating -/

/-- What a successful creation did: it took and cleared a page for the directory,
allocated the record, and copied the shared entries. -/
structure CreateEffect (image : Image) (held : Set Nat) (object : Nat) (system next : MemorySystem)
    (directory : Nat) (pmm : PmmState) (base : Machine) : Prop where
  taken : Takes system.machine.pmm pmm directory
  beneath : Beneath image system.spaces (insert directory held)
    { system.machine with pmm := pmm, memory := system.machine.memory.clearPage directory }
    (insert directory held) base
  fresh : system.blockUse object = none
  account : HeapAccount next
  machine : next.machine = base.synced directory
  spaces : next.spaces = update system.spaces object (some ⟨directory, directory, [], 0⟩)
  blockUse : next.blockUse = update system.blockUse object (some .space)
  kernelSpace : next.kernelSpace = system.kernelSpace
  currentSpace : next.currentSpace = system.currentSpace
  frames : next.frames = system.frames

/-- A page taken and cleared is held. -/
theorem Owned.take_cleared (owned : Owned image spaces held machine) {pmm : PmmState}
    (taken : Takes machine.pmm pmm page) :
    Owned image spaces (insert page held)
        { machine with pmm := pmm, memory := machine.memory.clearPage page } ∧
      ownersOf spaces { machine with pmm := pmm, memory := machine.memory.clearPage page } =
        ownersOf spaces machine :=
  (owned.take taken).write_page (machine.memory.clearPage page) taken.allocatable.1
    (fun isStructural => (owned.take taken).structural_unheld isStructural (Set.mem_insert _ _))
    (fun _ outside => Memory.clearPage_byte machine.memory outside)

/-- `address_space_create` stops the machine when it finds no page or no block;
otherwise it has the effect of a creation. -/
theorem address_space_create_sat (inv : Accounted image held system) :
    (addressSpaceCreate system).Sat fun object next =>
      ∃ directory pmm base, CreateEffect image held object system next directory pmm base := by
  simp only [addressSpaceCreate, bind_apply, callMachine_apply, andThen_done]
  rcases pmm_alloc_page_below_cases (show pageTableBootstrapLimit = _ from rfl) system.machine.pmm with
    ⟨failed, -⟩ | ⟨directory, pmm, allocated, taken, below⟩
  · simp only [failed, pmmInvalidPage, ↓reduceIte]
    trivial
  · have notNull : directory ≠ pmmInvalidPage :=
      Nat.ne_of_gt (inv.owned.fresh_permitted taken).pos
    obtain ⟨cleared, -⟩ := inv.owned.take_cleared taken
    have positive : 0 < sizeofAddressSpace := by decide
    simp only [allocated, notNull, ↓reduceIte, bind_apply, setMachine_apply,
      andThen_done, with_machine_machine, with_machine_twice]
    refine (kmalloc_for_sat (inv.heap.with_machine { system.machine with
      pmm := pmm
      memory := system.machine.memory.clearPage directory }) cleared .space positive).andThen ?_
    intro object middle block
    obtain ⟨client, rfl⟩ := block.changed
    simp only [block.notNull, ↓reduceIte, bind_apply, Program.update_apply,
      andThen_done, syncKernelMappings, setMachine_apply, pure_apply]
    refine ⟨directory, pmm, client.system.pages, taken, block.beneath, block.fresh, ?_, rfl, rfl, rfl,
      rfl, rfl, rfl⟩
    exact (block.account.with_spaces _).with_machine _

/-- Clearing a fresh page is invisible to the directories and to the kernel. -/
theorem Owned.cleared_shared_kept {touched : Set Nat} (owned : Owned image spaces held machine)
    {pmm : PmmState} (taken : Takes machine.pmm pmm page) :
    SharedKept spaces touched machine
      { machine with pmm := pmm, memory := machine.memory.clearPage page } := by
  have sameUsed : ∀ other, other % 4096 = 0 → FrameUsed machine.pmm other → ∀ index < 1024,
      (machine.memory.clearPage page).word other index = machine.memory.word other index := by
    intro other aligned inUse index inside
    refine (Memory.samePage_clearPage _ aligned taken.allocatable.1 ?_).word inside
    rintro rfl
    exact taken.fresh inUse
  have kernelSame := sameUsed machine.kernelDirectory owned.kernel_aligned
    owned.kernel_used
  refine ⟨⟨rfl, rfl, ?_, fun index inside _ => kernelSame index inside⟩, ?_, fun _ _ => kernelSame⟩
  · intro object directory isDirectory index inside _
    have owns := owned.directory_owner isDirectory
    exact sameUsed directory (owned.permitted owns).aligned (owned.sound.owned owns).1 index inside
  · intro bits
    refine bits.of_same rfl kernelSame ?_
    intro index inside table entered slot inSlot
    exact sameUsed table (table_of_aligned entered) (owned.kernel_table inside entered).1 slot inSlot

section Created

variable {object directory : Nat} {next : MemorySystem} {pmm : PmmState} {base : Machine}

section CreateEffect

variable (effect : CreateEffect image held object system next directory pmm base)

include effect

/-- The pointer of the new record was not in use. -/
theorem CreateEffect.absent (inv : Accounted image held system) : system.spaces object = none := by
  cases isSpace : system.spaces object with
  | none => rfl
  | some record =>
    have isUsed := (inv.records object record isSpace).block
    rw [effect.fresh] at isUsed
    simp at isUsed

/-- The new directory is still clear after the record was allocated. -/
theorem CreateEffect.directory_of_new :
    directoryOf next.spaces base.kernelDirectory (some object) = some directory := by
  rw [effect.spaces]
  simp only [directoryOf, update_self, Option.map_some]

theorem CreateEffect.clear (inside : index < 1024) : base.memory.word directory index = 0 := by
  have aligned := effect.taken.allocatable.1
  have same := effect.beneath.side.bytes directory (Or.inl (Set.mem_insert directory held))
  rw [same.word inside, Memory.word_clearPage _ aligned aligned inside, if_pos rfl]

/-- The owners with the new record, before and after copying. -/
theorem CreateEffect.owned (inv : Accounted image held system) :
    Owned image next.spaces held base ∧
      ownersOf next.spaces base = update (ownersOf system.spaces base) (.directory object)
        (some directory) := by
  have absent := effect.absent inv
  have unheld := inv.owned.fresh_unheld effect.taken
  have noTables : NoUserTables base.memory directory := by
    intro index low high
    refine table_of_eq_none.mpr ?_
    rw [effect.clear (by omega)]
    rfl
  rw [effect.spaces]
  have owners : ownersOf (update system.spaces object (some ⟨directory, directory, [], 0⟩))
      base = update (ownersOf system.spaces base) (.directory object) (some directory) :=
    owners_add_space absent noTables
  refine ⟨⟨effect.beneath.owned.kernelDirectory, effect.beneath.owned.reserved, ?_,
    effect.beneath.owned.identity, ?_⟩, owners⟩
  · intro other record isSpace
    by_cases same : other = object
    · subst same
      rw [update_self] at isSpace
      obtain rfl := Option.some.inj isSpace
      rfl
    · rw [update_of_ne same] at isSpace
      exact inv.owned.directories other record isSpace
  · rw [owners]
    have assigned := effect.beneath.owned.sound.assign (.directory object) (Set.mem_insert directory held)
    rwa [Set.insert_sdiff_self_of_notMem unheld] at assigned

/-- The other directories, and the kernel's side, before the entries are copied. -/
theorem CreateEffect.shared_kept {touched : Set Nat} (inv : Accounted image held system)
    : SharedKept system.spaces touched system.machine base :=
  (inv.owned.cleared_shared_kept effect.taken).trans
    (effect.beneath.shared_kept (inv.owned.take_cleared effect.taken).1)

/-- The user pages after a creation. -/
theorem CreateEffect.pages (inv : Accounted image held system)
    (other virtualAddr : Nat) :
    ownersOf next.spaces next.machine (.page (some other) virtualAddr) =
      ownersOf system.spaces system.machine (.page (some other) virtualAddr) := by
  obtain ⟨owned, owners⟩ := effect.owned inv
  obtain ⟨cleared, sameOwners⟩ := inv.owned.take_cleared effect.taken
  have isDirectory := effect.directory_of_new
  have ofProcess : (Owner.page (some other) virtualAddr).OfProcess := Option.some_ne_none other
  rw [effect.machine, (owned.sync isDirectory).2, owners, update_of_ne Owner.noConfusion,
    effect.beneath.side.owners cleared ofProcess, sameOwners]

/-- A creation keeps the accounts. -/
theorem CreateEffect.accounted (inv : Accounted image held system) :
    Accounted image held next := by
  have absent := effect.absent inv
  obtain ⟨owned, owners⟩ := effect.owned inv
  have kept : SharedKept system.spaces ∅ system.machine base := effect.shared_kept inv
  have isDirectory := effect.directory_of_new
  obtain ⟨synced, -⟩ := owned.sync isDirectory
  have sameKernel : next.machine.kernelDirectory = system.machine.kernelDirectory := by
    rw [effect.machine]
    exact kept.directory
  have sameUse : ∀ ptr use, system.blockUse ptr = some use → next.blockUse ptr = some use := by
    intro ptr use isUsed
    rw [effect.blockUse, update_of_ne]
    · exact isUsed
    · rintro rfl
      rw [effect.fresh] at isUsed
      simp at isUsed
  refine ⟨effect.account, effect.machine ▸ synced, ?_, ?_, ?_, ?_⟩
  · intro other record isSpace
    rw [effect.spaces] at isSpace
    by_cases same : other = object
    · subst same
      rw [update_self] at isSpace
      obtain rfl := Option.some.inj isSpace
      refine ⟨by rw [effect.blockUse, update_self], by simp, List.nodup_nil, List.nodup_nil,
        ?_, rfl⟩
      intro virtualAddr physicalAddr
      have unmapped : ownersOf system.spaces system.machine (.page (some other) virtualAddr) = none := by
        simp [ownersOf, ownedFrame, directoryOf, absent]
      rw [effect.pages inv other virtualAddr, unmapped]
      simp [Lists]
    · rw [update_of_ne same] at isSpace
      exact (inv.records other record isSpace).congr
        (fun ptr use isUsed _ => sameUse ptr use isUsed) (effect.pages inv other)
  · rw [effect.machine]
    refine owned.sync_shared isDirectory ?_
    intro other record different isSpace
    rw [effect.spaces, update_of_ne different] at isSpace
    exact (kept.sound inv.shared) other record isSpace
  · rw [effect.kernelSpace, sameKernel]
    exact inv.kernelSpace
  · have sameCr3 : next.machine.cr3 = system.machine.cr3 := by
      rw [effect.machine]
      exact kept.cr3
    rw [effect.currentSpace, sameCr3, ← inv.current]
    cases isCurrent : system.currentSpace with
    | none => simp only [MemorySystem.lookup, effect.kernelSpace]
    | some other =>
      have loaded := inv.current
      have different : other ≠ object := by
        rintro rfl
        rw [isCurrent] at loaded
        simp [MemorySystem.lookup, absent] at loaded
      simp only [MemorySystem.lookup, effect.spaces, update_of_ne different]

end CreateEffect

end Created

end Toyix.Paging
