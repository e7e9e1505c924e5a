import Toyix.Paging.Accounts
import Toyix.Paging.Apart

/-!
# Mapping and unmapping user pages

`address_space_map_page` and `address_space_unmap_page` keep the accounts. A call
that returns -1 changes nothing at all. A mapping enters a held page into the tables
and into the list; an unmapping removes it from both and returns it to the frame
allocator.

The effect of a successful mapping is stated once, with the heap growth it may
contain, so that other laws about it need not look at the code again.
-/

namespace Toyix.Paging

open Library Pmm Function

variable {image : Image} {held : Set Nat} {system : MemorySystem} {index directory : Nat}
  {object table physicalAddr virtualAddr : Nat} {record : AddressSpace} {next : MemorySystem}

/-! ## What other address spaces see -/

section Shared

variable {spaces : Nat → Option AddressSpace} {touched : Set Nat} {machine machine' : Machine}

/-- The directories of processes stayed as they were, up to the user range of those
that were touched. So did the present entries of the kernel directory. -/
structure DirectoriesKept (spaces : Nat → Option AddressSpace) (touched : Set Nat)
    (machine machine' : Machine) : Prop where
  directory : machine'.kernelDirectory = machine.kernelDirectory
  cr3 : machine'.cr3 = machine.cr3
  words : ∀ object directory, (spaces object).map AddressSpace.pageDirectory = some directory →
    ∀ index < 1024, (object ∈ touched → SharedIndex index) →
      machine'.memory.word directory index = machine.memory.word directory index
  entries : ∀ index < 1024, isPresent (machine.memory.word machine.kernelDirectory index) = true →
    machine'.memory.word machine.kernelDirectory index =
      machine.memory.word machine.kernelDirectory index

/-- In addition, no kernel table gained a user bit, and the kernel directory gained no table while
another directory is loaded. -/
structure SharedKept (spaces : Nat → Option AddressSpace) (touched : Set Nat)
    (machine machine' : Machine) : Prop extends DirectoriesKept spaces touched machine machine' where
  bits : KernelBits machine → KernelBits machine'
  steady : Shown spaces machine → machine.cr3 ≠ machine.kernelDirectory → ∀ index < 1024,
    machine'.memory.word machine.kernelDirectory index =
      machine.memory.word machine.kernelDirectory index

theorem SharedIndex.lt (isShared : SharedIndex index) : index < 1024 := by
  rcases isShared with low | high
  · omega
  · exact high.2

theorem SharedKept.refl (spaces : Nat → Option AddressSpace) (touched : Set Nat) (machine : Machine) :
    SharedKept spaces touched machine machine :=
  ⟨⟨rfl, rfl, fun _ _ _ _ _ _ => rfl, fun _ _ _ => rfl⟩, id, fun _ _ _ _ => rfl⟩

theorem DirectoriesKept.trans {middle : Machine} (first : DirectoriesKept spaces touched machine middle)
    (second : DirectoriesKept spaces touched middle machine') :
    DirectoriesKept spaces touched machine machine' := by
  refine ⟨second.directory.trans first.directory, second.cr3.trans first.cr3, ?_, ?_⟩
  · intro object directory isDirectory index inside untouched
    exact (second.words object directory isDirectory index inside untouched).trans
      (first.words object directory isDirectory index inside untouched)
  · intro index inside present
    have before := first.entries index inside present
    have later := second.entries index inside
    rw [first.directory, before] at later
    exact later present

/-- The loaded directory still shows no more of the kernel than the kernel's directory. -/
theorem Shown.kept (shown : Shown spaces machine) (kept : DirectoriesKept spaces touched machine machine') :
    Shown spaces machine' := by
  rcases shown with isKernel | ⟨object, isDirectory, visible⟩
  · exact Or.inl (kept.cr3.trans (isKernel.trans kept.directory.symm))
  · refine Or.inr ⟨object, kept.cr3.symm ▸ isDirectory, ?_⟩
    intro index low high present
    rw [kept.cr3, kept.words object _ isDirectory index high fun _ => Or.inr ⟨low, high⟩] at present
    rw [kept.directory, kept.entries index high (visible index low high present)]
    exact visible index low high present

theorem SharedKept.trans {middle : Machine} (first : SharedKept spaces touched machine middle)
    (second : SharedKept spaces touched middle machine') : SharedKept spaces touched machine machine' := by
  refine ⟨first.toDirectoriesKept.trans second.toDirectoriesKept,
    fun bits => second.bits (first.bits bits), ?_⟩
  intro shown isProcess index inside
  have later := second.steady (shown.kept first.toDirectoriesKept)
    (by rw [first.directory, first.cr3]; exact isProcess) index inside
  rw [first.directory] at later
  exact later.trans (first.steady shown isProcess index inside)

/-- Present shared entries still agree with the kernel's. -/
theorem DirectoriesKept.sound (kept : DirectoriesKept spaces touched machine machine')
    (sound : SharedSound spaces machine) : SharedSound spaces machine' := by
  intro object record isSpace index isShared present
  have same := kept.words object record.pageDirectory (by rw [isSpace]; rfl) index isShared.lt
    (fun _ => isShared)
  rw [same] at present ⊢
  have agrees := sound object record isSpace index isShared present
  rw [kept.directory, kept.entries index isShared.lt (agrees ▸ present), agrees]

theorem KernelSide.directories_kept {kept : Set Nat} (side : KernelSide spaces kept machine machine')
    (owned : Owned image spaces held machine) : DirectoriesKept spaces touched machine machine' := by
  refine ⟨side.directory, side.cr3, ?_, side.entries⟩
  intro object directory isDirectory index inside _
  exact (side.bytes directory
    (Or.inr ⟨.directory object, trivial, owned.directory_owner isDirectory⟩)).word inside

theorem Beneath.shared_kept {kept held' : Set Nat}
    (beneath : Beneath image spaces kept machine held' machine')
    (owned : Owned image spaces held machine) : SharedKept spaces touched machine machine' :=
  ⟨beneath.side.directories_kept owned, beneath.bits, fun shown => (beneath.supply shown).steady⟩

/-- Kernel tables that were not written keep their bits. -/
theorem KernelBits.of_same (bits : KernelBits machine)
    (sameDirectory : machine'.kernelDirectory = machine.kernelDirectory)
    (sameEntries : ∀ index < 1024, machine'.memory.word machine.kernelDirectory index =
      machine.memory.word machine.kernelDirectory index)
    (sameTables : ∀ index < 1024, ∀ table,
      tableOf machine.memory machine.kernelDirectory index = some table → ∀ slot < 1024,
        machine'.memory.word table slot = machine.memory.word table slot) : KernelBits machine' := by
  intro index inside table entered slot inSlot
  rw [sameDirectory, table_of_congr (sameEntries index inside)] at entered
  rw [sameTables index inside table entered slot inSlot]
  exact bits index inside table entered slot inSlot

/-- Storing into a table of a process keeps all directories. -/
theorem Owned.store_shared_kept (owned : Owned image spaces held machine) {slot entry : Nat}
    (owns : ownersOf spaces machine (.table (some object) index) = some table)
    (inSlot : slot < 1024) (bounded : entry < 2 ^ 32) :
    SharedKept spaces touched machine (machine.stored table slot entry) := by
  have kernelSame : ∀ word < 1024, (machine.stored table slot entry).memory.word
      machine.kernelDirectory word = machine.memory.word machine.kernelDirectory word :=
    fun word inside =>
      owned.table_store_keeps_directory owns none rfl inSlot bounded word inside
  refine ⟨⟨rfl, rfl, ?_, fun word inside _ => kernelSame word inside⟩, ?_, fun _ _ => kernelSame⟩
  · intro other directory isDirectory word inside _
    exact owned.table_store_keeps_directory owns (some other) isDirectory inSlot bounded word inside
  · intro bits
    refine bits.of_same rfl kernelSame ?_
    intro other inside found entered position inPosition
    refine (Memory.samePage_setWord _ (table_of_aligned entered) (owned.permitted owns).aligned inSlot
      ?_).word inPosition
    rintro rfl
    have ofProcess : (Owner.table (some object) index).OfProcess := Option.some_ne_none object
    exact (owned.kernel_table inside entered).2.2.2 _ ofProcess owns

/-- Words that opening a table of a process leaves alone. -/
theorem Owned.open_process_word (owned : Owned image spaces held machine) {flags : Nat}
    {pmm : PmmState} (inRange : TableRange (some object) index)
    (isDirectory : directoryOf spaces machine.kernelDirectory (some object) = some directory)
    (taken : Takes machine.pmm pmm table)
    (bounded : ((table &&& x86PageFrameMask) ||| flags) < 2 ^ 32) {page word : Nat}
    (aligned : page % 4096 = 0) (inUse : FrameUsed machine.pmm page) (inside : word < 1024)
    (different : ¬ (page = directory ∧ word = index)) :
    (machine.opened pmm directory index table flags).memory.word page word =
      machine.memory.word page word := by
  have notFresh : page ≠ table := by
    rintro rfl
    exact taken.fresh inUse
  simp only [Machine.opened]
  rw [Memory.word_setWord _ (owned.directory_aligned isDirectory) aligned inRange.lt inside bounded,
    if_neg different, Memory.word_clearPage _ taken.allocatable.1 aligned inside, if_neg notFresh]

/-- The kernel directory is in use. -/
theorem Owned.kernel_used (owned : Owned image spaces held machine) :
    FrameUsed machine.pmm machine.kernelDirectory := by
  rw [owned.kernelDirectory]
  exact (owned.image_page image.pageDirectory image.aligned image.low image.high).1

/-- Obtaining a table of a process changes one entry of its user range. -/
theorem TableReady.shared_kept {flags : Nat} {base : Machine}
    (ready : TableReady machine directory index flags table base)
    (owned : Owned image spaces held machine) (inRange : TableRange (some object) index)
    (isDirectory : directoryOf spaces machine.kernelDirectory (some object) = some directory)
    (flagsOdd : flags < 4096 ∧ flags % 2 = 1) : SharedKept spaces {object} machine base := by
  cases ready with
  | found entered => exact SharedKept.refl spaces _ machine
  | missing absent => exact SharedKept.refl spaces _ machine
  | opened absent taken below =>
    obtain ⟨-, -, bounded⟩ := entry_page_made taken.allocatable.1 taken.allocatable.2.2 flagsOdd.1
      flagsOdd.2
    have notKernel : machine.kernelDirectory ≠ directory := by
      rintro rfl
      have same : some object = none := owned.directory_unique isDirectory rfl
      simp at same
    have kernelSame := fun word (inside : word < 1024) =>
      owned.open_process_word inRange isDirectory taken bounded owned.kernel_aligned
        owned.kernel_used inside (fun both => notKernel both.1)
    refine ⟨⟨rfl, rfl, ?_, fun word inside _ => kernelSame word inside⟩, ?_, fun _ _ => kernelSame⟩
    · intro other otherDirectory isOther word inside untouched
      have isOther : directoryOf spaces machine.kernelDirectory (some other) = some otherDirectory :=
        isOther
      have inUse := (owned.sound.owned (owned.directory_owner isOther)).1
      refine owned.open_process_word inRange isDirectory taken bounded
        (owned.directory_aligned isOther) inUse inside ?_
      rintro ⟨rfl, rfl⟩
      have same := Option.some.inj (owned.directory_unique isOther isDirectory)
      have isShared := untouched same
      have low := inRange.1
      have high := inRange.2
      simp only [SharedIndex] at isShared
      omega
    · intro bits
      refine bits.of_same rfl kernelSame ?_
      intro other inside found entered position inPosition
      obtain ⟨inUse, -, -, notOwned⟩ := owned.kernel_table inside entered
      refine owned.open_process_word inRange isDirectory taken bounded (table_of_aligned entered)
        inUse inPosition ?_
      rintro ⟨rfl, -⟩
      exact notOwned (.directory object) trivial (owned.directory_owner isDirectory)

end Shared

/-! ## Mapping a page -/

/-- The entry `address_space_map_page` stores. -/
def userEntry (physicalAddr flags : Nat) : Nat :=
  (physicalAddr &&& x86PageFrameMask) ||| x86PagePresent ||| toArchFlags flags

theorem user_entry_made (flags : Nat) (aligned : physicalAddr % 4096 = 0)
    (bounded : physicalAddr < 2 ^ 32) :
    entryPage (userEntry physicalAddr flags) = some physicalAddr ∧
      userEntry physicalAddr flags < 2 ^ 32 := by
  have small : x86PagePresent ||| toArchFlags flags < 4096 ∧
      (x86PagePresent ||| toArchFlags flags) % 2 = 1 := by
    unfold toArchFlags
    split <;> split <;> decide
  obtain ⟨present, frame, total⟩ := entry_page_made aligned bounded small.1 small.2
  rw [userEntry, Nat.or_assoc]
  exact ⟨entry_page_eq_some.mpr ⟨present, frame⟩, total⟩

/-- What a successful mapping did: it obtained a table, stored the entry, and
allocated a node for the list. -/
structure MapEffect (image : Image) (held : Set Nat) (object virtualAddr physicalAddr flags : Nat)
    (system next : MemorySystem) (record : AddressSpace) (table node : Nat) (base : Machine) :
    Prop where
  isSpace : system.spaces object = some record
  inRange : PageRange (some object) virtualAddr
  ready : TableReady system.machine record.pageDirectory (directoryIndex virtualAddr)
    (spaceTableFlags flags) table base
  notNull : table ≠ 0
  absent : isPresent (base.memory.word table (tableIndex virtualAddr)) = false
  beneath : Beneath image system.spaces (held \ {physicalAddr})
    (base.stored table (tableIndex virtualAddr) (userEntry physicalAddr flags))
    (held \ {physicalAddr}) next.machine
  draws : Draws 2 base next.machine
  fresh : system.blockUse node = none
  account : HeapAccount next
  spaces : next.spaces = update system.spaces object (some { record with
    userMappings := ⟨node, virtualAddr, physicalAddr⟩ :: record.userMappings
    userPageCount := (record.userPageCount + 1) % 2 ^ 32 })
  blockUse : next.blockUse = update system.blockUse node (some (.mapping object))
  kernelSpace : next.kernelSpace = system.kernelSpace
  currentSpace : next.currentSpace = system.currentSpace
  frames : next.frames = system.frames

theorem user_virtual_allowed_iff (virtualAddr : Nat) :
    userVirtualAllowed virtualAddr = true ↔ 0x01000000 ≤ virtualAddr ∧ virtualAddr < 0xC0000000 := by
  rw [userVirtualAllowed, Bool.and_eq_true, decide_eq_true_iff, decide_eq_true_iff]
  exact Iff.rfl

/-- The directory of a space with a record. -/
theorem directory_of_space {spaces : Nat → Option AddressSpace} (kernelDirectory : Nat)
    (isSpace : spaces object = some record) :
    directoryOf spaces kernelDirectory (some object) = some record.pageDirectory := by
  simp only [directoryOf, isSpace, Option.map_some]

/-- A space in use passes `validate_space`. -/
theorem validate_space_run (owned : Owned image system.spaces held system.machine)
    (isSpace : system.spaces object = some record) :
    validateSpace (some object) system = .done record system := by
  have owns := owned.directory_owner (directory_of_space _ isSpace)
  have positive := (owned.permitted owns).pos
  have same := owned.directories object record isSpace
  have present : ¬ (record.pageDirectory = 0 ∨ record.pageDirectoryPhysical = 0) := by omega
  simp [validateSpace, readSpace_apply isSpace, present]

/-- The reasons to refuse a page when a number of frames is taken first: it is outside the user range
or mapped, or there is no frame for it or, below 16 MiB, for its table. -/
inductive MapRefused (object directory virtualAddr taken : Nat) (machine : Machine) : Prop where
  | range (outside : ¬ PageRange (some object) virtualAddr)
  | mapped (present : isPresent (pageEntry machine.memory directory virtualAddr) = true)
  | frame (exhausted : freeBelow pmmMaxFrames machine.pmm < taken)
  | table (absent : isPresent (machine.memory.word directory (directoryIndex virtualAddr)) = false)
      (exhausted : freeBelow 4096 machine.pmm ≤ taken)

/-- Adding a node to the list of a space. -/
theorem mapping_add_sat (account : HeapAccount system)
    (owned : Owned image system.spaces held system.machine) (object virtualAddr physicalAddr : Nat) :
    (mappingAdd (some object) virtualAddr physicalAddr system).Sat fun _ next =>
      ∃ node middle, BlockTaken image held (.mapping object) sizeofAddressMapping node system middle ∧
        next = { middle with
          spaces := update system.spaces object ((system.spaces object).map
            fun record => { record with
              userMappings := ⟨node, virtualAddr, physicalAddr⟩ :: record.userMappings }) } := by
  have positive : 0 < sizeofAddressMapping := by decide
  simp only [mappingAdd, bind_apply, Option.getD_some]
  refine (kmalloc_for_sat account owned (.mapping object) positive).andThen ?_
  intro node middle taken
  simp only [taken.notNull, ↓reduceIte, setSpace_apply, sat_done]
  refine ⟨node, middle, taken, ?_⟩
  obtain ⟨client, rfl⟩ := taken.changed
  rfl

/-- `address_space_map_page` with a held page: it refuses the page, returns -1 and changes
nothing, or it returns 0 and has the effect of a mapping.

Proof: along the code. The page is permitted, so it is aligned; a null table leaves
no trace; after the store the page is owned, and the node is allocated in that
state. -/
theorem address_space_map_page_sat (inv : Accounted image held system)
    (isSpace : system.spaces object = some record) (isHeld : physicalAddr ∈ held)
    (virtualAddr flags : Nat) :
    (addressSpaceMapPage (some object) virtualAddr physicalAddr flags system).Sat fun result next =>
      (result = -1 ∧ next = system ∧
        MapRefused object record.pageDirectory virtualAddr 0 system.machine) ∨
      (result = 0 ∧ ∃ table node base,
        MapEffect image held object virtualAddr physicalAddr flags system next record table node base) := by
  have owned := inv.owned
  have permitted := (owned.sound.loose isHeld).2
  have pageAligned := (is_page_aligned_iff physicalAddr).mpr permitted.aligned
  have isDirectory := directory_of_space system.machine.kernelDirectory isSpace
  simp only [addressSpaceMapPage, bind_apply, validate_space_run owned isSpace, andThen_done, ite_run,
    pure_apply, pageAligned, Bool.true_eq_false, or_false]
  by_cases aligned : isPageAligned virtualAddr = false
  · simp only [aligned, ↓reduceIte]
    refine Or.inl ⟨rfl, rfl, .range fun inRange => ?_⟩
    rw [(is_page_aligned_iff virtualAddr).mpr inRange.aligned] at aligned
    cases aligned
  · by_cases allowed : userVirtualAllowed virtualAddr = false
    · simp only [aligned, allowed, ↓reduceIte]
      refine Or.inl ⟨rfl, rfl, .range fun inRange => ?_⟩
      rw [(user_virtual_allowed_iff virtualAddr).mpr inRange.2] at allowed
      cases allowed
    · have inRange : PageRange (some object) virtualAddr := by
        simp only [Bool.not_eq_false] at aligned allowed
        exact ⟨(is_page_aligned_iff virtualAddr).mp aligned,
          (user_virtual_allowed_iff virtualAddr).mp allowed⟩
      have ready := get_or_create_table_ready record.pageDirectory (directoryIndex virtualAddr) flags
        system.machine
      simp only [aligned, allowed, bind_apply, callMachine_apply, andThen_done,
        ite_run, pure_apply, Bool.true_eq_false, ↓reduceIte]
      generalize getOrCreateTable record.pageDirectory (directoryIndex virtualAddr) flags
        system.machine = obtained at ready ⊢
      obtain ⟨table, base⟩ := obtained
      have ready : TableReady system.machine record.pageDirectory (directoryIndex virtualAddr)
        (spaceTableFlags flags) table base := ready
      obtain ⟨baseOwned, tableOwned, -⟩ := ready.owned owned inRange.table_range isDirectory
        (space_table_flags_odd flags)
      by_cases null : table = 0
      · obtain ⟨same, absent, exhausted⟩ := ready.null owned inRange.table_range isDirectory null
        simp only [null, ↓reduceIte]
        exact Or.inl ⟨rfl, congrArg system.withMachine same, .table absent exhausted.le⟩
      · simp only [null, ↓reduceIte, machineNow_apply, andThen_done, ite_run, with_machine_machine]
        cases present : isPresent (base.memory.word table (tableIndex virtualAddr)) with
        | true =>
          obtain ⟨rfl, entered⟩ := ready.present owned inRange.table_range isDirectory
            (space_table_flags_odd flags) (table_index_lt virtualAddr) present
          simp only [↓reduceIte]
          refine Or.inl ⟨rfl, rfl, .mapped ?_⟩
          rw [page_entry_of_table (entered null), present]
          exact present
        | false =>
          obtain ⟨refers, bounded⟩ := user_entry_made flags permitted.aligned permitted.bounded
          obtain ⟨entered, -⟩ := baseOwned.enter_page inRange (tableOwned null) bounded refers isHeld
          simp only [Bool.false_eq_true, ↓reduceIte, bind_apply, setMachine_apply,
            andThen_done, with_machine_machine, with_machine_twice]
          refine (mapping_add_sat (inv.heap.with_machine (base.stored table (tableIndex virtualAddr)
            (userEntry physicalAddr flags))) entered object virtualAddr physicalAddr).andThen ?_
          rintro - next ⟨node, middle, taken, rfl⟩
          obtain ⟨client, rfl⟩ := taken.changed
          refine Or.inr ⟨rfl, table, node, base, isSpace, inRange, ready, null, present, taken.beneath,
            taken.draws, taken.fresh, taken.account.with_spaces _, ?_, rfl, rfl, rfl, rfl⟩
          simp only [update_self, update_idem, with_machine_spaces, isSpace,
            Option.map_some]

/-! ## The accounts after a mapping -/

section Effect

variable {object virtualAddr physicalAddr flags table node : Nat} {next : MemorySystem}
  {record : AddressSpace} {base : Machine}

section MapEffect

variable
  (effect : MapEffect image held object virtualAddr physicalAddr flags system next record table node base)

include effect

/-- The states of the machine inside a mapping: with the table, and with the entry. -/
theorem MapEffect.stages (inv : Accounted image held system)
    (isHeld : physicalAddr ∈ held) :
    Owned image system.spaces held base ∧
      ownersOf system.spaces base (.table (some object) (directoryIndex virtualAddr)) = some table ∧
      (∀ owner, owner ≠ .table (some object) (directoryIndex virtualAddr) →
        ownersOf system.spaces base owner = ownersOf system.spaces system.machine owner) ∧
      Owned image system.spaces (held \ {physicalAddr})
        (base.stored table (tableIndex virtualAddr) (userEntry physicalAddr flags)) ∧
      ownersOf system.spaces (base.stored table (tableIndex virtualAddr) (userEntry physicalAddr flags)) =
        update (ownersOf system.spaces base) (.page (some object) virtualAddr)
          (some physicalAddr) := by
  have permitted := (inv.owned.sound.loose isHeld).2
  obtain ⟨refers, bounded⟩ := user_entry_made flags permitted.aligned permitted.bounded
  obtain ⟨baseOwned, tableOwned, others⟩ := effect.ready.owned inv.owned
    effect.inRange.table_range (directory_of_space _ effect.isSpace) (space_table_flags_odd flags)
  obtain ⟨entered, owners⟩ := baseOwned.enter_page effect.inRange (tableOwned effect.notNull)
    bounded refers isHeld
  exact ⟨baseOwned, tableOwned effect.notNull, others, entered, owners⟩

/-- The new record has the directory of the old one. -/
theorem MapEffect.change_record :
    Owned image next.spaces (held \ {physicalAddr}) next.machine ∧
      ownersOf next.spaces next.machine = ownersOf system.spaces next.machine := by
  rw [effect.spaces]
  apply effect.beneath.owned.change_record effect.isSpace
  · rfl
  · rfl

section Accounted

variable (inv : Accounted image held system) (isHeld : physicalAddr ∈ held)

include inv isHeld

/-- The user pages after a mapping. -/
theorem MapEffect.pages (other otherAddr : Nat) :
    ownersOf next.spaces next.machine (.page (some other) otherAddr) =
      if other = object ∧ otherAddr = virtualAddr then some physicalAddr
      else ownersOf system.spaces system.machine (.page (some other) otherAddr) := by
  obtain ⟨-, -, others, entered, owners⟩ := effect.stages inv isHeld
  have ofProcess : (Owner.page (some other) otherAddr).OfProcess := Option.some_ne_none other
  rw [(effect.change_record).2, effect.beneath.side.owners entered ofProcess, owners,
    update_apply, others _ Owner.noConfusion]
  simp only [Owner.page.injEq, Option.some.injEq]

/-- Storing the entry keeps shared entries. -/
theorem MapEffect.stored_kept :
    SharedKept system.spaces {object} system.machine
      (base.stored table (tableIndex virtualAddr) (userEntry physicalAddr flags)) := by
  have permitted := (inv.owned.sound.loose isHeld).2
  obtain ⟨-, bounded⟩ := user_entry_made flags permitted.aligned permitted.bounded
  obtain ⟨baseOwned, tableOwned, -⟩ := effect.stages inv isHeld
  have first := effect.ready.shared_kept inv.owned effect.inRange.table_range
    (directory_of_space _ effect.isSpace) (space_table_flags_odd flags)
  refine first.trans ?_
  exact baseOwned.store_shared_kept tableOwned (table_index_lt virtualAddr) bounded

/-- A mapping keeps shared entries. -/
theorem MapEffect.shared_kept : SharedKept system.spaces {object} system.machine next.machine := by
  obtain ⟨-, -, -, entered, -⟩ := effect.stages inv isHeld
  exact (effect.stored_kept inv isHeld).trans (effect.beneath.shared_kept entered)

end Accounted

end MapEffect

end Effect

/-- A list of user pages is short. -/
theorem RecordSound.short (sound : RecordSound system object record) :
    record.userMappings.length ≤ 2 ^ 20 := by
  have pageOf : ∀ mapping ∈ record.userMappings, PageRange (some object) mapping.virtualAddr := by
    intro mapping member
    have owns := (sound.listed mapping.virtualAddr mapping.physicalAddr).mp ⟨mapping, member, rfl, rfl⟩
    by_contra outside
    simp [ownersOf, ownedFrame, outside] at owns
  have distinct : (record.userMappings.map fun mapping => mapping.virtualAddr / 4096).Nodup := by
    refine List.Nodup.map_on ?_ (List.Nodup.of_map _ sound.once)
    intro mapping member other member' same
    have aligned := (pageOf mapping member).aligned
    have aligned' := (pageOf other member').aligned
    exact List.inj_on_of_nodup_map sound.once member member' (by omega)
  have short := Links.length_le_of_nodup (2 ^ 20) distinct ?_
  · rwa [List.length_map] at short
  · intro value member
    obtain ⟨mapping, isMapping, rfl⟩ := List.mem_map.mp member
    have high := (pageOf mapping isMapping).2.2
    omega

/-- The record a space has after the record of one space was replaced. -/
theorem lookup_update_physical {changed : AddressSpace}
    (isSpace : system.spaces object = some record)
    (spaces : next.spaces = update system.spaces object (some changed))
    (kernelSpace : next.kernelSpace = system.kernelSpace)
    (same : changed.pageDirectoryPhysical = record.pageDirectoryPhysical) (space : SpaceRef) :
    (next.lookup space).map AddressSpace.pageDirectoryPhysical =
      (system.lookup space).map AddressSpace.pageDirectoryPhysical := by
  cases space with
  | none => simp only [MemorySystem.lookup, kernelSpace]
  | some other =>
    simp only [MemorySystem.lookup, spaces]
    by_cases isObject : other = object
    · subst isObject
      simp [isSpace, same]
    · simp [update_of_ne isObject]

/-- Shared entries depend on the directories of the records only. -/
theorem SharedSound.change_record {spaces : Nat → Option AddressSpace} {machine : Machine}
    {changed : AddressSpace} (sound : SharedSound spaces machine)
    (isSpace : spaces object = some record) (same : changed.pageDirectory = record.pageDirectory) :
    SharedSound (update spaces object (some changed)) machine := by
  intro other otherRecord isOther
  by_cases isObject : other = object
  · subst isObject
    obtain rfl : changed = otherRecord := by simpa using isOther
    rw [same]
    exact sound other record isSpace
  · rw [update_of_ne isObject] at isOther
    exact sound other otherRecord isOther

/-- The accounts of the records depend on the owners and the heap blocks. -/
theorem RecordSound.congr (sound : RecordSound system object record)
    (sameUse : ∀ ptr use, system.blockUse ptr = some use →
      use = .space ∨ use = .mapping object → next.blockUse ptr = some use)
    (sameOwners : ∀ virtualAddr, ownersOf next.spaces next.machine (.page (some object) virtualAddr) =
      ownersOf system.spaces system.machine (.page (some object) virtualAddr)) :
    RecordSound next object record := by
  refine ⟨sameUse _ _ sound.block (Or.inl rfl), ?_, sound.distinct, sound.once, ?_, sound.count⟩
  · intro mapping member
    exact sameUse _ _ (sound.nodes mapping member) (Or.inr rfl)
  · intro virtualAddr physicalAddr
    rw [sameOwners virtualAddr]
    exact sound.listed virtualAddr physicalAddr

/-- The record of one space is replaced, and those of the others stay sound. -/
theorem Accounted.replace_record {object : Nat} {record changed : AddressSpace} {next : MemorySystem}
    {held' touched : Set Nat} (inv : Accounted image held system)
    (isSpace : system.spaces object = some record)
    (spaces : next.spaces = update system.spaces object (some changed))
    (places : changed.pageDirectory = record.pageDirectory ∧
      changed.pageDirectoryPhysical = record.pageDirectoryPhysical)
    (selected : next.kernelSpace = system.kernelSpace ∧ next.currentSpace = system.currentSpace)
    (heap : HeapAccount next) (owned : Owned image next.spaces held' next.machine)
    (kept : DirectoriesKept system.spaces touched system.machine next.machine)
    (sound : RecordSound next object changed)
    (others : ∀ other ≠ object, ∀ record, RecordSound system other record → RecordSound next other record) :
    Accounted image held' next := by
  refine ⟨heap, owned, ?_, ?_, ?_, ?_⟩
  · intro other otherRecord isOther
    rw [spaces] at isOther
    by_cases isObject : other = object
    · subst isObject
      rw [update_self] at isOther
      exact Option.some.inj isOther ▸ sound
    · rw [update_of_ne isObject] at isOther
      exact others other isObject otherRecord (inv.records other otherRecord isOther)
  · rw [spaces]
    exact (kept.sound inv.shared).change_record isSpace places.1
  · rw [selected.1, kept.directory]
    exact inv.kernelSpace
  · rw [selected.2, kept.cr3, ← inv.current]
    exact lookup_update_physical isSpace spaces selected.1 places.2 _

/-- The page at an address is read from the table that is owned there. -/
theorem owned_page_of_table {spaces : Nat → Option AddressSpace} {machine : Machine}
    {space : SpaceRef} (inRange : PageRange space virtualAddr)
    (owns : ownersOf spaces machine (.table space (directoryIndex virtualAddr)) = some table) :
    ownersOf spaces machine (.page space virtualAddr) =
      entryPage (machine.memory.word table (tableIndex virtualAddr)) := by
  simp only [ownersOf, ownedFrame, inRange.table_range, ↓reduceIte] at owns
  obtain ⟨directory, isDirectory, entered⟩ := Option.bind_eq_some_iff.mp owns
  simp only [ownersOf, ownedFrame, inRange, ↓reduceIte, isDirectory, Option.bind_some, pageOf, entered]

/-- What a list has after a node for a new address was put in front. -/
theorem lists_cons {mappings : List Mapping} {node : Nat}
    (unmapped : ∀ mapping ∈ mappings, mapping.virtualAddr ≠ virtualAddr)
    (otherAddr otherPhysical : Nat) :
    Lists (⟨node, virtualAddr, physicalAddr⟩ :: mappings) otherAddr otherPhysical ↔
      if otherAddr = virtualAddr then physicalAddr = otherPhysical
      else Lists mappings otherAddr otherPhysical := by
  constructor
  · rintro ⟨mapping, member, rfl, rfl⟩
    rcases List.mem_cons.mp member with rfl | before
    · simp
    · rw [if_neg (unmapped mapping before)]
      exact ⟨mapping, before, rfl, rfl⟩
  · intro has
    split at has
    · rename_i same
      exact ⟨_, List.mem_cons_self, same.symm, has⟩
    · obtain ⟨mapping, before, facts⟩ := has
      exact ⟨mapping, List.mem_cons_of_mem _ before, facts⟩

/-- A successful mapping keeps the accounts; the page is no longer held.

Proof: the new node is at an address no record used. The list and the tables gain
the same page at the same address, and the address was not mapped before. -/
theorem MapEffect.accounted {flags node : Nat} {base : Machine}
    (effect : MapEffect image held object virtualAddr physicalAddr flags system next record table node base)
    (inv : Accounted image held system) (isHeld : physicalAddr ∈ held) :
    Accounted image (held \ {physicalAddr}) next := by
  have pages := effect.pages inv isHeld
  have kept := effect.shared_kept inv isHeld
  have sound := inv.records object record effect.isSpace
  obtain ⟨-, tableOwned, others, -, -⟩ := effect.stages inv isHeld
  have unmapped : ∀ mapping ∈ record.userMappings, mapping.virtualAddr ≠ virtualAddr := by
    intro mapping member same
    have owns := (sound.listed mapping.virtualAddr mapping.physicalAddr).mp ⟨mapping, member, rfl, rfl⟩
    rw [same, ← others _ Owner.noConfusion, owned_page_of_table effect.inRange tableOwned,
      entry_page_eq_none.mpr effect.absent] at owns
    simp at owns
  have otherUse : ∀ ptr use, system.blockUse ptr = some use → next.blockUse ptr = some use := by
    intro ptr use isUsed
    rw [effect.blockUse, update_of_ne]
    · exact isUsed
    · rintro rfl
      rw [effect.fresh] at isUsed
      simp at isUsed
  apply inv.replace_record effect.isSpace effect.spaces ⟨rfl, rfl⟩ ⟨effect.kernelSpace, effect.currentSpace⟩
    effect.account effect.change_record.1 kept.toDirectoriesKept
  · refine ⟨otherUse _ _ sound.block, ?_, ?_, ?_, ?_, ?_⟩
    · intro mapping member
      rcases List.mem_cons.mp member with rfl | before
      · rw [effect.blockUse, update_self]
      · exact otherUse _ _ (sound.nodes mapping before)
    · refine List.nodup_cons.mpr ⟨?_, sound.distinct⟩
      intro repeated
      obtain ⟨mapping, before, same⟩ := List.mem_map.mp repeated
      have isUsed := sound.nodes mapping before
      have same : mapping.node = node := same
      rw [same, effect.fresh] at isUsed
      simp at isUsed
    · refine List.nodup_cons.mpr ⟨?_, sound.once⟩
      intro repeated
      obtain ⟨mapping, before, same⟩ := List.mem_map.mp repeated
      exact unmapped mapping before same
    · intro otherAddr otherPhysical
      refine (lists_cons unmapped otherAddr otherPhysical).trans ?_
      rw [pages object otherAddr]
      by_cases same : otherAddr = virtualAddr
      · simp [same]
      · simp only [same, and_false, ↓reduceIte]
        exact sound.listed otherAddr otherPhysical
    · have short := sound.short
      have counted := sound.count
      simp only [List.length_cons]
      omega
  · intro other isOther otherRecord otherSound
    refine otherSound.congr (fun ptr use isUsed _ => otherUse ptr use isUsed) fun otherAddr => ?_
    rw [pages other otherAddr, if_neg (fun both => isOther both.1)]

end Toyix.Paging
