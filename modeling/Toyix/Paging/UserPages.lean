import Toyix.Paging.Boot

/-!
# Pages of processes

`map_user_page` takes a page from the frame allocator and maps it into an address
space; when the mapping is refused, the page goes back. `process_map_user_region`
repeats this for every page of a region, and stops at the first refusal with the
pages before it mapped.

The tables that these functions open carry the user bit.

Each of them keeps the balance of pages: a page that one of the owners of the space gains comes
from the frame allocator, and a page that it loses goes back. Only the heap of the kernel, which
grows for the records and the lists, may keep pages.
-/

namespace Toyix.Paging

open Library Pmm

variable {image : Image} {held : Set Nat} {system : MemorySystem} {table object : Nat}
  {base : Machine} {next : MemorySystem} {record : AddressSpace}
  {virtualAddr physicalAddr node : Nat} {pmm : PmmState}

/-! ## User bits of directories -/

section UserTables

variable {spaces : Nat → Option AddressSpace} {machine machine' : Machine}

/-- Every table in the user range of a process is open to user mode. -/
def UserTables (spaces : Nat → Option AddressSpace) (machine : Machine) : Prop :=
  ∀ object directory, (spaces object).map AddressSpace.pageDirectory = some directory →
    ∀ index, TableRange (some object) index →
      isPresent (machine.memory.word directory index) = true →
      isUser (machine.memory.word directory index) = true

/-- Operations that leave all directories alone keep the user bits of directories. -/
theorem DirectoriesKept.user_tables (kept : DirectoriesKept spaces ∅ machine machine')
    (tables : UserTables spaces machine) : UserTables spaces machine' := by
  intro object directory isDirectory index inRange present
  have same := kept.words object directory isDirectory index inRange.lt (fun touched => touched.elim)
  rw [same] at present ⊢
  exact tables object directory isDirectory index inRange present

/-- The flags of a table that `map_user_page` opens. -/
def userPageFlags : Nat := addressSpaceFlagWritable ||| addressSpaceFlagUser

theorem user_table_entry (aligned : table % 4096 = 0) (bounded : table < 2 ^ 32) :
    isUser ((table &&& x86PageFrameMask) ||| spaceTableFlags userPageFlags) = true := by
  have flags : spaceTableFlags userPageFlags = 7 := by decide
  rw [flags, entry_eq_add aligned bounded (by decide), is_user_iff]
  omega

/-- Obtaining a table for a user page keeps the user bits of directories. -/
theorem TableReady.user_tables {directory index : Nat}
    (ready : TableReady machine directory index (spaceTableFlags userPageFlags) table base)
    (owned : Owned image spaces held machine)
    (inRange : TableRange (some object) index)
    (isDirectory : directoryOf spaces machine.kernelDirectory (some object) = some directory)
    (tables : UserTables spaces machine) : UserTables spaces base := by
  cases ready with
  | found entered => exact tables
  | missing absent => exact tables
  | opened absent taken below =>
    have flagsOdd := space_table_flags_odd userPageFlags
    obtain ⟨-, -, bounded⟩ := entry_page_made taken.allocatable.1 taken.allocatable.2.2 flagsOdd.1
      flagsOdd.2
    intro other otherDirectory isOther word otherRange present
    have isOther : directoryOf spaces machine.kernelDirectory (some other) = some otherDirectory := isOther
    have aligned := owned.directory_aligned isDirectory
    by_cases same : otherDirectory = directory ∧ word = index
    · obtain ⟨rfl, rfl⟩ := same
      simp only [Machine.opened]
      rw [Memory.word_setWord _ aligned aligned otherRange.lt otherRange.lt bounded, if_pos ⟨rfl, rfl⟩]
      exact user_table_entry taken.allocatable.1 taken.allocatable.2.2
    · have inUse := (owned.sound.owned (owned.directory_owner isOther)).1
      have unchanged := owned.open_process_word inRange isDirectory taken bounded
        (owned.directory_aligned isOther) inUse otherRange.lt same
      rw [unchanged] at present ⊢
      exact tables other otherDirectory isOther word otherRange present

end UserTables

/-- A mapping keeps the place of every directory. -/
theorem MapEffect.directories {flags : Nat}
    (effect : MapEffect image held object virtualAddr physicalAddr flags system next record table node base)
    (other : Nat) : (next.spaces other).map AddressSpace.pageDirectory =
      (system.spaces other).map AddressSpace.pageDirectory := by
  rw [effect.spaces]
  apply map_update_record AddressSpace.pageDirectory effect.isSpace
  rfl

/-- Mapping a user page keeps the user bits of directories. -/
theorem MapEffect.user_tables
    (effect : MapEffect image held object virtualAddr physicalAddr userPageFlags system next record
      table node base) (inv : Accounted image held system) (isHeld : physicalAddr ∈ held)
    (tables : UserTables system.spaces system.machine) : UserTables next.spaces next.machine := by
  have permitted := (inv.owned.sound.loose isHeld).2
  obtain ⟨-, bounded⟩ := user_entry_made userPageFlags permitted.aligned permitted.bounded
  obtain ⟨baseOwned, tableOwned, -, entered, -⟩ := effect.stages inv isHeld
  have opened := effect.ready.user_tables inv.owned effect.inRange.table_range
    (directory_of_space _ effect.isSpace) tables
  have stored : SharedKept system.spaces ∅ base _ :=
    baseOwned.store_shared_kept tableOwned (table_index_lt virtualAddr) bounded
  have grown : SharedKept system.spaces ∅ _ next.machine := effect.beneath.shared_kept entered
  have final := (stored.trans grown).user_tables opened
  intro other directory isDirectory
  exact final other directory ((effect.directories other).symm.trans isDirectory)

/-! ## One page -/

/-- A page taken from the frame allocator. -/
theorem Accounted.take (inv : Accounted image held system) {page : Nat}
    (taken : Takes system.machine.pmm pmm page) :
    Accounted image (insert page held) (system.withMachine { system.machine with pmm := pmm }) :=
  inv.with_machine (inv.owned.take taken)
    ((SharedKept.refl system.spaces ∅ system.machine).with_pmm pmm).toDirectoriesKept fun _ _ => rfl

/-- A page given back to the frame allocator. -/
theorem Accounted.give_back (inv : Accounted image held system) {page : Nat} (isHeld : page ∈ held) :
    ∃ pmm, pmmFreePage page system.machine.pmm = .ok pmm ∧
      freePage page system = .done ⟨⟩ (system.withMachine { system.machine with pmm := pmm }) ∧
      Accounted image (held \ {page}) (system.withMachine { system.machine with pmm := pmm }) := by
  obtain ⟨pmm, returned, freed, owned⟩ := free_page_run system inv.owned isHeld
  exact ⟨pmm, returned, freed, inv.with_machine owned
    ((SharedKept.refl system.spaces ∅ system.machine).with_pmm pmm).toDirectoriesKept fun _ _ => rfl⟩

/-- The frame allocator after a page was taken from it and given back, or after it had none. -/
def TakenBack (pmm pmm' : PmmState) : Prop :=
  pmm' = pmm ∨ ∃ page middle, Takes pmm middle page ∧ pmmFreePage page middle = .ok pmm'

/-- The same frames are in use. -/
theorem TakenBack.used {pmm' : PmmState} (back : TakenBack pmm pmm') (frame : Nat) :
    FrameUsed pmm' frame ↔ FrameUsed pmm frame := by
  rcases back with rfl | ⟨page, middle, taken, freed⟩
  · exact Iff.rfl
  · obtain ⟨final, freed', exactly⟩ := pmm_free_page_exact middle page taken.allocatable
    obtain rfl : final = pmm' := Except.ok.inj (freed'.symm.trans freed)
    rw [exactly frame, taken.used frame]
    constructor
    · rintro ⟨different, same | used⟩
      · exact absurd same different
      · exact used
    · intro used
      refine ⟨fun same => taken.fresh ?_, Or.inr used⟩
      rw [FrameUsed] at used ⊢
      rw [← same]
      exact used

/-- A page that is refused once a frame was taken for it. -/
theorem MapRefused.before {virtualAddr page : Nat} {pmm : PmmState}
    (taken : Takes system.machine.pmm pmm page)
    (refused : MapRefused object record.pageDirectory virtualAddr 0 { system.machine with pmm := pmm }) :
    MapRefused object record.pageDirectory virtualAddr 1 system.machine := by
  cases refused with
  | range outside => exact .range outside
  | mapped present => exact .mapped present
  | frame exhausted => exact absurd exhausted (Nat.not_lt_zero _)
  | table absent exhausted =>
    rw [taken.free_below] at exhausted
    exact .table absent (by omega)

/-- `map_user_page` either refuses the page and returns the frame it took, or enters it. -/
theorem map_user_page_sat (inv : Accounted image held system)
    (isSpace : system.spaces object = some record) (virtualAddr : Nat) :
    (mapUserPage (some object) virtualAddr system).Sat fun result next =>
      (result = -1 ∧ MapRefused object record.pageDirectory virtualAddr 1 system.machine ∧
          Accounted image held next ∧ ∃ pmm, next = system.withMachine { system.machine with pmm := pmm } ∧
            TakenBack system.machine.pmm pmm) ∨
        (result = 0 ∧ ∃ page pmm table node base, Takes system.machine.pmm pmm page ∧
          MapEffect image (insert page held) object virtualAddr page userPageFlags
            (system.withMachine { system.machine with pmm := pmm }) next record table node base) := by
  simp only [mapUserPage, bind_apply, callMachine_apply, andThen_done, ite_run]
  rcases pmm_alloc_page_cases system.machine.pmm with ⟨failed, none⟩ | ⟨page, pmm, allocated, taken⟩
  · simp only [kernelPages, failed, pmmInvalidPage, ↓reduceIte, pure_apply]
    exact Or.inl ⟨rfl, .frame (by omega), inv, system.machine.pmm, rfl, Or.inl rfl⟩
  · have notNull : page ≠ pmmInvalidPage := Nat.ne_of_gt (inv.owned.fresh_permitted taken).pos
    have unheld := inv.owned.fresh_unheld taken
    have heldInv := inv.take taken
    simp only [kernelPages, allocated, notNull, ↓reduceIte]
    refine (address_space_map_page_sat heldInv isSpace (Set.mem_insert page held) virtualAddr
      userPageFlags).andThen ?_
    rintro result next (⟨rfl, rfl, reason⟩ | ⟨rfl, table, node, base, effect⟩)
    · obtain ⟨pmm', returned, freed, freedInv⟩ := heldInv.give_back (Set.mem_insert page held)
      rw [Set.insert_sdiff_self_of_notMem unheld] at freedInv
      have refused : (-1 : Int) ≠ 0 := by decide
      simp only [refused, ne_eq, not_false_eq_true, ↓reduceIte, bind_apply, freed,
        andThen_done, pure_apply]
      exact Or.inl ⟨rfl, reason.before taken, freedInv, pmm', rfl, Or.inr ⟨page, pmm, taken, returned⟩⟩
    · simp only [ne_eq, not_true_eq_false, ↓reduceIte, pure_apply]
      exact Or.inr ⟨rfl, page, pmm, table, node, base, taken, effect⟩

/-! ## Work on one process -/

/-- What mapping user pages of one process keeps. -/
structure UserWork (object : Nat) (system next : MemorySystem) : Prop
    extends WorksOn object system next where
  directory : (next.spaces object).map AddressSpace.pageDirectory =
    (system.spaces object).map AddressSpace.pageDirectory
  tables : UserTables system.spaces system.machine → UserTables next.spaces next.machine

theorem UserWork.refl (object : Nat) (system : MemorySystem) : UserWork object system system :=
  ⟨WorksOn.refl object system, rfl, id⟩

theorem UserWork.trans {middle : MemorySystem} (first : UserWork object system middle)
    (second : UserWork object middle next) : UserWork object system next :=
  ⟨first.toWorksOn.trans second.toWorksOn first.directory, second.directory.trans first.directory,
    fun tables => second.tables (first.tables tables)⟩

/-- Only the frame allocator changed. -/
theorem UserWork.with_pmm (object : Nat) (system : MemorySystem) (pmm : PmmState) :
    UserWork object system (system.withMachine { system.machine with pmm := pmm }) :=
  ⟨⟨(SharedKept.refl system.spaces {object} system.machine).with_pmm pmm, fun _ _ => rfl, rfl, rfl, rfl⟩,
    rfl, id⟩

/-- A user page was mapped. -/
theorem MapEffect.user_work
    (effect : MapEffect image held object virtualAddr physicalAddr userPageFlags system next record
      table node base) (inv : Accounted image held system) (isHeld : physicalAddr ∈ held) :
    UserWork object system next := by
  constructor
  · refine ⟨effect.shared_kept inv isHeld, ?_, effect.kernelSpace, effect.currentSpace,
      effect.frames⟩
    intro other different
    rw [effect.spaces, Function.update_of_ne different]
  · exact effect.directories object
  · exact effect.user_tables inv isHeld

theorem UserWork.is_some (work : UserWork object system next)
    (isSpace : (system.spaces object).isSome) : (next.spaces object).isSome := by
  have same := congrArg Option.isSome work.directory
  rw [Option.isSome_map, Option.isSome_map] at same
  rw [same]
  exact isSpace

/-! ## The balance of pages -/

/-- The directory that is loaded. -/
theorem Accounted.loaded_directory (inv : Accounted image held system) :
    ∃ record, system.lookup system.currentSpace = some record ∧
      system.machine.cr3 = record.pageDirectory ∧
      directoryOf system.spaces system.machine.kernelDirectory system.currentSpace =
        some record.pageDirectory := by
  obtain ⟨record, isRecord, loaded⟩ := Option.map_eq_some_iff.mp inv.current
  refine ⟨record, isRecord, ?_⟩
  cases isCurrent : system.currentSpace with
  | none =>
    rw [isCurrent] at isRecord
    obtain rfl : system.kernelSpace = record := Option.some.inj isRecord
    rw [inv.kernelSpace.1]
    exact ⟨loaded.symm.trans inv.kernelSpace.2, rfl⟩
  | some object =>
    rw [isCurrent] at isRecord
    have isSpace : system.spaces object = some record := isRecord
    exact ⟨loaded.symm.trans (inv.owned.directories object record isSpace).symm,
      directory_of_space _ isSpace⟩

/-- The loaded directory shows no more of the kernel than the kernel's directory. -/
theorem shown_of_shared {spaces : Nat → Option AddressSpace} {machine : Machine}
    (loaded : ∃ space, directoryOf spaces machine.kernelDirectory space = some machine.cr3)
    (shared : SharedSound spaces machine) : Shown spaces machine := by
  obtain ⟨space, isDirectory⟩ := loaded
  cases space with
  | none => exact Or.inl (Option.some.inj isDirectory).symm
  | some object =>
    refine Or.inr ⟨object, isDirectory, ?_⟩
    obtain ⟨record, isSpace, same⟩ := Option.map_eq_some_iff.mp isDirectory
    rw [← same]
    intro index low high present
    rw [← shared object record isSpace index (Or.inr ⟨low, high⟩) present]
    exact present

/-- It still does after work that keeps the directories. -/
theorem Accounted.shown (inv : Accounted image held system) {touched : Set Nat} {machine : Machine}
    (kept : DirectoriesKept system.spaces touched system.machine machine) :
    Shown system.spaces machine := by
  refine shown_of_shared ?_ (kept.sound inv.shared)
  obtain ⟨record, -, loaded, isDirectory⟩ := inv.loaded_directory
  rw [kept.directory, kept.cr3, loaded]
  exact ⟨system.currentSpace, isDirectory⟩

/-- What the heap does at the end of a mapping. -/
theorem MapEffect.supplied {flags : Nat}
    (effect : MapEffect image held object virtualAddr physicalAddr flags system next record table node base)
    (inv : Accounted image held system) (isHeld : physicalAddr ∈ held) :
    Supplied system.spaces (held \ {physicalAddr})
      (base.stored table (tableIndex virtualAddr) (userEntry physicalAddr flags))
      (held \ {physicalAddr}) next.machine :=
  effect.beneath.supply (inv.shown (effect.stored_kept inv isHeld).toDirectoriesKept)

/-- A mapping gives a held page to the space. -/
theorem MapEffect.added {flags : Nat}
    (effect : MapEffect image held object virtualAddr physicalAddr flags system next record table node base)
    (inv : Accounted image held system) (isHeld : physicalAddr ∈ held) :
    AddedFor object held system (held \ {physicalAddr}) next := by
  obtain ⟨-, tableOwned, -, -, owners⟩ := effect.stages inv isHeld
  have isDirectory := directory_of_space system.machine.kernelDirectory effect.isSpace
  have opened : Balanced (fun _ => False) (fun owner => owner.BelongsTo object ∨ owner.OfKernel)
      system.spaces held system.machine system.spaces held base :=
    effect.ready.balanced inv.owned effect.inRange.table_range isDirectory
      (space_table_flags_odd flags) (Or.inr (Or.inl rfl)) (Balanced.refl _ _ _ _ _)
  have absent : ownersOf system.spaces base (.page (some object) virtualAddr) = none := by
    rw [owned_page_of_table effect.inRange tableOwned]
    exact entry_page_eq_none.mpr effect.absent
  have entered : Balanced (fun _ => False) (fun owner => owner.BelongsTo object ∨ owner.OfKernel)
      system.spaces held system.machine system.spaces (held \ {physicalAddr})
      (base.stored table (tableIndex virtualAddr) (userEntry physicalAddr flags)) :=
    opened.assign isHeld absent (Or.inr (Or.inl rfl)) rfl owners
  have grown := entered.trans ((effect.supplied inv isHeld).balanced.weaken
    (fun _ => False.elim) fun _ ofKernel => Or.inr (Or.inr ofKernel))
  exact grown.same rfl effect.change_record.2

/-- A creation gives a fresh page to the space. -/
theorem CreateEffect.balanced {directory : Nat}
    (effect : CreateEffect image held object system next directory pmm base)
    (inv : Accounted image held system) :
    BalancedFor object Owner.OfKernel held system held next := by
  obtain ⟨cleared, sameOwners⟩ := inv.owned.take_cleared effect.taken
  obtain ⟨owned, owners⟩ := effect.owned inv
  have taken : Balanced (Owner.BelongsTo object) Owner.OfKernel system.spaces held system.machine
      system.spaces (insert directory held)
      { system.machine with pmm := pmm, memory := system.machine.memory.clearPage directory } :=
    ((Balanced.refl _ _ _ _ _).take effect.taken).same rfl sameOwners
  have kept : SharedKept system.spaces ∅ system.machine
      { system.machine with pmm := pmm, memory := system.machine.memory.clearPage directory } :=
    inv.owned.cleared_shared_kept effect.taken
  have grown := taken.trans ((effect.beneath.supply (inv.shown kept.toDirectoriesKept)).balanced.weaken
    (fun _ => False.elim) fun _ => Or.inr)
  have absent : ownersOf system.spaces base (.directory object) = none := by
    simp only [ownersOf, ownedFrame, effect.absent inv, Option.map_none]
  have entered := grown.assign (Set.mem_insert directory held) absent (Or.inl rfl) rfl owners
  rw [Set.insert_sdiff_self_of_notMem (inv.owned.fresh_unheld effect.taken)] at entered
  have isDirectory := effect.directory_of_new
  have synced := (owned.sync isDirectory).2
  rw [← effect.machine] at synced
  exact entered.same (by rw [effect.machine]; rfl) synced

/-- A page that was taken and given back. -/
theorem TakenBack.balanced (back : TakenBack system.machine.pmm pmm)
    (inv : Accounted image held system) (mine common : Owner → Prop) :
    Balanced mine common system.spaces held system.machine system.spaces held
      { system.machine with pmm := pmm } := by
  rcases back with rfl | ⟨page, middle, taken, freed⟩
  · exact Balanced.refl _ _ _ _ _
  · have taken' : Balanced mine common system.spaces held system.machine system.spaces
        (insert page held) { system.machine with pmm := middle } :=
      (Balanced.refl _ _ _ _ _).take taken
    have returned := taken'.give_back (Set.mem_insert page held) taken.allocatable freed
    rwa [Set.insert_sdiff_self_of_notMem (inv.owned.fresh_unheld taken)] at returned

/-! ## Regions -/

/-- `map_user_page` keeps the accounts and loses no page. -/
theorem map_user_page_work (inv : Accounted image held system)
    (isSpace : (system.spaces object).isSome) (virtualAddr : Nat) :
    (mapUserPage (some object) virtualAddr system).Sat fun _ next =>
      Accounted image held next ∧ UserWork object system next ∧
        AddedFor object held system held next := by
  obtain ⟨record, isRecord⟩ := Option.isSome_iff_exists.mp isSpace
  refine (map_user_page_sat inv isRecord virtualAddr).mono ?_
  rintro result next (⟨-, -, inv', pmm, rfl, back⟩ | ⟨-, page, pmm, table, node, base, taken, effect⟩)
  · exact ⟨inv', UserWork.with_pmm object system pmm, back.balanced inv _ _⟩
  · have heldInv := inv.take taken
    have isHeld : page ∈ insert page held := Set.mem_insert page held
    have entered := effect.accounted heldInv isHeld
    have mapped := ((Balanced.refl _ _ _ _ _).take taken).trans (effect.added heldInv isHeld)
    rw [Set.insert_sdiff_self_of_notMem (inv.owned.fresh_unheld taken)] at entered mapped
    exact ⟨entered, (UserWork.with_pmm object system pmm).trans (effect.user_work heldInv isHeld), mapped⟩

/-- The loop over the pages of a region keeps the accounts and loses no page.

Proof: by induction on the number of pages left. -/
theorem map_user_pages_work (remaining addr : Nat)
    (inv : Accounted image held system) (isSpace : (system.spaces object).isSome) :
    (mapUserPagesFrom (some object) remaining addr system).Sat fun _ next =>
      Accounted image held next ∧ UserWork object system next ∧
        AddedFor object held system held next := by
  induction remaining generalizing system addr with
  | zero => exact ⟨inv, UserWork.refl object system, Balanced.refl _ _ _ _ _⟩
  | succ remaining ih =>
    refine (map_user_page_work inv isSpace addr).andThen ?_
    rintro result middle ⟨middleInv, work, balanced⟩
    rw [ite_run]
    split
    · exact ⟨middleInv, work, balanced⟩
    · refine (ih (addr + pmmPageSize) middleInv (work.is_some isSpace)).mono ?_
      rintro result next ⟨nextInv, rest, balanced'⟩
      exact ⟨nextInv, work.trans rest, balanced.trans balanced'⟩

/-- `process_map_user_region` keeps the accounts and loses no page. -/
theorem process_map_user_region_work (inv : Accounted image held system)
    (isSpace : (system.spaces object).isSome) (virtualAddr sizeBytes : Nat) :
    (processMapUserRegion (some object) virtualAddr sizeBytes system).Sat fun _ next =>
      Accounted image held next ∧ UserWork object system next ∧
        AddedFor object held system held next := by
  rw [processMapUserRegion, ite_run]
  split
  · exact ⟨inv, UserWork.refl object system, Balanced.refl _ _ _ _ _⟩
  · rw [ite_run]
    split
    · exact ⟨inv, UserWork.refl object system, Balanced.refl _ _ _ _ _⟩
    · exact map_user_pages_work _ _ inv isSpace

end Toyix.Paging
