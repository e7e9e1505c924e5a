import Toyix.Paging.Bookkeeping

/-!
# The kernel's entries in the loaded directory

A process directory holds copies of the kernel's entries. They are refreshed when the
directory is made and when it is loaded. When a kernel mapping opens a new table while
a process directory is loaded, the copy is stale until the next switch: the mapping
succeeds, and the loaded directory does not have it.

As long as `vmm_map_page` is not called for a shared page without a table while a process
is current, the loaded directory always agrees with the kernel's. The heap maps its pages
with the same function; a page of it whose table is new is not there while a process is
current, so that no call of the heap returns after it opened a table then.
-/

namespace Toyix.Paging

open Library Pmm

variable {image : Image} {system next : MemorySystem}

/-- The directory of the current space agrees with the kernel's on shared entries. -/
def SharedCurrent (system : MemorySystem) : Prop :=
  ∀ record, system.lookup system.currentSpace = some record → ∀ index, SharedIndex index →
    system.machine.memory.word record.pageDirectory index =
      system.machine.memory.word system.machine.kernelDirectory index

instance (machine : Machine) (op : MemoryOp) : Decidable (op.OpensShared machine) :=
  match op with
  | .kernelMap _ _ _ => inferInstanceAs (Decidable (_ ∧ _))
  | .kmalloc _ | .kfree _ | .allocPage | .freePage _ | .kernelUnmap _ | .create | .switch _
  | .mapPage _ _ _ _ | .unmapPage _ _ | .mapUserPage _ _ | .mapUserRegion _ _ _ | .destroy _ =>
    inferInstanceAs (Decidable False)

/-- A proper call that is no kernel mapping which opens a table in the shared range, unless the
kernel's own space is current. -/
def Refreshing (system : MemorySystem) (op : MemoryOp) : Prop :=
  Proper system op ∧ (system.currentSpace = none ∨ ¬ op.OpensShared system.machine)

instance (system : MemorySystem) (op : MemoryOp) : Decidable (Refreshing system op) :=
  inferInstanceAs (Decidable (_ ∧ (_ ∨ _)))

/-! ## One step -/

/-- The kernel's own directory agrees with itself. -/
theorem Accounted.shared_current {held : Set Nat} (inv : Accounted image held system)
    (isKernel : system.currentSpace = none) : SharedCurrent system := by
  intro record isRecord index _
  rw [isKernel] at isRecord
  obtain rfl : system.kernelSpace = record := Option.some.inj isRecord
  rw [inv.kernelSpace.1]

/-- Agreement carries over when neither directory changes in the shared range. -/
theorem SharedCurrent.carry (agrees : SharedCurrent system) {object : Nat}
    (wasCurrent : system.currentSpace = some object) (isCurrent : next.currentSpace = some object)
    (sameDirectory : (next.spaces object).map AddressSpace.pageDirectory =
      (system.spaces object).map AddressSpace.pageDirectory)
    (words : ∀ directory, (system.spaces object).map AddressSpace.pageDirectory = some directory →
      ∀ index, SharedIndex index →
        next.machine.memory.word directory index = system.machine.memory.word directory index)
    (kernelDirectory : next.machine.kernelDirectory = system.machine.kernelDirectory)
    (kernelWords : ∀ index, SharedIndex index →
      next.machine.memory.word system.machine.kernelDirectory index =
        system.machine.memory.word system.machine.kernelDirectory index) : SharedCurrent next := by
  intro record isRecord index isShared
  rw [isCurrent] at isRecord
  have isRecord : next.spaces object = some record := isRecord
  rw [isRecord] at sameDirectory
  obtain ⟨before, isBefore, same⟩ := Option.map_eq_some_iff.mp sameDirectory.symm
  have agreed := agrees before (by rw [wasCurrent]; exact isBefore) index isShared
  rw [same] at agreed
  rw [words record.pageDirectory sameDirectory.symm index isShared, agreed, kernelDirectory,
    kernelWords index isShared]

/-- The directory of a process is not the kernel's. -/
theorem Accounted.process_loaded {held : Set Nat} (inv : Accounted image held system)
    {object : Nat} (isCurrent : system.currentSpace = some object) :
    system.machine.cr3 ≠ system.machine.kernelDirectory := by
  obtain ⟨record, -, loaded, isDirectory⟩ := inv.loaded_directory
  rw [isCurrent] at isDirectory
  rw [loaded]
  intro same
  rw [same] at isDirectory
  exact Option.some_ne_none object (inv.owned.directory_unique isDirectory rfl)

/-- A call under the condition keeps the agreement.

Proof: a switch copies the entries of the directory that it loads. Every other call
leaves the shared entries of all existing directories alone, and when a process is
current the kernel's as well. -/
theorem Moved.shared_current {op : MemoryOp} (moved : Moved image op system next)
    (inv : Accounted image system.held system) (nextInv : Accounted image next.held next)
    (agrees : SharedCurrent system)
    (unopened : system.currentSpace = none ∨ ¬ op.OpensShared system.machine) :
    SharedCurrent next := by
  have shown := inv.shown (SharedKept.refl system.spaces ∅ system.machine).toDirectoriesKept
  cases moved with
  | worked touched works _ steady =>
    cases isCurrent : system.currentSpace with
    | none => exact nextInv.shared_current (works.currentSpace.trans isCurrent)
    | some object =>
      apply agrees.carry isCurrent (works.currentSpace.trans isCurrent)
      · exact works.directories object
      · intro directory isDirectory index isShared
        exact works.kept.words object directory isDirectory index isShared.lt fun _ => isShared
      · exact works.kept.directory
      · refine steady (unopened.resolve_left fun isKernel => ?_) shown (inv.process_loaded isCurrent)
        rw [isKernel] at isCurrent
        cases isCurrent
  | created object directory pmm base effect =>
    cases isCurrent : system.currentSpace with
    | none => exact nextInv.shared_current (effect.currentSpace.trans isCurrent)
    | some current =>
      have absent := effect.absent inv
      obtain ⟨owned, -⟩ := effect.owned inv
      have kept : SharedKept system.spaces ∅ system.machine base := effect.shared_kept inv
      have isNew := effect.directory_of_new
      have loaded := inv.current
      rw [isCurrent] at loaded
      obtain ⟨record, isRecord, -⟩ := Option.map_eq_some_iff.mp loaded
      have isRecord : system.spaces current = some record := isRecord
      have different : current ≠ object := by
        rintro rfl
        rw [absent] at isRecord
        simp at isRecord
      apply agrees.carry isCurrent (effect.currentSpace.trans isCurrent)
      · rw [effect.spaces, Function.update_of_ne different]
      · intro existing isExisting index isShared
        have isOld : directoryOf next.spaces base.kernelDirectory (some current) = some existing := by
          rw [effect.spaces, directoryOf, Function.update_of_ne different]
          exact isExisting
        rw [effect.machine, owned.synced_word isNew (owned.directory_aligned isOld)
          isShared.lt, if_neg]
        · exact kept.words current existing isExisting index isShared.lt fun touched => touched.elim
        · rintro ⟨rfl, -⟩
          exact different (Option.some.inj (owned.directory_unique isOld isNew))
      · rw [effect.machine]
        exact kept.directory
      · intro index isShared
        rw [effect.machine, ← kept.steady shown (inv.process_loaded isCurrent) index isShared.lt,
          ← kept.directory]
        exact owned.synced_kernel_word isNew isShared.lt
  | switched space record isSpace isNext =>
    subst isNext
    cases space with
    | none => exact nextInv.shared_current rfl
    | some object =>
      intro loaded isLoaded index isShared
      obtain rfl : record = loaded := Option.some.inj (isSpace.symm.trans isLoaded)
      have isDirectory := directory_of_space system.machine.kernelDirectory
        (show system.spaces object = some record from isSpace)
      have copied := inv.owned.synced_word isDirectory
        (inv.owned.directory_aligned isDirectory) isShared.lt
      rw [if_pos ⟨rfl, isShared⟩] at copied
      exact copied.trans (inv.owned.synced_kernel_word isDirectory isShared.lt).symm
  | destroyed object gone =>
    have currentSpace := gone.currentSpace
    cases isCurrent : system.currentSpace with
    | none =>
      refine nextInv.shared_current ?_
      rw [currentSpace, isCurrent]
      exact if_neg (Option.some_ne_none object).symm
    | some current =>
      by_cases same : current = object
      · refine nextInv.shared_current ?_
        rw [currentSpace, isCurrent, same]
        exact if_pos rfl
      · have stays : next.currentSpace = some current := by
          rw [currentSpace, isCurrent]
          exact if_neg fun equal => same (Option.some.inj equal)
        apply agrees.carry isCurrent stays
        · rw [gone.others current same]
        · intro directory isDirectory index isShared
          exact gone.shared.words current directory isDirectory index isShared.lt fun _ => isShared
        · exact gone.shared.directory
        · intro index isShared
          have nextLoaded := nextInv.process_loaded stays
          rw [gone.shared.directory] at nextLoaded
          obtain ⟨record, isRecord, loaded, -⟩ := nextInv.loaded_directory
          rw [stays] at isRecord
          have isRecord : next.spaces current = some record := isRecord
          rw [gone.others current same] at isRecord
          refine gone.shared.steady (shown_of_shared ⟨some current, ?_⟩ inv.shared) nextLoaded index
            isShared.lt
          show directoryOf system.spaces _ (some current) = some next.machine.cr3
          rw [loaded]
          exact directory_of_space _ isRecord

/-! ## Kernel mappings that the loaded directory has -/

/-- A successful `vmm_map_page` is visible in the loaded directory when its table was
there before, or the kernel's own directory is loaded and there is memory for a
table. -/
theorem vmm_map_page_visible {held : Set Nat} (inv : Accounted image held system)
    (agrees : SharedCurrent system) {virtualAddr physicalAddr flags : Nat} {machine : Machine}
    (high : 0xC0000000 ≤ virtualAddr) (bounded : virtualAddr < 2 ^ 32)
    (physicalBounded : physicalAddr < 2 ^ 32)
    (returned : vmmMapPage virtualAddr physicalAddr flags system.machine = (vmmOk, machine))
    (available : TableAvailable virtualAddr system.machine)
    (noNewTable : system.currentSpace = none ∨ isPresent (system.machine.memory.word
      system.machine.kernelDirectory (directoryIndex virtualAddr)) = true) :
    Maps machine.memory machine.cr3 virtualAddr physicalAddr := by
  have index := directory_index_eq virtualAddr
  have inRange : TableRange none (directoryIndex virtualAddr) := ⟨by omega, by omega⟩
  have isShared : SharedIndex (directoryIndex virtualAddr) := Or.inr ⟨by omega, by omega⟩
  have aligned : virtualAddr % 4096 = 0 ∧ physicalAddr % 4096 = 0 := by
    by_contra unaligned
    rw [vmm_map_page_unaligned flags system.machine unaligned] at returned
    exact absurd (Prod.mk.inj returned).1 (by decide)
  obtain ⟨table, base, ready, mapped⟩ := vmm_map_page_cases flags system.machine aligned.1 aligned.2
  have notNull := ready.not_null inv.owned inRange available
  obtain ⟨baseOwned, tableOwned, -⟩ := ready.owned inv.owned inRange rfl
    (kernel_table_flags_odd flags)
  obtain ⟨record, isRecord, isLoaded, isDirectory⟩ := inv.loaded_directory
  -- The loaded directory enters the table that the mapping used.
  have entered : tableOf base.memory record.pageDirectory (directoryIndex virtualAddr) = some table ∧
      base.cr3 = record.pageDirectory ∧
      directoryOf system.spaces base.kernelDirectory system.currentSpace = some record.pageDirectory := by
    cases ready with
    | found found =>
      refine ⟨?_, isLoaded, isDirectory⟩
      rw [← found, tableOf, tableOf, agrees record isRecord _ isShared]
    | missing absent => exact absurd rfl notNull
    | opened absent taken below =>
      rcases noNewTable with isKernel | present
      · have sameDirectory : record.pageDirectory = system.machine.kernelDirectory := by
          rw [isKernel] at isDirectory
          exact (Option.some.inj isDirectory).symm
        have owns := (table_owner rfl inRange).symm.trans (tableOwned notNull)
        rw [sameDirectory]
        refine ⟨owns, isLoaded.trans sameDirectory, ?_⟩
        rw [isKernel]
        rfl
      · rw [absent] at present
        simp at present
  rcases mapped with ⟨-, refused⟩ | ⟨-, stored⟩
  · exact absurd (Prod.mk.inj (refused.symm.trans returned)).1 (by decide)
  · obtain ⟨-, rfl⟩ := Prod.mk.inj (stored.symm.trans returned)
    obtain ⟨refers, entryBounded⟩ := map_entry_made flags aligned.2 physicalBounded
    have tableAligned := (baseOwned.permitted (tableOwned notNull)).aligned
    have sameWord := baseOwned.table_store_keeps_directory (tableOwned notNull)
      system.currentSpace entered.2.2 (table_index_lt virtualAddr) entryBounded
      (directoryIndex virtualAddr) inRange.lt
    have stillEntered := (table_of_congr sameWord).trans entered.1
    have slot : (base.memory.setWord table (tableIndex virtualAddr) (mapEntry physicalAddr flags)).word
        table (tableIndex virtualAddr) = mapEntry physicalAddr flags := by
      rw [Memory.word_setWord _ tableAligned tableAligned (table_index_lt _) (table_index_lt _)
        entryBounded, if_pos ⟨rfl, rfl⟩]
    have translated : pageOf (base.memory.setWord table (tableIndex virtualAddr)
        (mapEntry physicalAddr flags)) record.pageDirectory (directoryIndex virtualAddr)
        (tableIndex virtualAddr) = some physicalAddr := by
      rw [pageOf, show tableOf (base.memory.setWord table (tableIndex virtualAddr)
        (mapEntry physicalAddr flags)) record.pageDirectory (directoryIndex virtualAddr) = some table
        from stillEntered, Option.bind_some, slot]
      exact refers
    rw [← page_entry_of_page] at translated
    rw [Machine.mapped_cr3, Machine.mapped_memory, entered.2.1]
    exact entry_page_eq_some.mp translated

/-! ## Runs -/

/-- In every run that opens no shared table by a kernel mapping while a process is current, the
loaded directory agrees with the kernel's on shared entries, and kernel mappings that succeed and
for which there is a table are visible in it. -/
theorem shared_entries_current (reached : MemoryReachable image Refreshing system) :
    SharedCurrent system ∧
      ∀ virtualAddr physicalAddr flags machine, 0xC0000000 ≤ virtualAddr → virtualAddr < 2 ^ 32 →
        physicalAddr < 2 ^ 32 →
        vmmMapPage virtualAddr physicalAddr flags system.machine = (vmmOk, machine) →
        TableAvailable virtualAddr system.machine →
        (system.currentSpace = none ∨ isPresent (system.machine.memory.word
          system.machine.kernelDirectory (directoryIndex virtualAddr)) = true) →
        Maps machine.memory machine.cr3 virtualAddr physicalAddr := by
  obtain ⟨inv, agrees⟩ := reached.invariant (fun _ _ refreshing => refreshing.1) SharedCurrent
    (fun _ inv isKernel _ => inv.shared_current isKernel)
    fun _ _ _ inv agrees refreshing law =>
      law.moved.shared_current inv law.accounted agrees refreshing.2
  refine ⟨agrees, ?_⟩
  intro virtualAddr physicalAddr flags machine high bounded physicalBounded returned available noNewTable
  exact vmm_map_page_visible inv agrees high bounded physicalBounded returned available noNewTable

set_option maxRecDepth 100000 in
/-- A process is current; the kernel maps a page into a table from before, and the
process directory has it. -/
theorem old_table_shared : ∃ system machine, system.currentSpace = some 0xD1000018 ∧
    SharedCurrent system ∧
    vmmMapPage 0xD0001000 0x109000 x86PageWritable system.machine = (vmmOk, machine) ∧
    Maps machine.memory machine.cr3 0xD0001000 0x109000 := by
  have completed : (smallRun Refreshing
      [.create, .allocPage, .switch (some 0xD1000018), .kernelMap 0xD0000000 0x109000 2]).map
        (fun system => (system.currentSpace,
          (vmmMapPage 0xD0001000 0x109000 x86PageWritable system.machine).1,
          isPresent (system.machine.memory.word system.machine.kernelDirectory
            (directoryIndex 0xD0001000)))) =
      some (some 0xD1000018, vmmOk, true) := by
    decide +kernel
  obtain ⟨system, reached, facts⟩ := small_run_facts completed
  obtain ⟨isCurrent, facts⟩ := Prod.mk.inj facts
  obtain ⟨succeeded, present⟩ := Prod.mk.inj facts
  obtain ⟨agrees, visible⟩ := shared_entries_current reached
  have returned : vmmMapPage 0xD0001000 0x109000 x86PageWritable system.machine =
      (vmmOk, (vmmMapPage 0xD0001000 0x109000 x86PageWritable system.machine).2) :=
    Prod.ext succeeded rfl
  exact ⟨system, _, isCurrent, agrees, returned, visible 0xD0001000 0x109000 x86PageWritable _
    (by decide) (by decide) (by decide) returned (Or.inl present) (Or.inr present)⟩

/-- An entry of a process directory and the kernel's. -/
def sharedAt (object index : Nat) (system : MemorySystem) : Option (Nat × Nat) :=
  (system.spaces object).map fun record => (system.machine.memory.word record.pageDirectory index,
    system.machine.memory.word system.machine.kernelDirectory index)

/-- The entry of the loaded directory for an address. -/
def loadedEntry (virtualAddr : Nat) (machine : Machine) : Nat :=
  pageEntry machine.memory machine.cr3 virtualAddr

set_option maxRecDepth 100000 in
/-- A process is current; the kernel maps a page at 3 GiB, where it has no table yet.
The call succeeds, and the process directory does not have the page. -/
theorem new_table_not_shared : ∃ system machine, MemoryReachable smallImage Proper system ∧
    vmmMapPage 0xC0000000 0x109000 x86PageWritable system.machine = (vmmOk, machine) ∧
    MemoryReachable smallImage Proper (system.withMachine machine) ∧
    ¬ SharedCurrent (system.withMachine machine) ∧
    ¬ Maps machine.memory machine.cr3 0xC0000000 0x109000 := by
  have completed : (smallRun Proper
      [.create, .allocPage, .switch (some 0xD1000018)]).map
        (fun system => (system.currentSpace,
          (vmmMapPage 0xC0000000 0x109000 x86PageWritable system.machine).1, sharedAt 0xD1000018 768
            (system.withMachine (vmmMapPage 0xC0000000 0x109000 x86PageWritable system.machine).2),
          loadedEntry 0xC0000000 (vmmMapPage 0xC0000000 0x109000 x86PageWritable system.machine).2)) =
      some (some 0xD1000018, vmmOk, some (0, 0x10A003), 0) := by
    decide +kernel
  obtain ⟨system, reached, facts⟩ := small_run_facts completed
  have isProper : Proper system (.kernelMap 0xC0000000 0x109000 2) :=
    (by decide : KernelAddress 0xC0000000)
  have mapped : memoryStep (.kernelMap 0xC0000000 0x109000 2) system = some (system.withMachine
    (vmmMapPage 0xC0000000 0x109000 x86PageWritable system.machine).2) := rfl
  obtain ⟨⟨result, machine⟩, isResult⟩ : ∃ result, result =
    vmmMapPage 0xC0000000 0x109000 x86PageWritable system.machine := ⟨_, rfl⟩
  rw [← isResult] at facts mapped
  obtain ⟨isCurrent, facts⟩ := Prod.mk.inj facts
  obtain ⟨rfl, facts⟩ := Prod.mk.inj facts
  obtain ⟨words, entry⟩ := Prod.mk.inj facts
  refine ⟨system, machine, reached, isResult.symm, ?_, ?_, ?_⟩
  · obtain ⟨initialPages, pmm, heapMemory, start, atLeastOne, atMost, started, run⟩ := reached
    exact ⟨initialPages, pmm, heapMemory, start, atLeastOne, atMost, started, run.step isProper mapped⟩
  · intro agrees
    obtain ⟨record, isSpace, words⟩ := Option.map_eq_some_iff.mp words
    obtain ⟨stale, opened⟩ := Prod.mk.inj words
    have isLoaded : (system.withMachine machine).lookup (system.withMachine machine).currentSpace =
        some record := by
      rw [show (system.withMachine machine).currentSpace = some 0xD1000018 from isCurrent]
      exact isSpace
    have same := agrees record isLoaded 768 (by decide)
    rw [stale, opened] at same
    exact absurd same (by decide)
  · rintro ⟨present, -⟩
    rw [show pageEntry machine.memory machine.cr3 0xC0000000 = 0 from entry] at present
    exact absurd present (by decide)

end Toyix.Paging
