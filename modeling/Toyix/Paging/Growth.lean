import Toyix.Paging.Balance

/-!
# Growing the heap

`heap_map_virtual_region` takes pages one by one and maps them; on a failure it
unmaps and frees the pages mapped so far. Between its calls it holds at most one
page. `Beneath` describes the machine at such a point: ownership is sound with that
page held, only the kernel's side differs from the machine at the start, and no page
was lost.
-/

namespace Toyix.Paging

open Library Pmm Function
open Heap hiding pmmInvalidPage pmmPageSize alignDownPage

variable {image : Image} {spaces : Nat → Option AddressSpace} {held kept : Set Nat}
  {start machine : Machine} {space : SpaceRef} {directory index flags table page virtualAddr : Nat}
  {base : Machine} {physicalAddr : Nat}

/-! ## A table for an entry -/

/-- The ways in which a table for a directory entry is obtained: it is there, there
is no page for it, or a fresh page was entered. -/
inductive TableReady (machine : Machine) (directory index flags : Nat) : Nat → Machine → Prop where
  | found {table : Nat} (entered : tableOf machine.memory directory index = some table) :
      TableReady machine directory index flags table machine
  | missing (absent : isPresent (machine.memory.word directory index) = false)
      (exhausted : freeBelow 4096 machine.pmm = 0) :
      TableReady machine directory index flags 0 machine
  | opened {table : Nat} {pmm : PmmState}
      (absent : isPresent (machine.memory.word directory index) = false)
      (taken : Takes machine.pmm pmm table) (below : table + 4096 ≤ 0x1000000) :
      TableReady machine directory index flags table (machine.opened pmm directory index table flags)

/-- There is a table for the address, or a free frame below 16 MiB for one. -/
def TableAvailable (virtualAddr : Nat) (machine : Machine) : Prop :=
  isPresent (machine.memory.word machine.kernelDirectory (directoryIndex virtualAddr)) = true ∨
    ∃ frame < 4096, 256 ≤ frame ∧ bitmapTest machine.pmm frame = false

/-- The flags with which `vmm.c` enters a table. -/
def kernelTableFlags (flags : Nat) : Nat :=
  x86PagePresent ||| x86PageWritable ||| (if flags &&& x86PageUser ≠ 0 then x86PageUser else 0)

/-- The flags with which `address_space.c` enters a table. -/
def spaceTableFlags (flags : Nat) : Nat :=
  x86PagePresent ||| x86PageWritable ||| toArchFlags flags

theorem kernel_table_flags_odd (flags : Nat) :
    kernelTableFlags flags < 4096 ∧ kernelTableFlags flags % 2 = 1 := by
  unfold kernelTableFlags
  split <;> decide

theorem space_table_flags_odd (flags : Nat) :
    spaceTableFlags flags < 4096 ∧ spaceTableFlags flags % 2 = 1 := by
  unfold spaceTableFlags toArchFlags
  split <;> split <;> decide

theorem get_or_create_table_ready (directory dirIndex flags : Nat) (machine : Machine) :
    TableReady machine directory dirIndex (spaceTableFlags flags)
      (getOrCreateTable directory dirIndex flags machine).1
      (getOrCreateTable directory dirIndex flags machine).2 := by
  unfold getOrCreateTable
  cases present : isPresent (machine.memory.word directory dirIndex) with
  | true =>
    simp only [present, ↓reduceIte]
    exact .found (table_of_eq_some.mpr ⟨present, rfl⟩)
  | false =>
    simp only [present, Bool.false_eq_true, ↓reduceIte]
    rcases pmm_alloc_page_below_cases (show pageTableBootstrapLimit = _ from rfl) machine.pmm with
      ⟨failed, exhausted⟩ | ⟨page, pmm, allocated, taken, below⟩
    · simp only [failed, pmmInvalidPage, ↓reduceIte]
      exact .missing present exhausted
    · have notNull : page ≠ pmmInvalidPage := by
        have low := taken.allocatable.2.1
        simp only [pmmInvalidPage]
        omega
      simp only [allocated, notNull, ↓reduceIte]
      exact .opened present taken below

/-- The two functions that obtain a table differ in the flags they are given. -/
theorem get_or_create_page_table_ready (dirIndex flags : Nat) (machine : Machine) :
    TableReady machine machine.kernelDirectory dirIndex (kernelTableFlags flags)
      (getOrCreatePageTable dirIndex flags machine).1
      (getOrCreatePageTable dirIndex flags machine).2 := by
  have ready := get_or_create_table_ready machine.kernelDirectory dirIndex
    (if flags &&& x86PageUser ≠ 0 then addressSpaceFlagUser else 0) machine
  unfold getOrCreatePageTable kernelTableFlags
  by_cases user : flags &&& x86PageUser ≠ 0
  · simp only [if_pos user] at ready ⊢
    exact ready
  · simp only [if_neg user] at ready ⊢
    exact ready

theorem table_available {pmm : PmmState} (taken : Takes machine.pmm pmm table)
    (below : table + 4096 ≤ 0x1000000) : TableAvailable virtualAddr machine := by
  have low := taken.allocatable.2.1
  exact Or.inr ⟨table / 4096, by omega, by omega, Bool.eq_false_iff.mpr taken.fresh⟩

theorem not_table_available (absent : isPresent (machine.memory.word machine.kernelDirectory
      (directoryIndex virtualAddr)) = false) (exhausted : freeBelow 4096 machine.pmm = 0) :
    ¬ TableAvailable virtualAddr machine := by
  rintro (present | ⟨frame, high, low, free⟩)
  · rw [absent] at present
    cases present
  · rw [(free_below_eq_zero 4096 machine.pmm).mp exhausted frame low high] at free
    cases free

section TableReady

variable (ready : TableReady machine directory index flags table base)

include ready

/-- Obtaining a table keeps the count of the frame allocator right. -/
theorem TableReady.remarked : Remarked machine.pmm base.pmm := by
  cases ready with
  | found entered => exact Remarked.refl _
  | missing absent => exact Remarked.refl _
  | opened absent taken below => exact taken.remarked

/-- Obtaining a table frees nothing. -/
theorem TableReady.used (used : FrameUsed machine.pmm page) : FrameUsed base.pmm page := by
  cases ready with
  | found entered => exact used
  | missing absent => exact used
  | opened absent taken below => exact (taken.used page).mpr (Or.inr used)

variable (inv : Owned image spaces held machine) (inRange : TableRange space index)
  (isDirectory : directoryOf spaces machine.kernelDirectory space = some directory)

include inv inRange isDirectory

/-- Obtaining a table fails without a trace, if there is no frame for it. -/
theorem TableReady.null (isNull : table = 0) :
    base = machine ∧ isPresent (machine.memory.word directory index) = false ∧
      freeBelow 4096 machine.pmm = 0 := by
  cases ready with
  | found entered =>
    have owns : ownersOf spaces machine _ = some table := (table_owner isDirectory inRange).trans entered
    exact absurd isNull (Nat.ne_of_gt (inv.permitted owns).pos)
  | missing absent exhausted => exact ⟨rfl, absent, exhausted⟩
  | opened absent taken below =>
    exact absurd isNull (Nat.ne_of_gt (inv.fresh_permitted taken).pos)

/-- Obtaining a table keeps ownership; a table that was obtained is owned. -/
theorem TableReady.owned (flagsOdd : flags < 4096 ∧ flags % 2 = 1) :
    Owned image spaces held base ∧
      (table ≠ 0 → ownersOf spaces base (.table space index) = some table) ∧
      ∀ owner, owner ≠ .table space index → ownersOf spaces base owner = ownersOf spaces machine owner := by
  cases ready with
  | found entered =>
    exact ⟨inv, fun _ => (table_owner isDirectory inRange).trans entered, fun _ _ => rfl⟩
  | missing absent => exact ⟨inv, fun notNull => absurd rfl notNull, fun _ _ => rfl⟩
  | opened absent taken below =>
    obtain ⟨openedInv, owners⟩ := inv.open_table inRange isDirectory absent taken flagsOdd.1
      flagsOdd.2
    refine ⟨openedInv, fun _ => ?_, fun owner different => ?_⟩
    · rw [owners, update_self]
    · rw [owners, update_of_ne different]

/-- Obtaining a table loses no page. -/
theorem TableReady.balanced {mine common : Owner → Prop} {spaces₀ : Nat → Option AddressSpace}
    {held₀ : Set Nat} (flagsOdd : flags < 4096 ∧ flags % 2 = 1)
    (entitled : mine (.table space index) ∨ common (.table space index))
    (balanced : Balanced mine common spaces₀ held₀ start spaces held machine) :
    Balanced mine common spaces₀ held₀ start spaces held base := by
  cases ready with
  | found entered => exact balanced
  | missing absent => exact balanced
  | opened absent taken below =>
    obtain ⟨-, owners⟩ := inv.open_table inRange isDirectory absent taken flagsOdd.1 flagsOdd.2
    have noTable : ownersOf spaces machine (.table space index) = none :=
      (table_owner isDirectory inRange).trans (table_of_eq_none.mpr absent)
    have assigned : Balanced mine common spaces₀ held₀ start spaces (insert table held \ {table})
        (machine.opened _ directory index table flags) :=
      (balanced.take taken).assign (Set.mem_insert table held) noTable entitled rfl owners
    rwa [Set.insert_sdiff_self_of_notMem (inv.fresh_unheld taken)] at assigned

/-- An entry found present was there before: a new table is clear. -/
theorem TableReady.present {slot : Nat} (flagsOdd : flags < 4096 ∧ flags % 2 = 1)
    (inSlot : slot < 1024)
    (present : isPresent (base.memory.word table slot) = true) :
    base = machine ∧ (table ≠ 0 → tableOf machine.memory directory index = some table) := by
  cases ready with
  | found entered => exact ⟨rfl, fun _ => entered⟩
  | missing absent => exact ⟨rfl, fun notNull => absurd rfl notNull⟩
  | opened absent taken below =>
    have aligned := taken.allocatable.1
    obtain ⟨-, -, bounded⟩ := entry_page_made aligned taken.allocatable.2.2 flagsOdd.1 flagsOdd.2
    have notDirectory : table ≠ directory := by
      rintro rfl
      have isHeld : table ∈ insert table held := Set.mem_insert _ _
      exact (inv.take taken).structural_unheld (Or.inl ⟨space, isDirectory⟩) isHeld
    simp only [Machine.opened] at present
    rw [Memory.word_setWord _ (inv.directory_aligned isDirectory) aligned inRange.lt inSlot
      bounded, if_neg (fun both => notDirectory both.1), Memory.word_clearPage _ aligned aligned inSlot,
      if_pos rfl] at present
    simp [isPresent] at present

/-- Obtaining a table changes the directory and the table only. -/
theorem TableReady.same_page (aligned : page % 4096 = 0) (notDirectory : page ≠ directory)
    (notTable : table ≠ 0 → page ≠ table) : machine.memory.SamePage base.memory page := by
  cases ready with
  | found entered => exact Memory.SamePage.refl _ _
  | missing absent => exact Memory.SamePage.refl _ _
  | opened absent taken below =>
    have notNull : table ≠ 0 := Nat.ne_of_gt (inv.fresh_permitted taken).pos
    exact (Memory.samePage_clearPage _ aligned taken.allocatable.1 (notTable notNull)).trans
      (Memory.samePage_setWord _ aligned (inv.directory_aligned isDirectory) inRange.lt
        notDirectory)

end TableReady

/-- The table that is obtained is not the null table if one is available. -/
theorem TableReady.not_null
    (ready : TableReady machine machine.kernelDirectory (directoryIndex virtualAddr) flags table base)
    (owned : Owned image spaces held machine) (inRange : TableRange none (directoryIndex virtualAddr))
    (available : TableAvailable virtualAddr machine) : table ≠ 0 := by
  intro isNull
  obtain ⟨-, absent, exhausted⟩ := ready.null owned inRange rfl isNull
  exact not_table_available absent exhausted available

/-- Where the entry is absent, no page was mapped before either. -/
theorem TableReady.page_absent
    (ready : TableReady machine directory (directoryIndex virtualAddr) flags table base)
    (isDirectory : directoryOf spaces machine.kernelDirectory space = some directory)
    (inRange : PageRange space virtualAddr)
    (absent : isPresent (base.memory.word table (tableIndex virtualAddr)) = false) :
    ownersOf spaces machine (.page space virtualAddr) = none := by
  simp only [ownersOf, ownedFrame, inRange, ↓reduceIte, isDirectory, Option.bind_some, pageOf]
  cases ready with
  | found entered =>
    rw [entered, Option.bind_some]
    exact entry_page_eq_none.mpr absent
  | missing noTable =>
    rw [table_of_eq_none.mpr noTable, Option.bind_none]
  | opened noTable taken below =>
    rw [table_of_eq_none.mpr noTable, Option.bind_none]

/-- The table of the kernel directory is obtained on the kernel's side. -/
theorem TableReady.kernel_side
    (ready : TableReady machine machine.kernelDirectory index flags table base)
    (inv : Owned image spaces held machine) (subset : kept ⊆ held)
    (inRange : TableRange none index) (flagsOdd : flags < 4096 ∧ flags % 2 = 1) :
    KernelSide spaces kept machine base ∧ (KernelBits machine → KernelBits base) ∧
      (table = 0 ∨ tableOf base.memory base.kernelDirectory index = some table) := by
  cases ready with
  | found entered => exact ⟨KernelSide.refl spaces kept machine, id, Or.inr entered⟩
  | missing absent => exact ⟨KernelSide.refl spaces kept machine, id, Or.inl rfl⟩
  | opened absent taken below =>
    obtain ⟨present, frame, bounded⟩ := entry_page_made taken.allocatable.1 taken.allocatable.2.2
      flagsOdd.1 flagsOdd.2
    refine ⟨inv.open_kernel_side subset inRange.lt absent taken bounded,
      inv.open_kernel_bits inRange taken flagsOdd.1 flagsOdd.2, Or.inr ?_⟩
    refine table_of_eq_some.mpr ?_
    have kernelAligned := inv.kernel_aligned
    simp only [Machine.opened]
    rw [Memory.word_setWord _ kernelAligned kernelAligned inRange.lt inRange.lt bounded,
      if_pos ⟨rfl, rfl⟩]
    exact ⟨present, frame⟩

/-! ## `vmm_map_page` and `vmm_unmap_page` -/

/-- The entry `vmm_map_page` stores. -/
def mapEntry (physicalAddr flags : Nat) : Nat :=
  (physicalAddr &&& x86PageFrameMask) ||| (flags &&& x86PageFlagsMask) ||| x86PagePresent

theorem map_entry_made (flags : Nat) (aligned : physicalAddr % 4096 = 0)
    (bounded : physicalAddr < 2 ^ 32) :
    entryPage (mapEntry physicalAddr flags) = some physicalAddr ∧
      mapEntry physicalAddr flags < 2 ^ 32 := by
  have small : (flags &&& x86PageFlagsMask) ||| x86PagePresent < 4096 := by
    refine Nat.or_lt_two_pow (n := 12) ?_ (by decide)
    exact Nat.lt_of_le_of_lt Nat.and_le_right (by decide)
  have odd : ((flags &&& x86PageFlagsMask) ||| x86PagePresent) % 2 = 1 := by
    rw [Nat.or_mod_two_eq_one]
    exact Or.inr (by decide)
  obtain ⟨present, frame, total⟩ := entry_page_made aligned bounded small odd
  rw [mapEntry, Nat.or_assoc]
  exact ⟨entry_page_eq_some.mpr ⟨present, frame⟩, total⟩

/-- The machine once `vmm_map_page` has stored its entry in a table. -/
def Machine.mapped (machine : Machine) (table virtualAddr physicalAddr flags : Nat) : Machine :=
  { machine.stored table (tableIndex virtualAddr) (mapEntry physicalAddr flags) with
    mappedPageCount := (machine.mappedPageCount + 1) % 2 ^ 32 }

@[simp] theorem Machine.mapped_memory (machine : Machine) (table virtualAddr physicalAddr flags : Nat) :
    (machine.mapped table virtualAddr physicalAddr flags).memory =
      machine.memory.setWord table (tableIndex virtualAddr) (mapEntry physicalAddr flags) := rfl

@[simp] theorem Machine.mapped_directory (machine : Machine)
    (table virtualAddr physicalAddr flags : Nat) :
    (machine.mapped table virtualAddr physicalAddr flags).kernelDirectory = machine.kernelDirectory := rfl

@[simp] theorem Machine.mapped_cr3 (machine : Machine) (table virtualAddr physicalAddr flags : Nat) :
    (machine.mapped table virtualAddr physicalAddr flags).cr3 = machine.cr3 := rfl

/-- The entry of a writable kernel page does not carry the user bit. -/
theorem map_entry_plain (aligned : physicalAddr % 4096 = 0) (bounded : physicalAddr < 2 ^ 32) :
    isUser (mapEntry physicalAddr x86PageWritable) = false := by
  have made : mapEntry physicalAddr x86PageWritable = physicalAddr + 3 := by
    rw [mapEntry, Nat.or_assoc]
    exact entry_eq_add aligned bounded (by decide)
  rw [Bool.eq_false_iff, Ne, is_user_iff, made]
  omega

/-- `vmm_map_page` refuses addresses that are not page aligned. -/
theorem vmm_map_page_unaligned (flags : Nat) (machine : Machine)
    (unaligned : ¬ (virtualAddr % 4096 = 0 ∧ physicalAddr % 4096 = 0)) :
    vmmMapPage virtualAddr physicalAddr flags machine = (vmmErrInvalid, machine) := by
  have refused : isPageAligned virtualAddr = false ∨ isPageAligned physicalAddr = false := by
    rw [Bool.eq_false_iff, Bool.eq_false_iff, Ne, Ne, is_page_aligned_iff, is_page_aligned_iff]
    omega
  simp only [vmmMapPage, refused, ↓reduceIte]

theorem vmm_unmap_page_unaligned (machine : Machine) (unaligned : virtualAddr % 4096 ≠ 0) :
    vmmUnmapPage virtualAddr machine = (vmmErrInvalid, machine) := by
  have refused : isPageAligned virtualAddr = false := by
    rw [Bool.eq_false_iff, Ne, is_page_aligned_iff]
    exact unaligned
  simp only [vmmUnmapPage, refused, ↓reduceIte]

/-- `vmm_map_page` obtains a table; it then finds the entry present, or stores it. -/
theorem vmm_map_page_cases (flags : Nat) (machine : Machine) (aligned : virtualAddr % 4096 = 0)
    (aligned' : physicalAddr % 4096 = 0) :
    ∃ table base, TableReady machine machine.kernelDirectory (directoryIndex virtualAddr)
        (kernelTableFlags flags) table base ∧
      ((isPresent (base.memory.word table (tableIndex virtualAddr)) = true ∧
          vmmMapPage virtualAddr physicalAddr flags machine = (vmmErrAlreadyMapped, base)) ∨
        (isPresent (base.memory.word table (tableIndex virtualAddr)) = false ∧
          vmmMapPage virtualAddr physicalAddr flags machine =
            (vmmOk, base.mapped table virtualAddr physicalAddr flags))) := by
  have pages : ¬ (isPageAligned virtualAddr = false ∨ isPageAligned physicalAddr = false) := by
    simp [(is_page_aligned_iff virtualAddr).mpr aligned, (is_page_aligned_iff physicalAddr).mpr aligned']
  have ready := get_or_create_page_table_ready (directoryIndex virtualAddr) flags machine
  unfold vmmMapPage
  simp only [pages, ↓reduceIte]
  generalize getOrCreatePageTable (directoryIndex virtualAddr) flags machine = obtained at ready ⊢
  obtain ⟨table, base⟩ := obtained
  refine ⟨table, base, ready, ?_⟩
  cases isPresent (base.memory.word table (tableIndex virtualAddr)) with
  | true =>
    simp only [↓reduceIte, true_and]
    exact Or.inl trivial
  | false =>
    simp only [Bool.false_eq_true, ↓reduceIte, true_and]
    exact Or.inr rfl

/-- `vmm_unmap_page` clears an entry that is present. -/
theorem vmm_unmap_page_cases (machine : Machine) (aligned : virtualAddr % 4096 = 0) :
    (pageOf machine.memory machine.kernelDirectory (directoryIndex virtualAddr)
          (tableIndex virtualAddr) = none ∧
        vmmUnmapPage virtualAddr machine = (vmmErrNotMapped, machine)) ∨
      ∃ table physical count,
        tableOf machine.memory machine.kernelDirectory (directoryIndex virtualAddr) = some table ∧
        pageOf machine.memory machine.kernelDirectory (directoryIndex virtualAddr)
          (tableIndex virtualAddr) = some physical ∧
        vmmUnmapPage virtualAddr machine = (vmmOk, { machine with
          memory := machine.memory.setWord table (tableIndex virtualAddr) 0
          mappedPageCount := count }) := by
  unfold vmmUnmapPage pageOf
  simp only [(is_page_aligned_iff virtualAddr).mpr aligned, Bool.true_eq_false, ↓reduceIte]
  cases entered : tableOf machine.memory machine.kernelDirectory (directoryIndex virtualAddr) with
  | none =>
    have absent := table_of_eq_none.mp entered
    simp only [absent, ↓reduceIte, Option.bind_none, true_and]
    exact Or.inl trivial
  | some table =>
    obtain ⟨present, rfl⟩ := table_of_eq_some.mp entered
    simp only [present, Bool.true_eq_false, ↓reduceIte, Option.bind_some]
    cases mapped : entryPage (machine.memory.word
        (tableFromPde (machine.memory.word machine.kernelDirectory (directoryIndex virtualAddr)))
        (tableIndex virtualAddr)) with
    | none =>
      simp only [entry_page_eq_none.mp mapped, ↓reduceIte, true_and]
      exact Or.inl trivial
    | some physical =>
      simp only [(entry_page_eq_some.mp mapped).1, Bool.true_eq_false, ↓reduceIte]
      exact Or.inr ⟨_, physical, _, rfl, rfl, rfl⟩

/-- Ownership does not depend on the counter of mapped pages. -/
theorem Owned.count (inv : Owned image spaces held machine) (count : Nat) :
    Owned image spaces held { machine with mappedPageCount := count } :=
  ⟨inv.kernelDirectory, inv.reserved, inv.directories, inv.identity, inv.sound⟩

/-! ## The heap's calls -/

/-- The loaded directory is the kernel's, or that of a process which shows no more of the
kernel's half than the kernel's directory does. -/
def Shown (spaces : Nat → Option AddressSpace) (machine : Machine) : Prop :=
  machine.cr3 = machine.kernelDirectory ∨
    ∃ object, directoryOf spaces machine.kernelDirectory (some object) = some machine.cr3 ∧
      ∀ index, 768 ≤ index → index < 1024 →
        isPresent (machine.memory.word machine.cr3 index) = true →
        isPresent (machine.memory.word machine.kernelDirectory index) = true

/-- No page was lost, and all pages other than the kernel directory and the kernel's tables
are as they were. So is the kernel directory while that of a process is loaded: a page whose table was
opened then is not there, and the heap faults on it. -/
structure Supplied (spaces : Nat → Option AddressSpace) (kept : Set Nat) (start : Machine)
    (held : Set Nat) (machine : Machine) : Prop where
  balanced : Balanced (fun _ => False) Owner.OfKernel spaces kept start spaces held machine
  quiet : ∀ page, page % 4096 = 0 → page ≠ machine.kernelDirectory →
    (∀ index, ownersOf spaces machine (.table none index) ≠ some page) →
    start.memory.SamePage machine.memory page
  steady : start.cr3 ≠ start.kernelDirectory → ∀ index < 1024,
    machine.memory.word start.kernelDirectory index = start.memory.word start.kernelDirectory index

/-- The machine between two calls of the heap. -/
structure Beneath (image : Image) (spaces : Nat → Option AddressSpace) (kept : Set Nat)
    (start : Machine) (held : Set Nat) (machine : Machine) : Prop where
  owned : Owned image spaces held machine
  side : KernelSide spaces kept start machine
  bits : KernelBits start → KernelBits machine
  supply : Shown spaces start → Supplied spaces kept start held machine

/-- Nothing has happened yet. -/
theorem Beneath.refl (owned : Owned image spaces kept start) :
    Beneath image spaces kept start kept start :=
  ⟨owned, KernelSide.refl _ _ _, id, fun _ =>
    ⟨Balanced.refl _ _ _ _ _, fun _ _ _ _ => Memory.SamePage.refl _ _, fun _ _ _ => rfl⟩⟩

/-- A step that changes only the kernel directory and tables that are the kernel's afterwards. -/
theorem Supplied.step {held' : Set Nat} {next : Machine}
    (supplied : Supplied spaces kept start held machine)
    (balanced : Balanced (fun _ => False) Owner.OfKernel spaces kept start spaces held' next)
    (sameKernel : next.kernelDirectory = machine.kernelDirectory)
    (tables : ∀ {index page}, ownersOf spaces machine (.table none index) = some page →
      ownersOf spaces next (.table none index) = some page)
    (same : ∀ page, page % 4096 = 0 → page ≠ machine.kernelDirectory →
      (∀ index, ownersOf spaces next (.table none index) ≠ some page) →
      machine.memory.SamePage next.memory page)
    (words : start.cr3 ≠ start.kernelDirectory → ∀ index < 1024,
      next.memory.word start.kernelDirectory index = machine.memory.word start.kernelDirectory index) :
    Supplied spaces kept start held' next := by
  refine ⟨balanced, ?_, fun isProcess index inside =>
    (words isProcess index inside).trans (supplied.steady isProcess index inside)⟩
  intro page aligned notKernel notTable
  rw [sameKernel] at notKernel
  refine (supplied.quiet page aligned notKernel ?_).trans (same page aligned notKernel notTable)
  intro index owns
  exact notTable index (tables owns)

/-- A store to a table of the kernel. -/
theorem Supplied.store {held' : Set Nat} {entry count : Nat} {frame : Option Nat}
    (supplied : Supplied spaces kept start held machine) (owned : Owned image spaces held machine)
    (directory : machine.kernelDirectory = start.kernelDirectory)
    (tableOwns : ownersOf spaces machine (.table none (directoryIndex virtualAddr)) = some table)
    (bounded : entry < 2 ^ 32)
    (owners : ownersOf spaces (machine.stored table (tableIndex virtualAddr) entry) =
      update (ownersOf spaces machine) (.page none virtualAddr) frame)
    (balanced : Balanced (fun _ => False) Owner.OfKernel spaces kept start spaces held'
      (machine.stored table (tableIndex virtualAddr) entry)) :
    Supplied spaces kept start held'
      { machine.stored table (tableIndex virtualAddr) entry with mappedPageCount := count } := by
  have tables : ∀ index, ownersOf spaces (machine.stored table (tableIndex virtualAddr) entry)
      (.table none index) = ownersOf spaces machine (.table none index) := by
    intro index
    rw [owners, update_of_ne Owner.noConfusion]
  refine supplied.step (balanced.same rfl rfl) rfl ?_ ?_ ?_
  · intro index other owns
    exact (tables index).trans owns
  · intro other aligned notKernel notTable
    refine Memory.samePage_setWord _ aligned (owned.permitted tableOwns).aligned
      (table_index_lt virtualAddr) ?_
    rintro rfl
    exact notTable _ ((tables _).trans tableOwns)
  · intro _ index inside
    rw [← directory]
    exact owned.table_store_keeps_directory tableOwns none rfl (table_index_lt virtualAddr) bounded
      index inside

/-- Where the kernel has no table, the loaded directory has none. -/
theorem Beneath.not_shown (beneath : Beneath image spaces kept start held machine)
    (inv : Owned image spaces kept start) (shown : Shown spaces start) (low : 768 ≤ index)
    (high : index < 1024)
    (absent : isPresent (machine.memory.word machine.kernelDirectory index) = false) :
    isPresent (machine.memory.word machine.cr3 index) = false := by
  rw [beneath.side.directory] at absent
  rw [beneath.side.cr3]
  rcases shown with isKernel | ⟨object, isDirectory, visible⟩
  · rw [isKernel]
    exact absent
  · have same := (beneath.side.bytes start.cr3
      (Or.inr ⟨.directory object, trivial, inv.directory_owner isDirectory⟩)).word high
    rw [same, Bool.eq_false_iff]
    intro present
    have entry := beneath.side.entries index high (visible index low high present)
    rw [entry, visible index low high present] at absent
    cases absent

/-- The heap takes a page. -/
theorem Beneath.alloc (inv : Owned image spaces kept start)
    (beneath : Beneath image spaces kept start kept machine) :
    kernelPages.pmmAllocPage machine = (0, machine) ∨
      ∃ page next, kernelPages.pmmAllocPage machine = (page, next) ∧ page ≠ 0 ∧ page ∉ kept ∧
        Beneath image spaces kept start (insert page kept) next := by
  simp only [kernelPages]
  rcases pmm_alloc_page_cases machine.pmm with ⟨failed, -⟩ | ⟨page, pmm, allocated, taken⟩
  · rw [failed]
    exact Or.inl rfl
  · rw [allocated]
    refine Or.inr ⟨page, _, rfl, ?_, beneath.owned.fresh_unheld taken, ?_⟩
    · exact Nat.ne_of_gt (beneath.owned.fresh_permitted taken).pos
    · refine ⟨beneath.owned.take taken,
        beneath.side.trans (KernelSide.of_same_memory _ _ rfl rfl rfl) inv, beneath.bits, ?_⟩
      intro shown
      have supplied := beneath.supply shown
      exact ⟨supplied.balanced.take taken, supplied.quiet, supplied.steady⟩

/-- The heap returns the page it holds. -/
theorem Beneath.free (inv : Owned image spaces kept start) (notKept : page ∉ kept)
    (beneath : Beneath image spaces kept start (insert page kept) machine) :
    ∃ next, kernelPages.pmmFreePage page machine = .ok next ∧
      Beneath image spaces kept start kept next := by
  obtain ⟨pmm, freed, owned⟩ := beneath.owned.give_back (Set.mem_insert page kept)
  have allocatable := (beneath.owned.sound.loose (Set.mem_insert page kept)).2.1
  rw [Set.insert_sdiff_self_of_notMem notKept] at owned
  refine ⟨{ machine with pmm := pmm }, ?_, owned, ?_, beneath.bits, ?_⟩
  · simp only [kernelPages, freed]
    rfl
  · exact beneath.side.trans (KernelSide.of_same_memory _ _ rfl rfl rfl) inv
  · intro shown
    have supplied := beneath.supply shown
    have balanced := supplied.balanced.give_back (Set.mem_insert page kept) allocatable freed
    rw [Set.insert_sdiff_self_of_notMem notKept] at balanced
    exact ⟨balanced, supplied.quiet, supplied.steady⟩

/-- The loaded directory is a directory of the system. -/
theorem Beneath.loaded_directory (beneath : Beneath image spaces kept start held machine)
    (shown : Shown spaces start) :
    ∃ space, directoryOf spaces machine.kernelDirectory space = some machine.cr3 := by
  rw [beneath.side.cr3, beneath.side.directory]
  rcases shown with isKernel | ⟨object, isDirectory, -⟩
  · exact ⟨none, congrArg some isKernel.symm⟩
  · exact ⟨some object, isDirectory⟩

/-- A page is not there if the loaded directory has no table for it. -/
theorem not_writable_of_absent
    (absent : isPresent (machine.memory.word machine.cr3 (directoryIndex virtualAddr)) = false) :
    kernelPages.pageWritable virtualAddr machine = false := by
  simp only [kernelPages, pageEntry, absent, ↓reduceIte]
  decide

/-- A page whose table is missing is not there as long as the loaded directory does not get one. -/
theorem Beneath.not_writable (beneath : Beneath image spaces kept start held machine)
    (inv : Owned image spaces kept start) (shown : Shown spaces start) {next : Machine}
    (inRange : PageRange none virtualAddr)
    (absent : isPresent (machine.memory.word machine.kernelDirectory (directoryIndex virtualAddr)) =
      false) (sameLoaded : next.cr3 = machine.cr3)
    (samePage : machine.memory.SamePage next.memory machine.cr3) :
    kernelPages.pageWritable virtualAddr next = false := by
  have range : 768 ≤ directoryIndex virtualAddr ∧ directoryIndex virtualAddr < 1024 := by
    obtain ⟨-, low, high⟩ := inRange
    rw [directory_index_eq]
    omega
  refine not_writable_of_absent ?_
  rw [sameLoaded, samePage.word range.2]
  exact beneath.not_shown inv shown range.1 range.2 absent

/-- The heap maps the page it holds.

Proof: a table is obtained, then the entry is stored. If there is no page for a
table, the entry is stored at address zero and the page is lost; the caller faults
when it clears the page. -/
theorem Beneath.map (inv : Owned image spaces kept start)
    (notKept : page ∉ kept) (inRange : PageRange none virtualAddr)
    (beneath : Beneath image spaces kept start (insert page kept) machine) :
    (vmemMapPage virtualAddr page vmemFlagWritable machine).1 = 0 ∧
        (Shown spaces start → ownersOf spaces start (.page none virtualAddr) = none) ∧
        (kernelPages.pageWritable virtualAddr
            (vmemMapPage virtualAddr page vmemFlagWritable machine).2 = true →
          Beneath image spaces kept start kept
            (vmemMapPage virtualAddr page vmemFlagWritable machine).2) ∨
      (vmemMapPage virtualAddr page vmemFlagWritable machine).1 ≠ 0 ∧
        Beneath image spaces kept start (insert page kept)
          (vmemMapPage virtualAddr page vmemFlagWritable machine).2 := by
  have permitted := (beneath.owned.sound.loose (Set.mem_insert page kept)).2
  have subset : kept ⊆ insert page kept := Set.subset_insert page kept
  have flagsEq : vmemToArchFlags vmemFlagWritable = x86PageWritable := by decide
  obtain ⟨table, base, ready, mapped⟩ := vmm_map_page_cases x86PageWritable machine inRange.aligned
    permitted.aligned
  obtain ⟨baseOwned, tableOwned, others⟩ := ready.owned beneath.owned inRange.table_range rfl
    (kernel_table_flags_odd _)
  obtain ⟨baseSide, baseBits, target⟩ := ready.kernel_side beneath.owned subset
    inRange.table_range (kernel_table_flags_odd _)
  have sideBefore := beneath.side.trans baseSide inv
  have baseSupply (shown : Shown spaces start) (words : start.cr3 ≠ start.kernelDirectory →
      ∀ index < 1024, base.memory.word start.kernelDirectory index =
        machine.memory.word start.kernelDirectory index) :
      Supplied spaces kept start (insert page kept) base := by
    have supplied := beneath.supply shown
    have opened : Balanced (fun _ => False) Owner.OfKernel spaces (insert page kept) machine spaces (insert page kept)
        base :=
      ready.balanced beneath.owned inRange.table_range rfl (kernel_table_flags_odd _)
        (Or.inr fun ofProcess => ofProcess rfl) (Balanced.refl _ _ _ _ _)
    refine supplied.step (supplied.balanced.trans opened) baseSide.directory ?_ ?_ words
    · intro index other owns
      exact (opened.kept owns).resolve_left id
    · intro other aligned notKernel notTable
      refine ready.same_page beneath.owned inRange.table_range rfl aligned notKernel ?_
      rintro notNull rfl
      exact notTable _ (tableOwned notNull)
  simp only [vmemMapPage, flagsEq]
  rcases mapped with ⟨present, refused⟩ | ⟨absent, stored⟩
  · have result : vmemFromArchResult vmmErrAlreadyMapped ≠ 0 := by decide
    rw [refused, (ready.present beneath.owned inRange.table_range rfl (kernel_table_flags_odd _)
      (table_index_lt virtualAddr) present).1]
    exact Or.inr ⟨result, beneath⟩
  · obtain ⟨refers, bounded⟩ := map_entry_made x86PageWritable permitted.aligned permitted.bounded
    have plain := map_entry_plain permitted.aligned permitted.bounded
    have targetCases : table = 0 ∨ ∃ index < 1024,
        tableOf base.memory base.kernelDirectory index = some table :=
      target.imp_right fun entered => ⟨_, inRange.table_range.lt, entered⟩
    have result : vmemFromArchResult vmmOk = 0 := by decide
    have notMapped : ownersOf spaces machine (.page none virtualAddr) = none :=
      ready.page_absent rfl inRange absent
    rw [stored]
    refine Or.inl ⟨result, ?_, fun writable => ⟨?_, ?_, ?_, ?_⟩⟩
    · intro shown
      rw [Option.eq_none_iff_forall_ne_some]
      intro other owns
      have still := ((beneath.supply shown).balanced.kept owns).resolve_left id
      exact Option.some_ne_none other (still.symm.trans notMapped)
    · refine (show Owned image spaces kept (base.stored table _ _) from ?_).count _
      by_cases null : table = 0
      · subst null
        have written := (baseOwned.write_page
          (base.memory.setWord 0 (tableIndex virtualAddr) (mapEntry page x86PageWritable)) rfl
          (fun isStructural => baseOwned.structural_ne_zero isStructural rfl)
          (fun x outside => Memory.setWord_byte _ (table_index_lt virtualAddr) outside)).1
        exact written.forget subset
      · have entered := (baseOwned.enter_page inRange (tableOwned null) bounded refers
          (Set.mem_insert page kept)).1
        rwa [Set.insert_sdiff_self_of_notMem notKept] at entered
    · refine (sideBefore.trans ?_ inv).trans (KernelSide.of_same_memory
        (base.stored table (tableIndex virtualAddr) (mapEntry page x86PageWritable)) _ rfl rfl rfl) inv
      exact baseOwned.store_kernel_side subset (table_index_lt virtualAddr) targetCases
    · intro before
      exact baseOwned.store_kernel_bits (table_index_lt virtualAddr) bounded targetCases plain
        (baseBits (beneath.bits before))
    · intro shown
      have isStructural : Structural spaces machine.kernelDirectory machine.memory machine.cr3 :=
        Or.inl (beneath.loaded_directory shown)
      have loadedAligned := beneath.owned.structural_aligned isStructural
      have notNull : table ≠ 0 := by
        rintro rfl
        cases ready with
        | found entered =>
          have owns := table_of_page inRange (show directoryOf spaces machine.kernelDirectory none =
            some machine.kernelDirectory from rfl) entered
          exact Nat.lt_irrefl _ (beneath.owned.permitted owns).pos
        | missing noTable =>
          rw [beneath.not_writable inv shown inRange noTable] at writable
          · cases writable
          · rfl
          · exact Memory.samePage_setWord machine.memory loadedAligned (Nat.zero_mod 4096)
              (table_index_lt virtualAddr) (beneath.owned.structural_ne_zero isStructural)
        | opened noTable taken below =>
          exact Nat.lt_irrefl _ (beneath.owned.fresh_permitted taken).pos
      have supplied := baseSupply shown fun isProcess index inside => by
        cases ready with
        | found entered => rfl
        | missing noTable => rfl
        | @opened table pmm noTable taken below =>
          -- The new table is in the kernel's directory only, so the page could not be written.
          have notTable : machine.cr3 ≠ table := by
            rintro rfl
            exact (beneath.owned.take taken).structural_unheld isStructural (Set.mem_insert _ _)
          have notKernel : machine.cr3 ≠ machine.kernelDirectory := by
            rw [beneath.side.cr3, beneath.side.directory]
            exact isProcess
          rw [beneath.not_writable inv shown inRange noTable] at writable
          · cases writable
          · rfl
          · exact ((Memory.samePage_clearPage _ loadedAligned taken.allocatable.1 notTable).trans
              (Memory.samePage_setWord _ loadedAligned beneath.owned.kernel_aligned
                inRange.table_range.lt notKernel)).trans
              (Memory.samePage_setWord _ loadedAligned taken.allocatable.1 (table_index_lt virtualAddr)
                notTable)
      obtain ⟨-, owners⟩ := baseOwned.enter_page inRange (tableOwned notNull) bounded refers
        (Set.mem_insert page kept)
      have absentBase : ownersOf spaces base (.page none virtualAddr) = none :=
        (others _ Owner.noConfusion).trans notMapped
      have entered : Balanced (fun _ => False) Owner.OfKernel spaces kept start spaces (insert page kept \ {page})
          (base.stored table (tableIndex virtualAddr) (mapEntry page x86PageWritable)) :=
        supplied.balanced.assign (Set.mem_insert page kept) absentBase
          (Or.inr fun ofProcess => ofProcess rfl) rfl owners
      rw [Set.insert_sdiff_self_of_notMem notKept] at entered
      exact supplied.store baseOwned sideBefore.directory (tableOwned notNull) bounded owners entered

/-- The heap unmaps one of its pages and then holds it. The page was not mapped at the start. -/
theorem Beneath.unmap (inv : Owned image spaces kept start)
    (inRange : PageRange none virtualAddr)
    (fresh : Shown spaces start → ownersOf spaces start (.page none virtualAddr) = none)
    (beneath : Beneath image spaces kept start kept machine) :
    vmmGetPhysical virtualAddr machine = 0 ∨
      ∃ page, Heap.alignDownPage (vmmGetPhysical virtualAddr machine) = page ∧ page ∉ kept ∧
        Beneath image spaces kept start (insert page kept) (vmemUnmapPage virtualAddr machine).2 := by
  have entryOf := page_entry_of_page machine.memory machine.kernelDirectory virtualAddr
  rcases vmm_unmap_page_cases machine inRange.aligned with
    ⟨unmapped, -⟩ | ⟨table, physical, count, entered, mapped, cleared⟩
  · rw [unmapped] at entryOf
    refine Or.inl ?_
    simp only [vmmGetPhysical, entry_page_eq_none.mp entryOf, ↓reduceIte]
  · rw [mapped] at entryOf
    obtain ⟨present, frame⟩ := entry_page_eq_some.mp entryOf
    have tableOwns : ownersOf spaces machine (.table none (directoryIndex virtualAddr)) = some table :=
      table_of_page inRange rfl entered
    have pageOwns : ownersOf spaces machine (.page none virtualAddr) = some physical :=
      (page_owner rfl inRange).trans entryOf
    obtain ⟨-, permitted, notKept⟩ := beneath.owned.sound.owned pageOwns
    have offset : virtualAddr &&& (x86PageSize - 1) = 0 :=
      (Nat.and_two_pow_sub_one_eq_mod virtualAddr 12).trans inRange.aligned
    have read : vmmGetPhysical virtualAddr machine = physical := by
      simp only [vmmGetPhysical, present, Bool.true_eq_false, ↓reduceIte, frame, offset, Nat.add_zero]
    have aligned : Heap.alignDownPage physical = physical := by
      have masked : physical &&& (2 ^ 32 - Heap.pmmPageSize) = physical / 2 ^ 12 * 2 ^ 12 :=
        land_high_mask physical 12 permitted.bounded (by decide)
      have whole := permitted.aligned
      rw [Heap.alignDownPage, masked]
      omega
    obtain ⟨removed, owners⟩ := beneath.owned.remove_page inRange tableOwns pageOwns
    refine Or.inr ⟨physical, by rw [read, aligned], notKept, ?_⟩
    simp only [vmemUnmapPage, cleared]
    have target : table = 0 ∨ ∃ index < 1024,
        tableOf machine.memory machine.kernelDirectory index = some table :=
      Or.inr ⟨_, inRange.table_range.lt, entered⟩
    refine ⟨?_, ?_, ?_, ?_⟩
    · refine (show Owned image spaces _ (machine.stored table (tableIndex virtualAddr) 0) from ?_).count _
      exact removed
    · refine (beneath.side.trans ?_ inv).trans (KernelSide.of_same_memory
        (machine.stored table (tableIndex virtualAddr) 0) _ rfl rfl rfl) inv
      exact beneath.owned.store_kernel_side (Set.Subset.refl kept) (table_index_lt virtualAddr) target
    · intro before
      exact beneath.owned.store_kernel_bits (table_index_lt virtualAddr) (by decide) target
        user_bit_zero (beneath.bits before)
    · intro shown
      have supplied := beneath.supply shown
      have released : Balanced (fun _ => False) Owner.OfKernel spaces kept start spaces (insert physical kept)
          (machine.stored table (tableIndex virtualAddr) 0) :=
        supplied.balanced.release beneath.owned pageOwns (Or.inr (fresh shown)) rfl owners
      exact supplied.store beneath.owned beneath.side.directory tableOwns (by decide) owners released

/-! ## Whole regions -/

/-- Pages of a region inside the window. -/
theorem region_page_range {first count i : Nat} (aligned : first % 4096 = 0)
    (low : heapVirtualBaseAddress ≤ first)
    (high : first + 4096 * count ≤ heapVirtualLimitAddress) (inside : i < count) :
    regionPage first i = first + 4096 * i ∧ PageRange none (regionPage first i) := by
  simp only [heapVirtualBaseAddress, heapVirtualLimitAddress] at low high
  have small : regionPage first i = first + 4096 * i := by
    simp only [regionPage, Heap.pmmPageSize]
    omega
  rw [small]
  exact ⟨rfl, by omega, by omega, by omega⟩

/-- The first pages of a region were not mapped at the start. -/
def FreshRegion (spaces : Nat → Option AddressSpace) (start : Machine) (first count : Nat) : Prop :=
  Shown spaces start → ∀ i < count, ownersOf spaces start (.page none (regionPage first i)) = none

theorem FreshRegion.next {first i : Nat} (fresh : FreshRegion spaces start first i)
    (unmapped : Shown spaces start →
      ownersOf spaces start (.page none (regionPage first i)) = none) :
    FreshRegion spaces start first (i + 1) := by
  intro shown j within
  rcases Nat.lt_succ_iff_lt_or_eq.mp within with before | rfl
  · exact fresh shown j before
  · exact unmapped shown

/-- The heap stays beneath its pages while a region is mapped or taken back. -/
theorem region_rule_beneath (inv : Owned image spaces kept start)
    {first count : Nat} (aligned : first % 4096 = 0) (low : heapVirtualBaseAddress ≤ first)
    (high : first + 4096 * count ≤ heapVirtualLimitAddress) :
    RegionRule kernelPages first count
      (fun i machine => FreshRegion spaces start first i ∧ Beneath image spaces kept start kept machine)
      (fun i page machine => FreshRegion spaces start first i ∧ page ∉ kept ∧
        Beneath image spaces kept start (insert page kept) machine)
      (fun _ i machine => FreshRegion spaces start first i ∧
        Beneath image spaces kept start kept machine) := by
  constructor
  · rintro i - machine ⟨fresh, beneath⟩ exhausted
    rcases beneath.alloc inv with failed | ⟨page, held, allocated, notNull, -⟩
    · rw [failed]
      exact ⟨fresh, beneath⟩
    · rw [allocated] at exhausted
      exact absurd exhausted notNull
  · rintro i - machine ⟨fresh, beneath⟩ found
    rcases beneath.alloc inv with failed | ⟨page, held, allocated, -, notKept, taken⟩
    · rw [failed] at found
      exact absurd rfl found
    · rw [allocated]
      exact ⟨fresh, notKept, taken⟩
  · rintro i inside page machine ⟨fresh, notKept, taken⟩ after accepted writable
    have inRange := (region_page_range aligned low high inside).2
    rcases taken.map inv notKept inRange with ⟨-, unmapped, grown⟩ | ⟨refused, -⟩
    · exact ⟨fresh.next unmapped, grown writable⟩
    · exact absurd accepted refused
  · rintro i inside page machine ⟨fresh, notKept, taken⟩ after refused
    have inRange := (region_page_range aligned low high inside).2
    rcases taken.map inv notKept inRange with ⟨accepted, -⟩ | ⟨-, still⟩
    · exact absurd accepted refused
    · obtain ⟨next, freed, beneath⟩ := still.free inv notKept
      exact ⟨next, freed, fresh, beneath⟩
  · rintro i - j - machine holds -
    exact holds
  · rintro i inside j before machine ⟨fresh, beneath⟩ present
    have inRange := (region_page_range aligned low high (Nat.lt_trans before inside)).2
    rcases beneath.unmap inv inRange (fun shown => fresh shown j before) with
      absent | ⟨page, isPage, notKept, unmapped⟩
    · exact absurd absent present
    · obtain ⟨next, freed, beneath'⟩ := unmapped.free inv notKept
      have isPage : Heap.alignDownPage (kernelPages.vmemGetPhysical (regionPage first j) machine) =
        page := isPage
      rw [isPage]
      exact ⟨next, freed, fresh, beneath'⟩

/-- Growth of the heap keeps ownership sound and changes the kernel's side only. -/
theorem region_gives_beneath (inv : Owned image spaces kept start) (count : Nat) :
    RegionGives kernelPages start count (Beneath image spaces kept start kept) := by
  intro first heap aligned low high
  have fresh : FreshRegion spaces start first 0 := fun _ i none => absurd none (Nat.not_lt_zero i)
  have mapped := (region_rule_beneath inv aligned low high).map_region heap ⟨fresh, Beneath.refl inv⟩
  generalize heapMapVirtualRegion kernelPages first count ⟨heap, start⟩ = outcome at mapped ⊢
  cases mapped with
  | grown after => exact fun _ => after.2
  | refused notZero inside after => exact fun zero => absurd zero notZero
  | fault inside holds accepted closed => trivial

/-! ## The frames that growth takes -/

/-- At most a number of frames was taken from each part of the memory. -/
def Draws (count : Nat) (start machine : Machine) : Prop :=
  ∀ maxFrame, freeBelow maxFrame start.pmm ≤ freeBelow maxFrame machine.pmm + count

/-- Obtaining a table takes at most one frame. -/
theorem TableReady.draws (ready : TableReady machine directory index flags table base) :
    Draws 1 machine base := by
  cases ready with
  | found entered => exact fun maxFrame => Nat.le_succ _
  | missing absent => exact fun maxFrame => Nat.le_succ _
  | opened absent taken below =>
    exact fun maxFrame => Nat.sub_le_iff_le_add.mp (taken.free_below maxFrame).ge

/-- Mapping a page takes at most one frame, for a table. -/
theorem vmm_map_page_draws (virtualAddr physicalAddr flags : Nat) (machine : Machine) :
    Draws 1 machine (vmmMapPage virtualAddr physicalAddr flags machine).2 := by
  have ready := (get_or_create_page_table_ready (directoryIndex virtualAddr) flags machine).draws
  unfold vmmMapPage
  split
  · exact fun maxFrame => Nat.le_succ _
  · simp only
    split <;> exact ready

/-- Mapping pages of the heap takes at most two frames for each.

Proof: by induction on the pages that are left. -/
theorem map_region_draws (first remaining i : Nat) (heap : HeapState) (machine : Machine) :
    (heapMapVirtualRegionFrom kernelPages first remaining i ⟨heap, machine⟩).Sat fun value next =>
      value = 0 → Draws (2 * remaining) machine next.pages := by
  induction remaining generalizing i heap machine with
  | zero => exact fun _ maxFrame => Nat.le_refl _
  | succ remaining ih =>
    have undone (machine' : Machine) : (((heapUnmapVirtualRegion kernelPages first i >>= fun _ =>
        pure (-1)) : HeapProgram Machine Int) ⟨heap, machine'⟩).Sat fun value next =>
          value = 0 → Draws (2 * (remaining + 1)) machine next.pages :=
      sat_bind (unmap_region_heap kernelPages first i 0 heap machine')
        fun _ _ _ zero => absurd zero (by decide)
    simp only [heapMapVirtualRegionFrom, bind_apply, callPages_apply, andThen_done, ite_run]
    split
    · exact undone _
    · rename_i found
      split
      · simp only [callFreePage]
        cases kernelPages.pmmFreePage _ _ with
        | error message => trivial
        | ok next => exact undone next
      · split
        · trivial
        · rw [store_apply, andThen_done]
          refine (ih (i + 1) _ _).mono fun value next rest zero maxFrame => ?_
          have mapped := vmm_map_page_draws ((first + i * Heap.pmmPageSize) % 2 ^ 32)
            (kernelPages.pmmAllocPage machine).1 x86PageWritable (kernelPages.pmmAllocPage machine).2 maxFrame
          have rest := Nat.le_trans mapped (Nat.add_le_add_right (rest zero maxFrame) 1)
          rcases pmm_alloc_page_cases machine.pmm with ⟨failed, -⟩ | ⟨page, pmm, allocated, taken⟩
          · exact absurd (congrArg Prod.fst failed) found
          · have allocates : (kernelPages.pmmAllocPage machine).2.pmm = pmm := congrArg Prod.snd allocated
            rw [allocates, taken.free_below] at rest
            omega

theorem region_gives_draws {count size : Nat} (few : 4096 * count ≤ size + 4126) :
    RegionGives kernelPages start count (Draws (2 * ((size + 4126) / 4096)) start) := by
  intro first heap _ _ _
  refine (map_region_draws first count 0 heap start).mono fun value next draws zero maxFrame => ?_
  have draws := draws zero maxFrame
  omega

end Toyix.Paging
