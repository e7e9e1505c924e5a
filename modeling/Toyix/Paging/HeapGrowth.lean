import Toyix.Paging.KernelLaw
import Toyix.Paging.Lifecycle

/-!
# What growing the heap delivers

`heap_grow` should return a free block that is large enough, or change nothing but the tables that
it opened for the pages it could not map. Two things stand in the way. The number of pages is rounded
up in 32 bits, so that the largest requests are taken for one page. And a page that was mapped without
an error need not be there: when there is no frame for its table, or when the table was entered in the
kernel's directory while the directory of a process is loaded. The heap then faults when it clears
the page.
-/

namespace Toyix.Paging

open Library Pmm Heap

variable {image : Image} {spaces : Nat → Option AddressSpace} {held kept : Set Nat}
  {start machine next : Machine} {virtualAddr page first count i taken : Nat} {low : Nat}
  {table minimumPayloadBytes : Nat}

/-! ## Entries of the kernel's directory -/

/-- Every page outside of a range has the same entry. -/
def SameOutside (low high : Nat) (machine next : Machine) : Prop :=
  ∀ address < 2 ^ 32, address < low ∨ high ≤ address →
    pageEntry next.memory machine.kernelDirectory address =
      pageEntry machine.memory machine.kernelDirectory address

/-- A page of the heap is in the kernel's half of the address space. -/
theorem PageRange.high (inRange : PageRange none virtualAddr) :
    virtualAddr < 2 ^ 32 ∧ 768 ≤ directoryIndex virtualAddr := by
  obtain ⟨-, low, high⟩ := inRange
  rw [directory_index_eq]
  omega

/-- A store to the page at address zero changes no entry. -/
theorem Owned.null_table_entries (owned : Owned image spaces held machine)
    {slot entry address : Nat} (inside : slot < 1024) (bounded : address < 2 ^ 32) :
    pageEntry (machine.memory.setWord 0 slot entry) machine.kernelDirectory address =
      pageEntry machine.memory machine.kernelDirectory address := by
  have kernelAligned := owned.kernel_aligned
  have notNull := owned.structural_ne_zero (Or.inl ⟨none, rfl⟩)
  have other (page : Nat) (aligned : page % 4096 = 0) (notZero : page ≠ 0) :
      machine.memory.SamePage (machine.memory.setWord 0 slot entry) page :=
    Memory.samePage_setWord machine.memory aligned (Nat.zero_mod 4096) inside notZero
  have sameDirectory := (other _ kernelAligned notNull).word (directory_index_lt bounded)
  cases entered : tableOf machine.memory machine.kernelDirectory (directoryIndex address) with
  | none =>
    rw [page_entry_of_no_table entered, page_entry_of_no_table ((table_of_congr sameDirectory).trans
      entered)]
  | some table =>
    have tableNotNull : table ≠ 0 := by
      rcases owned.kernel_table_cases (directory_index_lt bounded) entered with ⟨-, rfl⟩ | owns
      · have low := image.tablesLow
        have loaded := image.loaded
        omega
      · exact Nat.ne_of_gt (owned.permitted owns).pos
    have sameTable := (other table (table_of_aligned entered) tableNotNull).word (table_index_lt address)
    rw [page_entry_of_table entered, page_entry_of_table ((table_of_congr sameDirectory).trans entered),
      sameTable]

/-- Obtaining a table changes no entry. -/
theorem TableReady.kernel_entries {flags : Nat} {base : Machine}
    (ready : TableReady machine machine.kernelDirectory (directoryIndex virtualAddr)
      (kernelTableFlags flags) table base) (owned : Owned image spaces held machine)
    (bounded : virtualAddr < 2 ^ 32) :
    base.kernelDirectory = machine.kernelDirectory ∧
      ∀ address < 2 ^ 32, pageEntry base.memory machine.kernelDirectory address =
        pageEntry machine.memory machine.kernelDirectory address := by
  cases ready with
  | found entered => exact ⟨rfl, fun _ _ => rfl⟩
  | missing absent => exact ⟨rfl, fun _ _ => rfl⟩
  | opened absent taken below =>
    exact ⟨rfl, (owned.table_entered bounded absent taken (kernel_table_flags_odd flags)).1.entries⟩

/-- The heap's mapping of a page changes the entry of this page only, and none when it fails. -/
theorem Owned.map_entries (owned : Owned image spaces held machine)
    (inRange : PageRange none virtualAddr) (permitted : Permitted image page) :
    let after := vmemMapPage virtualAddr page vmemFlagWritable machine
    SameOutside virtualAddr (virtualAddr + 4096) machine after.2 ∧
      (after.1 ≠ 0 → SameOutside virtualAddr virtualAddr machine after.2) := by
  intro after
  have bounded := inRange.high.1
  have flagsEq : vmemToArchFlags vmemFlagWritable = x86PageWritable := by decide
  obtain ⟨table, base, ready, mapped⟩ := vmm_map_page_cases x86PageWritable machine inRange.aligned
    permitted.aligned
  obtain ⟨sameDirectory, same⟩ := ready.kernel_entries owned bounded
  obtain ⟨baseOwned, tableOwned, -⟩ := ready.owned owned inRange.table_range rfl
    (kernel_table_flags_odd _)
  rcases mapped with ⟨-, refused⟩ | ⟨absent, stored⟩
  · have isAfter : after = (vmemFromArchResult vmmErrAlreadyMapped, base) := by
      simp only [after, vmemMapPage, flagsEq, refused]
    rw [isAfter]
    exact ⟨fun address small _ => same address small, fun _ address small _ => same address small⟩
  · have isAfter : after =
        (vmemFromArchResult vmmOk, base.mapped table virtualAddr page x86PageWritable) := by
      simp only [after, vmemMapPage, flagsEq, stored]
    rw [isAfter]
    have succeeds : vmemFromArchResult vmmOk = 0 := by decide
    refine ⟨?_, fun failed => absurd succeeds failed⟩
    intro address small outside
    rw [← same address small, ← sameDirectory, Machine.mapped_memory]
    by_cases null : table = 0
    · rw [null]
      exact baseOwned.null_table_entries (table_index_lt virtualAddr) small
    · have entered : tableOf base.memory base.kernelDirectory (directoryIndex virtualAddr) =
          some table := by
        rw [← table_owner rfl inRange.table_range]
        exact tableOwned null
      have entry := stored_page_entry baseOwned.tables_apart entered permitted.aligned
        permitted.bounded x86PageWritable bounded small
      have other : address / 4096 ≠ virtualAddr / 4096 := by
        have aligned := inRange.aligned
        omega
      rw [if_neg (other_page other)] at entry
      exact entry

/-- The pages of one table entry. -/
theorem page_entry_offset (memory : Memory) (directory : Nat) {offset : Nat}
    (aligned : virtualAddr % 4096 = 0) (small : offset < 4096) :
    pageEntry memory directory (virtualAddr + offset) = pageEntry memory directory virtualAddr := by
  obtain ⟨sameIndex, sameTab, -⟩ := page_indices aligned small
  simp only [pageEntry, sameIndex, sameTab]

theorem page_entry_absent {memory : Memory} {directory : Nat}
    (absent : isPresent (pageEntry memory directory virtualAddr) = false) :
    pageEntry memory directory virtualAddr = 0 := by
  unfold pageEntry at absent ⊢
  dsimp only at absent ⊢
  split
  · rfl
  · rename_i entered
    rw [if_neg entered] at absent
    split
    · rfl
    · rename_i present
      rw [if_neg present] at absent
      exact absurd absent present

/-- A page without a physical address is not mapped. -/
theorem Owned.unmapped_entry (owned : Owned image spaces held machine)
    (inRange : PageRange none virtualAddr) (absent : vmmGetPhysical virtualAddr machine = 0) :
    pageEntry machine.memory machine.kernelDirectory virtualAddr = 0 := by
  cases found : entryPage (pageEntry machine.memory machine.kernelDirectory virtualAddr) with
  | none => exact page_entry_absent (entry_page_eq_none.mp found)
  | some physical =>
    have owns : ownersOf spaces machine (.page none virtualAddr) = some physical := by
      rw [page_owner rfl inRange, found]
    obtain ⟨present, frame⟩ := entry_page_eq_some.mp found
    have positive := (owned.permitted owns).pos
    simp only [vmmGetPhysical, present, Bool.true_eq_false, ↓reduceIte, frame] at absent
    omega

/-- Taking a page back clears its entry and no other. -/
theorem Owned.unmap_entries (owned : Owned image spaces held machine)
    (inRange : PageRange none virtualAddr) :
    let after := vmemUnmapPage virtualAddr machine
    SameOutside virtualAddr (virtualAddr + 4096) machine after.2 ∧
      pageEntry after.2.memory machine.kernelDirectory virtualAddr = 0 := by
  intro after
  have bounded := inRange.high.1
  have entryOf := page_entry_of_page machine.memory machine.kernelDirectory virtualAddr
  rcases vmm_unmap_page_cases machine inRange.aligned with
    ⟨unmapped, isUnmapped⟩ | ⟨table, physical, count, entered, -, cleared⟩
  · have isAfter : after.2 = machine := by simp only [after, vmemUnmapPage, isUnmapped]
    rw [isAfter]
    rw [unmapped] at entryOf
    exact ⟨fun _ _ _ => rfl, page_entry_absent (entry_page_eq_none.mp entryOf)⟩
  · have isAfter : after.2.memory = machine.memory.setWord table (tableIndex virtualAddr) 0 := by
      simp only [after, vmemUnmapPage, cleared]
    have entry (address : Nat) (small : address < 2 ^ 32) :=
      owned.tables_apart.entry_stored (directory_index_lt bounded) entered
        (table_index_lt virtualAddr) (show 0 < 2 ^ 32 by decide) (directory_index_lt small)
    constructor
    · intro address small outside
      have other : address / 4096 ≠ virtualAddr / 4096 := by
        have aligned := inRange.aligned
        omega
      rw [isAfter, entry address small, if_neg (other_page other)]
    · rw [isAfter, entry virtualAddr bounded, if_pos ⟨rfl, rfl⟩]
      rfl

/-! ## Whole regions -/

theorem SameOutside.refl (low high : Nat) (machine : Machine) : SameOutside low high machine machine :=
  fun _ _ _ => rfl

/-- Changes outside of two ranges. -/
theorem SameOutside.trans {high low' high' : Nat} (first : SameOutside low high start machine)
    (sameDirectory : machine.kernelDirectory = start.kernelDirectory)
    (second : SameOutside low' high' machine next) {low'' high'' : Nat}
    (wider : ∀ address, address < low'' ∨ high'' ≤ address →
      (address < low ∨ high ≤ address) ∧ (address < low' ∨ high' ≤ address)) :
    SameOutside low'' high'' start next := by
  intro address small outside
  obtain ⟨beyond, beyond'⟩ := wider address outside
  have later := second address small beyond'
  rw [sameDirectory] at later
  exact later.trans (first address small beyond)

/-- The first page of the range has its old entry. -/
theorem SameOutside.shrink {high : Nat} (same : SameOutside low high start machine)
    (aligned : low % 4096 = 0) (entry : pageEntry machine.memory start.kernelDirectory low =
      pageEntry start.memory start.kernelDirectory low) :
    SameOutside (low + 4096) high start machine := by
  intro address small outside
  by_cases inPage : low ≤ address ∧ address < low + 4096
  · obtain ⟨offset, rfl⟩ : ∃ offset, address = low + offset := ⟨address - low, by omega⟩
    rw [page_entry_offset _ _ aligned (by omega), page_entry_offset _ _ aligned (by omega), entry]
  · exact same address small (by omega)

/-- A page of a fresh region has no entry at the start. -/
theorem FreshRegion.entry {i j : Nat} (fresh : FreshRegion spaces start first i)
    (shown : Shown spaces start) (inside : j < i)
    (inRange : PageRange none (regionPage first j)) :
    pageEntry start.memory start.kernelDirectory (regionPage first j) = 0 := by
  have absent := fresh shown j inside
  rw [page_owner rfl inRange] at absent
  exact page_entry_absent (entry_page_eq_none.mp absent)

/-- Freeing a frame changes no entry. -/
theorem SameOutside.free {high : Nat} (same : SameOutside low high start machine)
    (freed : kernelPages.pmmFreePage page machine = .ok next) :
    SameOutside low high start next := by
  have sameMemory : next.memory = machine.memory := by
    simp only [kernelPages] at freed
    cases released : pmmFreePage page machine.pmm with
    | error message =>
      rw [released] at freed
      cases freed
    | ok pmm =>
      rw [released] at freed
      cases freed
      rfl
  intro address small outside
  rw [sameMemory]
  exact same address small outside

/-! ## Frames and tables for a region -/

/-- A page is the first of the region in a table that the kernel's directory does not have. -/
def NeedsTable (machine : Machine) (first i : Nat) : Prop :=
  isPresent (machine.memory.word machine.kernelDirectory (directoryIndex (first + 4096 * i))) = false ∧
    ∀ j < i, directoryIndex (first + 4096 * j) ≠ directoryIndex (first + 4096 * i)

instance (machine : Machine) (first i : Nat) : Decidable (NeedsTable machine first i) :=
  inferInstanceAs (Decidable (_ ∧ _))

/-- The frames for the pages of the region before one of them, and for their tables. -/
def framesBefore (machine : Machine) (first : Nat) : Nat → Nat
  | 0 => 0
  | i + 1 => framesBefore machine first i + 1 + if NeedsTable machine first i then 1 else 0

/-- A page that is mapped once those before it are: there is a frame for it and, if it needs a new
table, one below 16 MiB for the table; and what the kernel's directory has is there. -/
structure PageGranted (machine : Machine) (first i : Nat) : Prop where
  frame : framesBefore machine first i < freeBelow pmmMaxFrames machine.pmm
  unmapped : isPresent (pageEntry machine.memory machine.kernelDirectory (first + 4096 * i)) = false
  table : NeedsTable machine first i → framesBefore machine first i + 1 < freeBelow 4096 machine.pmm
  loaded : machine.cr3 = machine.kernelDirectory ∨
    isPresent (machine.memory.word machine.cr3 (directoryIndex (first + 4096 * i))) = true

/-- A page that is refused once those before it are mapped: there is no frame for it, or an entry is
found for it. If there is no frame for its table, the entry is looked for at address zero. -/
inductive PageRefused (machine : Machine) (first i : Nat) : Prop where
  | frame (exhausted : freeBelow pmmMaxFrames machine.pmm ≤ framesBefore machine first i)
  | mapped (present : isPresent (pageEntry machine.memory machine.kernelDirectory
      (first + 4096 * i)) = true)
  | table (needed : NeedsTable machine first i)
      (exhausted : freeBelow 4096 machine.pmm ≤ framesBefore machine first i + 1)
      (present : isPresent (machine.memory.word 0 (tableIndex (first + 4096 * i))) = true)

/-- A page without an entry is refused only if there is an entry at address zero and no frame for its
table. -/
theorem not_page_refused (frame : framesBefore start first i < freeBelow pmmMaxFrames start.pmm)
    (unmapped : isPresent (pageEntry start.memory start.kernelDirectory (first + 4096 * i)) = false)
    (noEntry : NeedsTable start first i →
      freeBelow 4096 start.pmm ≤ framesBefore start first i + 1 →
      isPresent (start.memory.word 0 (tableIndex (first + 4096 * i))) = false) :
    ¬ PageRefused start first i := by
  intro refused
  cases refused with
  | frame exhausted => exact absurd frame (Nat.not_lt.mpr exhausted)
  | mapped present =>
    rw [unmapped] at present
    cases present
  | table needed exhausted present =>
    rw [noEntry needed exhausted] at present
    cases present

theorem PageGranted.not_refused (granted : PageGranted start first i) : ¬ PageRefused start first i :=
  not_page_refused granted.frame granted.unmapped fun needed exhausted =>
    absurd (granted.table needed) (Nat.not_lt.mpr exhausted)

/-- The machine once some pages of a region are mapped and a number of frames were taken for it. -/
structure Drawn (start : Machine) (first i taken : Nat) (machine : Machine) : Prop where
  granted : ∀ j < i, PageGranted start first j
  free : ∀ maxFrame, freeBelow maxFrame machine.pmm = freeBelow maxFrame start.pmm - taken
  tables : ∀ index < 1024, isPresent (machine.memory.word start.kernelDirectory index) = true ↔
    isPresent (start.memory.word start.kernelDirectory index) = true ∨
      ∃ j < i, directoryIndex (first + 4096 * j) = index

/-- Nothing was taken yet. -/
theorem Drawn.refl (start : Machine) (first : Nat) : Drawn start first 0 0 start := by
  refine ⟨fun j none => absurd none (Nat.not_lt_zero j), fun _ => rfl, ?_⟩
  intro index _
  constructor
  · exact Or.inl
  · rintro (present | ⟨j, none, -⟩)
    · exact present
    · exact absurd none (Nat.not_lt_zero j)

/-- A frame more was taken. -/
theorem Drawn.take (drawn : Drawn start first i taken machine) {pmm : PmmState}
    (takes : Takes machine.pmm pmm page) :
    Drawn start first i (taken + 1) { machine with pmm := pmm } := by
  refine ⟨drawn.granted, ?_, drawn.tables⟩
  intro maxFrame
  rw [takes.free_below, drawn.free, Nat.sub_sub]

/-- A page has no table exactly if it is the first that needs it. -/
theorem Drawn.needs_table (drawn : Drawn start first i taken machine)
    (inside : directoryIndex (first + 4096 * i) < 1024) :
    isPresent (machine.memory.word start.kernelDirectory (directoryIndex (first + 4096 * i))) = false ↔
      NeedsTable start first i := by
  rw [Bool.eq_false_iff, ne_eq, drawn.tables _ inside, not_or, NeedsTable, Bool.eq_false_iff]
  simp only [not_exists, not_and, ne_eq]

/-- One more page is mapped, with the frames that it needed. -/
theorem Drawn.grow (drawn : Drawn start first i taken machine) (granted : PageGranted start first i)
    (free : ∀ maxFrame, freeBelow maxFrame next.pmm =
      freeBelow maxFrame start.pmm - framesBefore start first (i + 1))
    (tables : ∀ index < 1024, isPresent (next.memory.word start.kernelDirectory index) = true ↔
      isPresent (machine.memory.word start.kernelDirectory index) = true ∨
        directoryIndex (first + 4096 * i) = index) :
    Drawn start first (i + 1) (framesBefore start first (i + 1)) next := by
  refine ⟨?_, free, ?_⟩
  · intro j before
    rcases Nat.lt_succ_iff_lt_or_eq.mp before with earlier | rfl
    · exact drawn.granted j earlier
    · exact granted
  · intro index inside
    rw [tables index inside, drawn.tables index inside, or_assoc]
    refine or_congr_right ?_
    constructor
    · rintro (⟨j, before, same⟩ | same)
      · exact ⟨j, Nat.lt_succ_of_lt before, same⟩
      · exact ⟨i, Nat.lt_succ_self i, same⟩
    · rintro ⟨j, before, same⟩
      rcases Nat.lt_succ_iff_lt_or_eq.mp before with earlier | rfl
      · exact Or.inl ⟨j, earlier, same⟩
      · exact Or.inr same

/-- A table of the kernel's directory is not the loaded directory. -/
theorem Owned.loaded_not_table (owned : Owned image spaces held machine) {space : SpaceRef}
    (isDirectory : directoryOf spaces machine.kernelDirectory space = some machine.cr3)
    {index : Nat} (inside : index < 1024)
    (entered : tableOf machine.memory machine.kernelDirectory index = some table) :
    machine.cr3 ≠ table := by
  obtain ⟨-, notKernel, -, notProcess⟩ := owned.kernel_table inside entered
  cases space with
  | none =>
    obtain same : machine.kernelDirectory = machine.cr3 := Option.some.inj isDirectory
    rw [← same]
    exact notKernel.symm
  | some object =>
    rintro rfl
    exact notProcess (.directory object) trivial (owned.directory_owner isDirectory)

/-- A page that is entered in a table which the loaded directory has is there. -/
theorem Owned.stored_writable (owned : Owned image spaces held machine) {space : SpaceRef}
    (isDirectory : directoryOf spaces machine.kernelDirectory space = some machine.cr3)
    (entered : tableOf machine.memory machine.kernelDirectory (directoryIndex virtualAddr) =
      some table) (sameWord : machine.memory.word machine.cr3 (directoryIndex virtualAddr) =
      machine.memory.word machine.kernelDirectory (directoryIndex virtualAddr))
    (permitted : Permitted image page) (bounded : virtualAddr < 2 ^ 32) :
    kernelPages.pageWritable virtualAddr (machine.mapped table virtualAddr page x86PageWritable) =
      true := by
  have inside := directory_index_lt bounded
  have notKernel := (owned.kernel_table inside entered).2.1
  have notLoaded := owned.loaded_not_table isDirectory inside entered
  have tableAligned := table_of_aligned entered
  have samePage (target : Nat) (aligned : target % 4096 = 0) (other : target ≠ table) :
      (machine.memory.setWord table (tableIndex virtualAddr) (mapEntry page x86PageWritable)).word
          target (directoryIndex virtualAddr) =
        machine.memory.word target (directoryIndex virtualAddr) :=
    (Memory.samePage_setWord machine.memory aligned tableAligned (table_index_lt virtualAddr)
      other).word inside
  have sameEntry : pageEntry (machine.memory.setWord table (tableIndex virtualAddr)
        (mapEntry page x86PageWritable)) machine.cr3 virtualAddr =
      pageEntry (machine.memory.setWord table (tableIndex virtualAddr)
        (mapEntry page x86PageWritable)) machine.kernelDirectory virtualAddr := by
    simp only [pageEntry, samePage _ (owned.directory_aligned isDirectory) notLoaded,
      samePage _ owned.kernel_aligned notKernel.symm, sameWord]
  have entry := stored_page_entry owned.tables_apart entered permitted.aligned
    permitted.bounded x86PageWritable bounded bounded
  rw [if_pos ⟨rfl, rfl⟩] at entry
  simp only [kernelPages, Machine.mapped_memory, Machine.mapped_cr3, sameEntry, entry]
  exact (map_entry_bits x86PageWritable permitted.aligned permitted.bounded).1

/-- What the loaded directory has of the kernel's half is the kernel's. -/
def SharedLoaded (machine : Machine) : Prop :=
  ∀ index, 768 ≤ index → index < 1024 → isPresent (machine.memory.word machine.cr3 index) = true →
    machine.memory.word machine.cr3 index = machine.memory.word machine.kernelDirectory index

/-- The words of a process directory are those at the start. -/
theorem Beneath.loaded_word (beneath : Beneath image spaces kept start held machine)
    (inv : Owned image spaces kept start) (shown : Shown spaces start)
    (isProcess : start.cr3 ≠ start.kernelDirectory) {index : Nat} (inside : index < 1024) :
    machine.memory.word start.cr3 index = start.memory.word start.cr3 index := by
  rcases shown with isKernel | ⟨object, isDirectory, -⟩
  · exact absurd isKernel isProcess
  · exact (beneath.side.bytes start.cr3
      (Or.inr ⟨.directory object, trivial, inv.directory_owner isDirectory⟩)).word inside

/-- The page at address zero is the one at the start. -/
theorem Beneath.null_page (beneath : Beneath image spaces kept start held machine)
    (shown : Shown spaces start) : start.memory.SamePage machine.memory 0 := by
  refine (beneath.supply shown).quiet 0 (Nat.zero_mod 4096) ?_ ?_
  · exact (beneath.owned.structural_ne_zero (Or.inl ⟨none, rfl⟩)).symm
  · intro index owns
    exact absurd (beneath.owned.permitted owns).pos (Nat.lt_irrefl 0)

/-- The kernel's tables once a page was entered in a table of its directory. -/
theorem Owned.stored_tables (owned : Owned image spaces held machine)
    (inRange : TableRange none (directoryIndex virtualAddr)) {base : Machine}
    (baseOwned : Owned image spaces held base)
    (sameDirectory : base.kernelDirectory = machine.kernelDirectory)
    (entered : tableOf base.memory base.kernelDirectory (directoryIndex virtualAddr) = some table)
    (stored : (vmmMapPage virtualAddr page x86PageWritable machine).2 =
      base.mapped table virtualAddr page x86PageWritable) (permitted : Permitted image page)
    {index : Nat} (inside : index < 1024) :
    isPresent ((vmmMapPage virtualAddr page x86PageWritable machine).2.memory.word
        machine.kernelDirectory index) = true ↔
      isPresent (machine.memory.word machine.kernelDirectory index) = true ∨
        directoryIndex virtualAddr = index := by
  by_cases same : directoryIndex virtualAddr = index
  · subst same
    have kept := baseOwned.tables_apart.directory_kept inside entered (table_index_lt virtualAddr)
      (map_entry_made x86PageWritable permitted.aligned permitted.bounded).2 inside
    rw [stored, Machine.mapped_memory, ← sameDirectory, kept]
    exact iff_of_true (table_of_eq_some.mp entered).1 (Or.inr rfl)
  · rw [vmm_map_page_words owned x86PageWritable inRange inside
      (fun isIndex => absurd isIndex.symm same), or_iff_left same]

/-- What becomes of a page of the region that was mapped without an error. -/
def PageEnd (start : Machine) (first i : Nat) (after : Machine) : Prop :=
  (kernelPages.pageWritable (first + 4096 * i) after = true ∧ PageGranted start first i ∧
      Drawn start first (i + 1) (framesBefore start first (i + 1)) after) ∨
    kernelPages.pageWritable (first + 4096 * i) after = false ∧ ¬ PageGranted start first i ∧
      ¬ PageRefused start first i

section NextPage

variable (drawn : Drawn start first i (framesBefore start first i + 1) machine)
  (frame : framesBefore start first i < freeBelow pmmMaxFrames start.pmm)
  (unmapped : isPresent (pageEntry start.memory start.kernelDirectory (first + 4096 * i)) = false)
  (beneath : Beneath image spaces kept start (insert page kept) machine)
  (inv : Owned image spaces kept start) (shown : Shown spaces start)
  (inRange : PageRange none (first + 4096 * i)) {table : Nat}

include drawn frame unmapped beneath inv shown inRange

/-- The table of the page was there. -/
theorem Drawn.found (shared : SharedLoaded start)
    (entered : tableOf machine.memory machine.kernelDirectory (directoryIndex (first + 4096 * i)) =
      some table)
    (stored : (vmmMapPage (first + 4096 * i) page x86PageWritable machine).2 =
      machine.mapped table (first + 4096 * i) page x86PageWritable) :
    PageEnd start first i (vmmMapPage (first + 4096 * i) page x86PageWritable machine).2 := by
  have permitted := (beneath.owned.sound.loose (Set.mem_insert page kept)).2
  have inside := inRange.table_range.lt
  obtain ⟨bounded, range⟩ := inRange.high
  have sameDirectory := beneath.side.directory
  obtain ⟨space, isDirectory⟩ := beneath.loaded_directory shown
  have notNeeds : ¬ NeedsTable start first i := by
    rw [← drawn.needs_table inside, ← sameDirectory, (table_of_eq_some.mp entered).1]
    decide
  by_cases loaded : start.cr3 = start.kernelDirectory ∨
      isPresent (start.memory.word start.cr3 (directoryIndex (first + 4096 * i))) = true
  · have granted : PageGranted start first i :=
      ⟨frame, unmapped, fun needed => absurd needed notNeeds, loaded⟩
    have sameWord : machine.memory.word machine.cr3 (directoryIndex (first + 4096 * i)) =
        machine.memory.word machine.kernelDirectory (directoryIndex (first + 4096 * i)) := by
      rw [beneath.side.cr3, sameDirectory]
      by_cases isKernel : start.cr3 = start.kernelDirectory
      · rw [isKernel]
      · have shows := loaded.resolve_left isKernel
        have words := shared _ range inside shows
        rw [beneath.loaded_word inv shown isKernel inside, words]
        exact (beneath.side.entries _ inside (words ▸ shows)).symm
    refine Or.inl ⟨?_, granted, drawn.grow granted ?_ ?_⟩
    · rw [stored]
      exact beneath.owned.stored_writable isDirectory entered sameWord permitted bounded
    · intro maxFrame
      rw [stored, framesBefore, if_neg notNeeds]
      exact drawn.free maxFrame
    · intro index indexInside
      rw [← sameDirectory]
      exact beneath.owned.stored_tables inRange.table_range beneath.owned rfl entered stored permitted
        indexInside
  · refine Or.inr ⟨not_writable_of_absent ?_, fun granted => loaded granted.loaded,
      not_page_refused frame unmapped fun needed => absurd needed notNeeds⟩
    have word : (machine.mapped table (first + 4096 * i) page x86PageWritable).memory.word
        machine.cr3 (directoryIndex (first + 4096 * i)) =
        machine.memory.word machine.cr3 (directoryIndex (first + 4096 * i)) :=
      (Memory.samePage_setWord machine.memory (beneath.owned.directory_aligned isDirectory)
        (table_of_aligned entered) (table_index_lt _)
        (beneath.owned.loaded_not_table isDirectory inside entered)).word inside
    rw [stored, Machine.mapped_cr3, word, beneath.side.cr3, beneath.loaded_word inv shown
      (fun isKernel => loaded (Or.inl isKernel)) inside, Bool.eq_false_iff]
    exact fun present => loaded (Or.inr present)

/-- There is no frame for the table of the page. -/
theorem Drawn.missing
    (noTable : isPresent (machine.memory.word machine.kernelDirectory
      (directoryIndex (first + 4096 * i))) = false) (exhausted : freeBelow 4096 machine.pmm = 0)
    (noEntry : isPresent (machine.memory.word 0 (tableIndex (first + 4096 * i))) = false)
    (stored : next = machine.mapped 0 (first + 4096 * i) page x86PageWritable) :
    PageEnd start first i next := by
  have needed : NeedsTable start first i := by
    rw [← drawn.needs_table inRange.table_range.lt, ← beneath.side.directory]
    exact noTable
  obtain ⟨space, isDirectory⟩ := beneath.loaded_directory shown
  refine Or.inr ⟨?_, ?_, not_page_refused frame unmapped fun _ _ => ?_⟩
  · subst stored
    refine beneath.not_writable inv shown inRange noTable rfl ?_
    exact Memory.samePage_setWord machine.memory (beneath.owned.directory_aligned isDirectory)
      (Nat.zero_mod 4096) (table_index_lt _)
      (beneath.owned.structural_ne_zero (Or.inl ⟨space, isDirectory⟩))
  · intro granted
    have available := granted.table needed
    rw [drawn.free 4096] at exhausted
    omega
  · rw [← (beneath.null_page shown).word (table_index_lt _)]
    exact noEntry

/-- A table was opened for the page. -/
theorem Drawn.opened {pmm : PmmState}
    (noTable : isPresent (machine.memory.word machine.kernelDirectory
      (directoryIndex (first + 4096 * i))) = false)
    (taken : Takes machine.pmm pmm table) (below : table + 4096 ≤ 0x1000000)
    (stored : (vmmMapPage (first + 4096 * i) page x86PageWritable machine).2 =
      (machine.opened pmm machine.kernelDirectory (directoryIndex (first + 4096 * i)) table
        (kernelTableFlags x86PageWritable)).mapped table (first + 4096 * i) page x86PageWritable) :
    PageEnd start first i (vmmMapPage (first + 4096 * i) page x86PageWritable machine).2 := by
  have permitted := (beneath.owned.sound.loose (Set.mem_insert page kept)).2
  have inside := inRange.table_range.lt
  obtain ⟨bounded, range⟩ := inRange.high
  have sameDirectory := beneath.side.directory
  have sameLoaded := beneath.side.cr3
  obtain ⟨space, isDirectory⟩ := beneath.loaded_directory shown
  have needed : NeedsTable start first i := by
    rw [← drawn.needs_table inside, ← sameDirectory]
    exact noTable
  have available : framesBefore start first i + 1 < freeBelow 4096 start.pmm := by
    have free := taken.available (show table < 4096 * 4096 by omega)
    rw [drawn.free 4096] at free
    omega
  have entered := (beneath.owned.table_entered bounded noTable taken
    (kernel_table_flags_odd x86PageWritable)).1.entered
  obtain ⟨baseOwned, -⟩ := beneath.owned.open_table inRange.table_range rfl noTable taken
    (kernel_table_flags_odd x86PageWritable).1 (kernel_table_flags_odd x86PageWritable).2
  by_cases isKernel : start.cr3 = start.kernelDirectory
  · have granted : PageGranted start first i := ⟨frame, unmapped, fun _ => available, Or.inl isKernel⟩
    have sameDirectories : machine.cr3 = machine.kernelDirectory := by
      rw [sameLoaded, sameDirectory, isKernel]
    refine Or.inl ⟨?_, granted, drawn.grow granted ?_ ?_⟩
    · rw [stored]
      refine baseOwned.stored_writable (show directoryOf spaces machine.kernelDirectory none =
        some machine.cr3 from congrArg some sameDirectories.symm) entered ?_ permitted bounded
      simp only [Machine.opened, sameDirectories]
    · intro maxFrame
      rw [stored, framesBefore, if_pos needed]
      show freeBelow maxFrame pmm = _
      rw [taken.free_below, drawn.free, Nat.sub_sub]
    · intro index indexInside
      rw [← sameDirectory]
      exact beneath.owned.stored_tables inRange.table_range baseOwned rfl entered stored permitted
        indexInside
  · refine Or.inr ⟨?_, ?_, not_page_refused frame unmapped fun _ exhausted =>
      absurd available (Nat.not_lt.mpr exhausted)⟩
    · have loadedAligned := beneath.owned.directory_aligned isDirectory
      have notTable : machine.cr3 ≠ table := by
        rintro rfl
        exact (beneath.owned.take taken).structural_unheld (Or.inl ⟨space, isDirectory⟩)
          (Set.mem_insert _ _)
      have notKernel : machine.cr3 ≠ machine.kernelDirectory := by
        rw [sameLoaded, sameDirectory]
        exact isKernel
      rw [stored]
      refine beneath.not_writable inv shown inRange noTable rfl ?_
      exact ((Memory.samePage_clearPage _ loadedAligned taken.allocatable.1 notTable).trans
        (Memory.samePage_setWord _ loadedAligned beneath.owned.kernel_aligned inside
          notKernel)).trans
        (Memory.samePage_setWord _ loadedAligned taken.allocatable.1 (table_index_lt _) notTable)
    · intro granted
      have absent := beneath.not_shown inv shown range inside noTable
      rw [sameLoaded, beneath.loaded_word inv shown isKernel inside,
        granted.loaded.resolve_left isKernel] at absent
      cases absent

omit frame unmapped in
/-- What becomes of the next page of a region.

Proof: it is mapped through a table that is there or a new one, or else its entry is looked for at
address zero. -/
theorem Drawn.map (frame : framesBefore start first i < freeBelow pmmMaxFrames start.pmm)
    (shared : SharedLoaded start) (same : SameOutside first (first + 4096 * i) start machine) :
    let after := vmemMapPage (first + 4096 * i) page vmemFlagWritable machine
    (after.1 ≠ 0 → PageRefused start first i) ∧ (after.1 = 0 → PageEnd start first i after.2) := by
  intro after
  have permitted := (beneath.owned.sound.loose (Set.mem_insert page kept)).2
  have inside := inRange.table_range.lt
  have slot := table_index_lt (first + 4096 * i)
  have flagsEq : vmemToArchFlags vmemFlagWritable = x86PageWritable := by decide
  have isAfter : after.2 = (vmmMapPage (first + 4096 * i) page x86PageWritable machine).2 := by
    simp only [after, vmemMapPage, flagsEq]
  have sameEntry := same _ inRange.high.1 (Or.inr (Nat.le_refl _))
  obtain ⟨table, base, ready, mapped⟩ := vmm_map_page_cases x86PageWritable machine inRange.aligned
    permitted.aligned
  rcases mapped with ⟨present, refused⟩ | ⟨absent, stored⟩
  · have notZero : after.1 ≠ 0 := by
      simp only [after, vmemMapPage, flagsEq, refused]
      decide
    refine ⟨fun _ => ?_, fun accepted => absurd accepted notZero⟩
    cases ready with
    | found entered =>
      refine .mapped ?_
      have entry := page_entry_of_table entered
      rw [present, if_neg (by decide), beneath.side.directory, sameEntry] at entry
      rw [entry]
      exact present
    | missing noTable exhausted =>
      rw [beneath.side.directory] at noTable
      rw [drawn.free 4096] at exhausted
      refine .table ((drawn.needs_table inside).mp noTable) (by omega) ?_
      rw [← (beneath.null_page shown).word slot]
      exact present
    | opened noTable takes below =>
      rw [(beneath.owned.table_entered inRange.high.1 noTable takes
        (kernel_table_flags_odd x86PageWritable)).2] at present
      cases present
  · have zero : after.1 = 0 := by
      simp only [after, vmemMapPage, flagsEq, stored]
      decide
    have unmapped : isPresent (pageEntry start.memory start.kernelDirectory (first + 4096 * i)) =
        false := by
      have none : ownersOf spaces machine (.page none (first + 4096 * i)) = none :=
        ready.page_absent rfl inRange absent
      rw [page_owner rfl inRange, beneath.side.directory, sameEntry] at none
      exact entry_page_eq_none.mp none
    have stored := congrArg Prod.snd stored
    refine ⟨fun notZero => absurd zero notZero, fun _ => ?_⟩
    rw [isAfter]
    cases ready with
    | found entered => exact drawn.found frame unmapped beneath inv shown inRange shared entered stored
    | missing noTable exhausted =>
      exact drawn.missing frame unmapped beneath inv shown inRange noTable exhausted absent stored
    | opened noTable takes below =>
      exact drawn.opened frame unmapped beneath inv shown inRange noTable takes below stored

end NextPage

/-- The machine once some pages of a region are mapped: only their entries are new. -/
def RegionMapped (image : Image) (spaces : Nat → Option AddressSpace) (kept : Set Nat) (start : Machine)
    (first i : Nat) (machine : Machine) : Prop :=
  (FreshRegion spaces start first i ∧ Beneath image spaces kept start kept machine) ∧
    SameOutside first (first + 4096 * i) start machine ∧
    Drawn start first i (framesBefore start first i) machine

/-- The machine when a page is about to be mapped behind them. -/
def RegionHolding (image : Image) (spaces : Nat → Option AddressSpace) (kept : Set Nat) (start : Machine)
    (first i page : Nat) (machine : Machine) : Prop :=
  (FreshRegion spaces start first i ∧ page ∉ kept ∧
    Beneath image spaces kept start (insert page kept) machine) ∧
    SameOutside first (first + 4096 * i) start machine ∧
    Drawn start first i (framesBefore start first i + 1) machine ∧
    framesBefore start first i < freeBelow pmmMaxFrames start.pmm

/-- A page of a region is refused after those before it were mapped. -/
def RefusedAt (start : Machine) (first i : Nat) : Prop :=
  (∀ j < i, PageGranted start first j) ∧ PageRefused start first i

/-- The machine once the first pages of the mapped ones have been taken back. -/
def RegionUndone (image : Image) (spaces : Nat → Option AddressSpace) (kept : Set Nat) (start : Machine)
    (first j i : Nat) (machine : Machine) : Prop :=
  (FreshRegion spaces start first i ∧ Beneath image spaces kept start kept machine) ∧
    SameOutside (first + 4096 * j) (first + 4096 * i) start machine ∧ RefusedAt start first i

/-- What becomes of a page that is held. -/
theorem RegionHolding.map (holds : RegionHolding image spaces kept start first i page machine)
    (inv : Owned image spaces kept start) (shown : Shown spaces start)
    (shared : SharedLoaded start) (isPage : regionPage first i = first + 4096 * i)
    (inRange : PageRange none (regionPage first i)) :
    let after := vmemMapPage (regionPage first i) page vmemFlagWritable machine
    (after.1 ≠ 0 → RefusedAt start first i) ∧
      (after.1 = 0 → kernelPages.pageWritable (regionPage first i) after.2 = true →
        Drawn start first (i + 1) (framesBefore start first (i + 1)) after.2) ∧
      (after.1 = 0 → kernelPages.pageWritable (regionPage first i) after.2 = false →
        ¬ PageGranted start first i ∧ ¬ PageRefused start first i) := by
  obtain ⟨⟨-, -, beneath⟩, same, drawn, frame⟩ := holds
  rw [isPage] at inRange ⊢
  obtain ⟨refused, ended⟩ := drawn.map beneath inv shown inRange frame shared same
  refine ⟨fun notZero => ⟨drawn.granted, refused notZero⟩, fun zero writable => ?_, fun zero closed => ?_⟩
  · rcases ended zero with ⟨-, -, drawn'⟩ | ⟨closed, -⟩
    · exact drawn'
    · exact absurd writable (Bool.eq_false_iff.mp closed)
  · rcases ended zero with ⟨writable, -⟩ | ⟨-, neither⟩
    · exact absurd writable (Bool.eq_false_iff.mp closed)
    · exact neither

/-- While a region is mapped or taken back only its own pages have other entries, and frames are taken
for its pages and their tables only. -/
theorem region_rule_entries (inv : Owned image spaces kept start)
    (shown : Shown spaces start) (shared : SharedLoaded start) (aligned : first % 4096 = 0)
    (low : heapVirtualBaseAddress ≤ first)
    (high : first + 4096 * count ≤ heapVirtualLimitAddress) :
    RegionRule kernelPages first count (RegionMapped image spaces kept start first)
      (RegionHolding image spaces kept start first) (RegionUndone image spaces kept start first) := by
  have rule := region_rule_beneath inv aligned low high
  have following (j : Nat) : first + 4096 * (j + 1) = first + 4096 * j + 4096 := by omega
  constructor
  · rintro i inside machine ⟨holds, same, drawn⟩ exhausted
    refine ⟨rule.exhausted i inside machine holds exhausted, ?_⟩
    rcases pmm_alloc_page_cases machine.pmm with ⟨failed, none⟩ | ⟨page, pmm, allocated, takes⟩
    · rw [drawn.free] at none
      simp only [kernelPages, failed]
      exact ⟨same, drawn.granted, .frame (by omega)⟩
    · simp only [kernelPages, allocated] at exhausted
      exact absurd exhausted (Nat.ne_of_gt (holds.2.owned.fresh_permitted takes).pos)
  · rintro i inside machine ⟨holds, same, drawn⟩ found
    refine ⟨rule.taken i inside machine holds found, ?_⟩
    rcases pmm_alloc_page_cases machine.pmm with ⟨failed, -⟩ | ⟨page, pmm, allocated, takes⟩
    · simp only [kernelPages, failed] at found
      exact absurd rfl found
    · have available : freeBelow pmmMaxFrames machine.pmm ≠ 0 := takes.available takes.allocatable.2.2
      rw [drawn.free] at available
      simp only [kernelPages, allocated]
      exact ⟨same, drawn.take takes, by omega⟩
  · rintro i inside page machine holds after accepted writable
    obtain ⟨isPage, inRange⟩ := region_page_range aligned low high inside
    have beneath := holds.1.2.2
    have permitted := (beneath.owned.sound.loose (Set.mem_insert page kept)).2
    have entries : SameOutside (regionPage first i) (regionPage first i + 4096) machine after.2 :=
      (beneath.owned.map_entries inRange permitted).1
    rw [isPage] at entries
    refine ⟨rule.map i inside page machine holds.1 accepted writable,
      holds.2.1.trans beneath.side.directory entries ?_,
      (holds.map inv shown shared isPage inRange).2.1 accepted writable⟩
    intro address outside
    omega
  · rintro i inside page machine holds after refused
    obtain ⟨isPage, inRange⟩ := region_page_range aligned low high inside
    have beneath := holds.1.2.2
    have permitted := (beneath.owned.sound.loose (Set.mem_insert page kept)).2
    have entries : SameOutside (regionPage first i) (regionPage first i) machine after.2 :=
      (beneath.owned.map_entries inRange permitted).2 refused
    obtain ⟨next, freed, still⟩ := rule.refuse i inside page machine holds.1 refused
    have unchanged : SameOutside first (first + 4096 * i) start after.2 := by
      refine holds.2.1.trans beneath.side.directory entries ?_
      intro address outside
      exact ⟨outside, Nat.lt_or_ge _ _⟩
    exact ⟨next, freed, still, unchanged.free freed,
      (holds.map inv shown shared isPage inRange).1 refused⟩
  · rintro i inside j before machine ⟨holds, same, refusedAt⟩ absent
    obtain ⟨isPage, inRange⟩ := region_page_range aligned low high (Nat.lt_trans before inside)
    have entry := holds.2.owned.unmapped_entry inRange absent
    have entryBefore := holds.1.entry shown before inRange
    rw [holds.2.side.directory] at entry
    rw [isPage] at entry entryBefore
    rw [RegionUndone, following j]
    exact ⟨rule.skip i inside j before machine holds absent,
      same.shrink (by omega) (entry.trans entryBefore.symm), refusedAt⟩
  · rintro i inside j before machine ⟨holds, same, refusedAt⟩ present
    obtain ⟨isPage, inRange⟩ := region_page_range aligned low high (Nat.lt_trans before inside)
    have entryBefore := holds.1.entry shown before inRange
    obtain ⟨others, entry⟩ := holds.2.owned.unmap_entries inRange
    obtain ⟨next, freed, still⟩ := rule.unmap i inside j before machine holds present
    have unmapped : SameOutside (first + 4096 * j) (first + 4096 * i) start
        (vmemUnmapPage (regionPage first j) machine).2 := by
      refine same.trans holds.2.side.directory others ?_
      intro address outside
      rw [isPage]
      omega
    rw [holds.2.side.directory, ← entryBefore, isPage] at entry
    simp only [RegionUndone, following j]
    refine ⟨next, freed, still, SameOutside.free (unmapped.shrink (by omega) ?_) freed, refusedAt⟩
    rw [isPage]
    exact entry

/-! ## Frames and faults -/

/-- A page is a table of the kernel's directory that was not there before. -/
def NewTable (machine next : Machine) (page : Nat) : Prop :=
  ∃ index < 1024, tableOf machine.memory machine.kernelDirectory index = none ∧
    tableOf next.memory next.kernelDirectory index = some page

/-- Where the entries are the old ones, the frames in use are the old ones and the new tables. -/
theorem Beneath.frames (beneath : Beneath image spaces kept start kept machine)
    (inv : Owned image spaces kept start) (shown : Shown spaces start)
    (same : ∀ address < 2 ^ 32, pageEntry machine.memory start.kernelDirectory address =
      pageEntry start.memory start.kernelDirectory address) (aligned : page % 4096 = 0) :
    FrameUsed machine.pmm page ↔ FrameUsed start.pmm page ∨ NewTable start machine page := by
  have balanced := (beneath.supply shown).balanced
  constructor
  · intro used
    rcases used_cases spaces kept used with isHeld | ⟨owner, owns⟩ | isLost
    · exact Or.inl (inv.sound.loose isHeld).1
    · rcases balanced.gained owns with none | ofKernel | before
      · exact absurd none id
      · cases owner with
        | directory object => exact absurd trivial ofKernel
        | table space index =>
          obtain rfl : space = none := not_not.mp ofKernel
          by_cases inRange : TableRange none index
          · rw [table_owner rfl inRange] at owns
            cases before : tableOf start.memory start.kernelDirectory index with
            | none => exact Or.inr ⟨index, inRange.lt, before, owns⟩
            | some table =>
              have startOwns : ownersOf spaces start (.table none index) = some table := by
                rw [table_owner rfl inRange, before]
              have still := (balanced.kept startOwns).resolve_left id
              rw [table_owner rfl inRange, owns] at still
              obtain rfl := Option.some.inj still
              exact Or.inl (inv.sound.owned startOwns).1
          · simp only [ownersOf, ownedFrame, inRange, ↓reduceIte, reduceCtorEq] at owns
        | page space virtualAddr =>
          obtain rfl : space = none := not_not.mp ofKernel
          by_cases inRange : PageRange none virtualAddr
          · have small : virtualAddr < 2 ^ 32 := by
              have high := inRange.2.2
              omega
            rw [page_owner rfl inRange, beneath.side.directory, same virtualAddr small] at owns
            have startOwns : ownersOf spaces start (.page none virtualAddr) = some page := by
              rw [page_owner rfl inRange, owns]
            exact Or.inl (inv.sound.owned startOwns).1
          · simp only [ownersOf, ownedFrame, inRange, ↓reduceIte, reduceCtorEq] at owns
      · exact Or.inl (inv.sound.owned before).1
    · exact Or.inl ((balanced.conserved.lost page aligned).mp isLost).1
  · rintro (used | ⟨index, inside, absent, entered⟩)
    · exact balanced.used beneath.owned (Set.Subset.refl kept) aligned used
    · have inRange : TableRange none index := by
        refine ⟨?_, inside⟩
        by_contra low
        rw [inv.identity index (Nat.lt_of_not_le low)] at absent
        cases absent
      have owns : ownersOf spaces machine (.table none index) = some page := by
        rw [table_owner rfl inRange, entered]
      exact (beneath.owned.sound.owned owns).1

/-! ## The law of growth -/

/-- The pages that `heap_grow` asks for. -/
def pagesFor (minimumPayloadBytes : Nat) : Nat :=
  let pages := ((minimumPayloadBytes + heapHeaderSize + (Heap.pmmPageSize - 1)) % 2 ^ 32) /
    Heap.pmmPageSize
  if pages = 0 then 1 else pages

/-- A returned block is listed, free and large enough, and the search that follows finds a block. -/
def Delivers (minimumPayloadBytes block : Nat) (after : HeapSystem Machine) : Prop :=
  ∃ blocks, Represents after.heap blocks ∧
    (∃ joined ∈ blocks, joined.addr = block ∧ joined.free = true ∧ minimumPayloadBytes ≤ joined.size) ∧
    ∃ found, found ≠ 0 ∧ findFreeBlock minimumPayloadBytes after = .done found after

/-- The variables of the heap, its bytes and all mappings of the kernel are the old ones, and no frame
is in use that was not before, tables of the kernel apart. -/
structure GrowthKept (before after : HeapSystem Machine) : Prop where
  heap : ∃ memory, after.heap = { before.heap with memory := memory }
  bytes : ∀ x, x < before.heap.heapVirtualNext → after.heap.memory.byte x = before.heap.memory.byte x
  directory : after.pages.kernelDirectory = before.pages.kernelDirectory
  entries : ∀ address < 2 ^ 32, pageEntry after.pages.memory before.pages.kernelDirectory address =
    pageEntry before.pages.memory before.pages.kernelDirectory address
  frames : ∀ page, page % 4096 = 0 → (FrameUsed after.pages.pmm page ↔
    FrameUsed before.pages.pmm page ∨ NewTable before.pages after.pages page)

/-- `heap_grow` delivers what was asked or nothing. -/
def GrowthLaw (minimumPayloadBytes : Nat) (system : HeapSystem Machine) : Prop :=
  ∃ block after, heapGrow kernelPages minimumPayloadBytes system = .done block after ∧
    (block ≠ 0 → Delivers minimumPayloadBytes block after) ∧ (block = 0 → GrowthKept system after)

/-- The request fails a test of its size, or a page of the region for it is refused, or all pages are
granted and the size was rounded up without overflow. -/
def GrowthReady (minimumPayloadBytes : Nat) (system : HeapSystem Machine) : Prop :=
  2 ^ 32 ≤ minimumPayloadBytes + 24 ∨
    heapVirtualLimitAddress <
      system.heap.heapVirtualNext + 4096 * pagesFor minimumPayloadBytes ∨
    (∃ i < pagesFor minimumPayloadBytes, RefusedAt system.pages system.heap.heapVirtualNext i) ∨
    (∀ i < pagesFor minimumPayloadBytes, PageGranted system.pages system.heap.heapVirtualNext i) ∧
      minimumPayloadBytes + 4119 < 2 ^ 32

theorem GrowthKept.refl (system : HeapSystem Machine) : GrowthKept system system := by
  refine ⟨⟨system.heap.memory, rfl⟩, fun _ _ => rfl, rfl, fun _ _ => rfl, ?_⟩
  intro page _
  constructor
  · exact Or.inl
  · rintro (used | ⟨index, -, absent, entered⟩)
    · exact used
    · rw [absent] at entered
      cases entered

/-- A request needs one page at least. -/
theorem pages_for_eq (minimumPayloadBytes : Nat) :
    pagesFor minimumPayloadBytes = max 1 ((minimumPayloadBytes + 4119) % 2 ^ 32 / 4096) := by
  simp only [pagesFor, header_size_eq, Heap.pmmPageSize]
  split <;> omega

theorem pages_for_bounds (minimumPayloadBytes : Nat) :
    0 < pagesFor minimumPayloadBytes ∧ pagesFor minimumPayloadBytes < 2 ^ 20 := by
  rw [pages_for_eq]
  omega

/-- The pages have room for the block if the size was rounded up without overflow. -/
theorem pages_for_room (exact : minimumPayloadBytes + 4119 < 2 ^ 32) :
    minimumPayloadBytes ≤ 4096 * pagesFor minimumPayloadBytes - 24 := by
  rw [pages_for_eq]
  omega

/-- The steps of `heap_grow`. -/
theorem heap_grow_steps {σ : Type} (layer : PageLayer σ) {heap : HeapState}
    {blocks : List Block} (con : Consistent heap blocks) (pages : σ)
    (minimumPayloadBytes : Nat) :
    heapGrow layer minimumPayloadBytes ⟨heap, pages⟩ =
      if 2 ^ 32 ≤ minimumPayloadBytes + 24 then .done 0 ⟨heap, pages⟩
      else if heapVirtualLimitAddress <
          heap.heapVirtualNext + 4096 * pagesFor minimumPayloadBytes then .done 0 ⟨heap, pages⟩
      else (heapMapVirtualRegion layer heap.heapVirtualNext (pagesFor minimumPayloadBytes)
          ⟨heap, pages⟩).andThen
        (joinRegion heap.heapVirtualNext (pagesFor minimumPayloadBytes)) := by
  obtain ⟨atLeastOne, bounded⟩ := pages_for_bounds minimumPayloadBytes
  rw [← heap_add_region_steps con pages atLeastOne bounded]
  by_cases tooLarge : 2 ^ 32 ≤ minimumPayloadBytes + 24
  · have refused : minimumPayloadBytes > 0xFFFFFFFF - heapHeaderSize := by
      rw [header_size_eq]
      omega
    rw [if_pos tooLarge, heapGrow, if_pos refused]
    rfl
  · have accepted : ¬ minimumPayloadBytes > 0xFFFFFFFF - heapHeaderSize := by
      rw [header_size_eq]
      omega
    rw [if_neg tooLarge, heapGrow, if_neg accepted]
    rfl

/-- What is shown of the kernel's half in the loaded directory is the kernel's. -/
theorem Accounted.shared_loaded {system : MemorySystem} (inv : Accounted image held system) :
    SharedLoaded system.machine := by
  intro index low high present
  obtain ⟨record, -, loaded, isDirectory⟩ := inv.loaded_directory
  rw [loaded] at present ⊢
  cases isCurrent : system.currentSpace with
  | none =>
    rw [isCurrent] at isDirectory
    rw [← Option.some.inj isDirectory]
  | some object =>
    rw [isCurrent] at isDirectory
    obtain ⟨space, isSpace, same⟩ := Option.map_eq_some_iff.mp isDirectory
    rw [← same] at present ⊢
    exact inv.shared object space isSpace index (Or.inr ⟨low, high⟩) present

/-- The heap's block of one page cannot hold a request whose size was not rounded up. -/
theorem not_delivers {block : Nat} {after : HeapSystem Machine}
    (inexact : 2 ^ 32 ≤ minimumPayloadBytes + 4119) :
    ¬ Delivers minimumPayloadBytes block after := by
  rintro ⟨blocks, rep, ⟨joined, member, -, -, large⟩, -⟩
  have bounds := rep.bounds member
  have within := rep.within
  simp only [Block.stop, heapVirtualLimitAddress] at bounds within
  omega

/-- The pages were mapped.

Proof: the fresh block is linked and joined with a free block in front of it. It is then at least as
large as the pages without a header. -/
theorem grown_law {heap : HeapState} {blocks : List Block}
    {mapped : HeapSystem Machine} (con : Consistent heap blocks)
    (room : heap.heapVirtualNext + 4096 * pagesFor minimumPayloadBytes ≤ heapVirtualLimitAddress)
    {memory : Memory} (same : mapped.heap = { heap with memory := memory })
    (keptBelow : ∀ x, x < heap.heapVirtualNext → memory.byte x = heap.memory.byte x) :
    ∃ block after, joinRegion heap.heapVirtualNext (pagesFor minimumPayloadBytes) 0 mapped =
        .done block after ∧ block ≠ 0 ∧
      (minimumPayloadBytes + 4119 < 2 ^ 32 → Delivers minimumPayloadBytes block after) := by
  obtain ⟨heap', blocks', joined, ran, grown, -, member, free, large⟩ := join_region_exact con memory
    mapped.pages (pages_for_bounds minimumPayloadBytes).1 room keptBelow
  have rep := grown.consistent.toRepresents
  have notNull (block : Block) (listed : block ∈ blocks') : block.addr ≠ 0 := by
    have bounds := rep.bounds listed
    have base := rep.base
    simp only [heapVirtualBaseAddress] at base
    omega
  rw [← same] at ran
  refine ⟨joined.addr, _, ran, notNull joined member, ?_⟩
  intro exact
  have enough := Nat.le_trans (pages_for_room exact) large
  refine ⟨blocks', rep, ⟨joined, member, rfl, free, enough⟩, firstFit minimumPayloadBytes blocks', ?_,
    find_free_block_exact minimumPayloadBytes mapped.pages rep⟩
  rcases first_fit_cases minimumPayloadBytes blocks' with
    ⟨-, noneFits⟩ | ⟨left, block, right, split, found, -⟩
  · exact absurd (noneFits joined member free) (Nat.not_lt.mpr enough)
  · rw [found]
    exact notNull block (split ▸ List.mem_append_right left List.mem_cons_self)

/-- The pages were taken back. -/
theorem refused_law (inv : Owned image spaces kept start) (shown : Shown spaces start)
    {heap : HeapState} {after : HeapSystem Machine} {memory : Memory}
    (same : after.heap = { heap with memory := memory })
    (keptBelow : ∀ x, x < heap.heapVirtualNext → memory.byte x = heap.memory.byte x)
    (beneath : Beneath image spaces kept start kept after.pages)
    (outside : SameOutside low low start after.pages) : GrowthKept ⟨heap, start⟩ after := by
  have entries (address : Nat) (small : address < 2 ^ 32) :=
    outside address small (Nat.lt_or_ge address low)
  refine ⟨⟨memory, same⟩, ?_, beneath.side.directory, entries, ?_⟩
  · rw [same]
    exact keptBelow
  · intro page aligned
    exact beneath.frames inv shown entries aligned

/-- In every reachable system `heap_grow` delivers what was asked or nothing exactly if the request
fails a test of its size, or one of its pages is refused, or all of them are granted and its size was
rounded up without overflow.

Proof: the mapping of the pages ends in one of three ways. If they are mapped, all were granted, and
the block is large enough unless the size overflowed, in which case no block can be. If they are taken
back, one was refused; all entries are the old ones, and so are the frames. A page fault is not a
return, and the page was neither granted nor refused. -/
theorem heap_growth_law_iff {system : MemorySystem}
    (reached : MemoryReachable image Proper system) (minimumPayloadBytes : UInt32) :
    GrowthLaw minimumPayloadBytes.toNat system.client.system ↔
      GrowthReady minimumPayloadBytes.toNat system.client.system := by
  obtain ⟨request, requestEq⟩ : ∃ request, request = minimumPayloadBytes.toNat := ⟨_, rfl⟩
  rw [← requestEq]
  have inv := reachable_accounted (fun _ _ proper => proper) reached
  obtain ⟨blocks, client⟩ := inv.heap.client
  have con := client.consistent
  obtain ⟨aligned, low⟩ := con.next_aligned
  have shown := inv.shown (SharedKept.refl system.spaces ∅ system.machine).toDirectoriesKept
  have steps := heap_grow_steps kernelPages con system.machine request
  by_cases tooLarge : 2 ^ 32 ≤ request + 24
  · rw [if_pos tooLarge] at steps
    exact iff_of_true ⟨0, _, steps, fun notNull => absurd rfl notNull, fun _ => GrowthKept.refl _⟩
      (Or.inl tooLarge)
  rw [if_neg tooLarge] at steps
  by_cases full : heapVirtualLimitAddress <
      system.client.system.heap.heapVirtualNext + 4096 * pagesFor request
  · rw [if_pos full] at steps
    exact iff_of_true ⟨0, _, steps, fun notNull => absurd rfl notNull, fun _ => GrowthKept.refl _⟩
      (Or.inr (Or.inl full))
  rw [if_neg full] at steps
  have high := Nat.not_lt.mp full
  have inBounds : system.client.system.heap.heapVirtualNext + 4096 * (0 + pagesFor request) ≤ 2 ^ 32 := by
    simp only [heapVirtualLimitAddress] at high
    omega
  have memoryKept : (heapMapVirtualRegion kernelPages system.client.system.heap.heapVirtualNext
      (pagesFor request) system.client.system).Sat _ :=
    map_region_from_heap kernelPages _ (pagesFor request) 0 system.client.system.heap system.machine
      inBounds
  have ended : RegionEnd _ _ _ _ _ _ (heapMapVirtualRegion kernelPages
      system.client.system.heap.heapVirtualNext (pagesFor request) system.client.system) :=
    (region_rule_entries inv.owned shown inv.shared_loaded aligned low high).map_region
      system.client.system.heap
      ⟨⟨fun _ i inside => absurd inside (Nat.not_lt_zero i), Beneath.refl inv.owned⟩,
        SameOutside.refl _ _ _, Drawn.refl _ _⟩
  simp only [GrowthReady, tooLarge, full, false_or]
  generalize mapping : heapMapVirtualRegion kernelPages system.client.system.heap.heapVirtualNext
    (pagesFor request) system.client.system = outcome at ended memoryKept
  have steps : heapGrow kernelPages request system.client.system = outcome.andThen
    (joinRegion system.client.system.heap.heapVirtualNext (pagesFor request)) := mapping ▸ steps
  cases ended with
  | grown mapped =>
    have granted : ∀ i < pagesFor request, PageGranted system.client.system.pages
        system.client.system.heap.heapVirtualNext i := mapped.2.2.granted
    have notRefused : ¬ ∃ i < pagesFor request, RefusedAt system.client.system.pages
        system.client.system.heap.heapVirtualNext i := by
      rintro ⟨i, inside, -, refused⟩
      exact (granted i inside).not_refused refused
    rw [or_iff_right notRefused, and_iff_right granted]
    obtain ⟨memory, same, keptOutside⟩ := memoryKept
    obtain ⟨block, after, joined, notNull, delivers⟩ := grown_law con high same
      fun x below => keptOutside x (Or.inl below)
    have returned : heapGrow kernelPages request system.client.system = .done block after := by
      rw [steps, andThen_done]
      exact joined
    constructor
    · rintro ⟨block', after', returned', delivered, -⟩
      obtain ⟨rfl, rfl⟩ := Outcome.done.inj (returned.symm.trans returned')
      by_contra inexact
      exact not_delivers (Nat.not_lt.mp inexact) (delivered notNull)
    · intro exact
      exact ⟨block, after, returned, fun _ => delivers exact, fun null => absurd null notNull⟩
  | refused notZero inside undone =>
    obtain ⟨memory, same, keptOutside⟩ := memoryKept
    have returned := steps
    simp only [andThen_done, joinRegion, notZero, ne_eq, not_false_eq_true, ↓reduceIte]
      at returned
    refine iff_of_true ⟨0, _, returned, fun notNull => absurd rfl notNull, fun _ => ?_⟩
      (Or.inl ⟨_, inside, undone.2.2⟩)
    exact refused_law inv.owned shown same (fun x below => keptOutside x (Or.inl below)) undone.1.2
      undone.2.1
  | @fault message next i page pages inside holds accepted closed =>
    obtain ⟨isPage, inRange⟩ := region_page_range aligned low high inside
    obtain ⟨notGranted, notRefused⟩ := (holds.map inv.owned shown inv.shared_loaded isPage
      inRange).2.2 accepted closed
    refine iff_of_false ?_ ?_
    · rintro ⟨block, after, returned, -⟩
      rw [steps] at returned
      cases returned
    · rintro (⟨j, -, granted, refused⟩ | ⟨granted, -⟩)
      · rcases Nat.lt_trichotomy j i with before | rfl | behind
        · exact (holds.2.2.1.granted j before).not_refused refused
        · exact notRefused refused
        · exact notGranted (granted i behind)
      · exact notGranted (granted i inside)

set_option maxRecDepth 100000 in
/-- Two pages are added for 8000 bytes. -/
theorem two_pages_delivered : ∃ system : MemorySystem, GrowthLaw 8000 system.client.system ∧
    (heapGrow kernelPages 8000 system.client.system).result.map Prod.fst = some 0xD1000000 := by
  have completed : (smallRun Proper []).map (fun memory =>
      let system := memory.client.system
      (decide (∀ i < pagesFor 8000,
        framesBefore system.pages system.heap.heapVirtualNext i < freeBelow 4096 system.pages.pmm ∧
        isPresent (pageEntry system.pages.memory system.pages.kernelDirectory
          (system.heap.heapVirtualNext + 4096 * i)) = false ∧
        ¬ NeedsTable system.pages system.heap.heapVirtualNext i ∧
        isPresent (system.pages.memory.word system.pages.cr3 (directoryIndex
          (system.heap.heapVirtualNext + 4096 * i))) = true),
      (heapGrow kernelPages 8000 system).result.map Prod.fst)) = some (true, some 0xD1000000) := by
    decide +kernel
  obtain ⟨system, reached, facts⟩ := small_run_facts completed
  obtain ⟨checked, returned⟩ := Prod.mk.inj facts
  refine ⟨system, (heap_growth_law_iff reached 8000).mpr
    (Or.inr (Or.inr (Or.inr ⟨fun i inside => ?_, by decide⟩))), returned⟩
  obtain ⟨frame, unmapped, noTable, loaded⟩ := of_decide_eq_true checked i inside
  exact ⟨Nat.lt_of_lt_of_le frame (free_below_mono (by decide) _), unmapped,
    fun needed => absurd needed noTable, Or.inr loaded⟩

set_option maxRecDepth 100000 in
/-- A request for all but 32 bytes of the address space is taken for one page. -/
theorem huge_request_one_page : ∃ system : MemorySystem, MemoryReachable smallImage Proper system ∧
    (heapGrow kernelPages 0xFFFFFFE0 system.client.system).result.map Prod.fst = some 0xD1000000 ∧
    ¬ GrowthLaw 0xFFFFFFE0 system.client.system := by
  have completed : (smallRun Proper []).map (fun system =>
      (heapGrow kernelPages 0xFFFFFFE0 system.client.system).result.map Prod.fst) =
        some (some 0xD1000000) := by
    decide +kernel
  obtain ⟨system, reached, returned⟩ := small_run_facts completed
  refine ⟨system, reached, returned, ?_⟩
  rintro ⟨block, after, isDone, delivered, -⟩
  rw [isDone] at returned
  obtain rfl : block = 0xD1000000 := Option.some.inj returned
  exact not_delivers (by decide) (delivered (by decide))

end Toyix.Paging
