import Toyix.Paging.Apart
import Toyix.Paging.Isolation

/-!
# The law of kernel mappings

What a caller expects of `vmm_map_page`: a success maps the page, keeps every other translation,
writes the page's table and directory entry only and can be undone by `vmm_unmap_page`; an error
changes nothing.

The law fails in one way that matters. When the directory has no table for the address and no
frame below 16 MiB is free, the null table is used, which is the page at physical address zero:
the call reports success and nothing is mapped. Flags above the flag bits are dropped.
-/

namespace Toyix.Paging

open Library Pmm

variable {image : Image} {spaces : Nat → Option AddressSpace} {held : Set Nat}
  {machine next : Machine} {virtualAddr physicalAddr flags : Nat}

/-! ## The law -/

/-- Every address translates as before, with the same flags. -/
def SameTranslations (machine next : Machine) : Prop :=
  ∀ address < 2 ^ 32, vmmGetPhysical address next = vmmGetPhysical address machine ∧
    vmmGetFlags address next = vmmGetFlags address machine

/-- What a successful `vmm_map_page` owes. -/
structure MapsPage (virtualAddr physicalAddr flags : Nat) (machine next : Machine) : Prop where
  physical : ∀ offset < 4096, vmmGetPhysical (virtualAddr + offset) next = physicalAddr + offset
  flags : vmmGetFlags virtualAddr next &&& flags = flags
  others : ∀ address < 2 ^ 32, address / 4096 ≠ virtualAddr / 4096 →
    vmmGetPhysical address next = vmmGetPhysical address machine ∧
      vmmGetFlags address next = vmmGetFlags address machine
  writes : ∀ address, next.memory.byte address ≠ machine.memory.byte address →
    (∃ table, tableOf next.memory next.kernelDirectory (directoryIndex virtualAddr) = some table ∧
      table ≤ address ∧ address < table + 4096) ∨
    (next.kernelDirectory + 4 * directoryIndex virtualAddr ≤ address ∧
      address < next.kernelDirectory + 4 * directoryIndex virtualAddr + 4)
  undone : (vmmUnmapPage virtualAddr next).1 = vmmOk ∧
    SameTranslations machine (vmmUnmapPage virtualAddr next).2

/-- A success maps the page, an error changes nothing. -/
def MapLaw (virtualAddr physicalAddr flags : Nat) (machine : Machine) : Prop :=
  ((vmmMapPage virtualAddr physicalAddr flags machine).1 = vmmOk →
    MapsPage virtualAddr physicalAddr flags machine
      (vmmMapPage virtualAddr physicalAddr flags machine).2) ∧
  ((vmmMapPage virtualAddr physicalAddr flags machine).1 ≠ vmmOk →
    SameTranslations machine (vmmMapPage virtualAddr physicalAddr flags machine).2 ∧
      (vmmMapPage virtualAddr physicalAddr flags machine).2.memory = machine.memory)

/-- When the law holds: an address is not aligned; or there is a table or a frame for one, and the
page is mapped already or only flag bits are requested; or there is neither and the null table's
entry happens to be present. -/
def MapsCleanly (virtualAddr physicalAddr flags : Nat) (machine : Machine) : Prop :=
  virtualAddr % 4096 ≠ 0 ∨ physicalAddr % 4096 ≠ 0 ∨
    (TableAvailable virtualAddr machine ∧
      (isPresent (pageEntry machine.memory machine.kernelDirectory virtualAddr) = true ∨
        flags < 4096)) ∨
    (¬ TableAvailable virtualAddr machine ∧
      isPresent (machine.memory.word 0 (tableIndex virtualAddr)) = true)

/-! ## Entries after a store -/

/-- Translations depend on the entries. -/
theorem same_translations (sameDirectory : next.kernelDirectory = machine.kernelDirectory)
    (same : ∀ address < 2 ^ 32, pageEntry next.memory machine.kernelDirectory address =
      pageEntry machine.memory machine.kernelDirectory address) : SameTranslations machine next := by
  intro address bounded
  simp only [vmmGetPhysical, vmmGetFlags, sameDirectory, same address bounded, and_self]

/-- The indices of the kernel directory. -/
abbrev KernelIndex (index : Nat) : Prop := index < 1024

theorem Owned.tables_apart (owned : Owned image spaces held machine) :
    TablesApart machine.memory machine.kernelDirectory KernelIndex := by
  refine ⟨owned.kernel_aligned, fun _ inside => inside, ?_, ?_⟩
  · intro index table inside entered
    exact (owned.kernel_table inside entered).2.1
  · intro index other table inside inside' entered entered'
    exact owned.kernel_table_unique inside inside' entered entered'

variable {memory : Memory} {directory table index tab : Nat}

/-! ## A mapping through a table -/

/-- The entry that `vmm_map_page` makes. -/
theorem map_entry_bits (flags : Nat) (aligned : physicalAddr % 4096 = 0)
    (bounded : physicalAddr < 2 ^ 32) :
    isPresent (mapEntry physicalAddr flags) = true ∧
      mapEntry physicalAddr flags &&& x86PageFrameMask = physicalAddr ∧
      mapEntry physicalAddr flags &&& x86PageFlagsMask =
        (flags &&& x86PageFlagsMask) ||| x86PagePresent := by
  obtain ⟨present, frame⟩ := entry_page_eq_some.mp (map_entry_made flags aligned bounded).1
  refine ⟨present, frame, ?_⟩
  have small : (flags &&& x86PageFlagsMask) ||| x86PagePresent < 2 ^ 12 := by
    refine Nat.or_lt_two_pow ?_ (by decide)
    exact Nat.lt_of_le_of_lt Nat.and_le_right (by decide)
  rw [mapEntry, Nat.or_assoc, entry_eq_add aligned bounded small]
  have masked : (physicalAddr + ((flags &&& x86PageFlagsMask) ||| x86PagePresent)) &&&
      x86PageFlagsMask = (physicalAddr + ((flags &&& x86PageFlagsMask) ||| x86PagePresent)) % 2 ^ 12 :=
    Nat.and_two_pow_sub_one_eq_mod _ 12
  rw [masked]
  omega

/-- The flags of the entry contain what was requested when only flag bits were. -/
theorem requested_flags (flags : Nat) :
    ((flags &&& x86PageFlagsMask) ||| x86PagePresent) &&& flags = flags ↔ flags < 4096 := by
  constructor
  · intro contained
    rw [← contained]
    refine Nat.lt_of_le_of_lt Nat.and_le_left ?_
    refine Nat.or_lt_two_pow (n := 12) ?_ (by decide)
    exact Nat.lt_of_le_of_lt Nat.and_le_right (by decide)
  · intro small
    have masked : flags &&& x86PageFlagsMask = flags := by
      have isMod : flags &&& x86PageFlagsMask = flags % 2 ^ 12 := Nat.and_two_pow_sub_one_eq_mod _ 12
      rw [isMod]
      exact Nat.mod_eq_of_lt small
    rw [masked, Nat.and_or_distrib_right, Nat.and_self]
    apply Nat.eq_of_testBit_eq
    intro bit
    simp only [Nat.testBit_or, Nat.testBit_and]
    cases flags.testBit bit <;> simp

/-- Addresses of one page. -/
theorem page_indices {offset : Nat} (aligned : virtualAddr % 4096 = 0) (small : offset < 4096) :
    directoryIndex (virtualAddr + offset) = directoryIndex virtualAddr ∧
      tableIndex (virtualAddr + offset) = tableIndex virtualAddr ∧
      (virtualAddr + offset) &&& (x86PageSize - 1) = offset := by
  have mask : (virtualAddr + offset) &&& (x86PageSize - 1) = (virtualAddr + offset) % 2 ^ 12 :=
    Nat.and_two_pow_sub_one_eq_mod _ 12
  rw [directory_index_eq, directory_index_eq, table_index_eq, table_index_eq, mask]
  omega

theorem other_page {address : Nat} (different : address / 4096 ≠ virtualAddr / 4096) :
    ¬ (directoryIndex address = directoryIndex virtualAddr ∧
      tableIndex address = tableIndex virtualAddr) := by
  rw [directory_index_eq, directory_index_eq, table_index_eq, table_index_eq]
  omega

/-- The entries after the store of `vmm_map_page`. -/
theorem stored_page_entry (apart : TablesApart memory directory KernelIndex)
    (entered : tableOf memory directory (directoryIndex virtualAddr) = some table)
    (aligned' : physicalAddr % 4096 = 0) (bounded' : physicalAddr < 2 ^ 32) (flags : Nat)
    (bounded : virtualAddr < 2 ^ 32) {address : Nat} (addressBounded : address < 2 ^ 32) :
    pageEntry (memory.setWord table (tableIndex virtualAddr) (mapEntry physicalAddr flags))
        directory address =
      if directoryIndex address = directoryIndex virtualAddr ∧
        tableIndex address = tableIndex virtualAddr then mapEntry physicalAddr flags
      else pageEntry memory directory address := by
  rw [apart.entry_stored (directory_index_lt bounded) entered (table_index_lt virtualAddr)
    (map_entry_made flags aligned' bounded').2 (directory_index_lt addressBounded),
    (map_entry_bits flags aligned' bounded').1]
  rfl

/-- The machine once there is a table for an address: the directory is in order, nothing new is
translated, and only the table and its directory entry were written. -/
structure TableEntered (machine : Machine) (virtualAddr table : Nat) (base : Machine) : Prop where
  apart : TablesApart base.memory base.kernelDirectory KernelIndex
  directory : base.kernelDirectory = machine.kernelDirectory
  entries : ∀ address < 2 ^ 32, pageEntry base.memory base.kernelDirectory address =
    pageEntry machine.memory machine.kernelDirectory address
  writes : ∀ address, base.memory.byte address ≠ machine.memory.byte address →
    (table ≤ address ∧ address < table + 4096) ∨
    (base.kernelDirectory + 4 * directoryIndex virtualAddr ≤ address ∧
      address < base.kernelDirectory + 4 * directoryIndex virtualAddr + 4)
  entered : tableOf base.memory base.kernelDirectory (directoryIndex virtualAddr) = some table
  found : isPresent (base.memory.word table (tableIndex virtualAddr)) = true →
    base.memory = machine.memory

/-- A free entry of a table that is in the directory is stored.

Proof: the store changes one entry; clearing it brings back what was there. -/
theorem TableEntered.maps {base : Machine} (ready : TableEntered machine virtualAddr table base)
    (absent : isPresent (base.memory.word table (tableIndex virtualAddr)) = false)
    (aligned : virtualAddr % 4096 = 0) (bounded : virtualAddr < 2 ^ 32)
    (aligned' : physicalAddr % 4096 = 0) (bounded' : physicalAddr < 2 ^ 32) (small : flags < 4096) :
    MapsPage virtualAddr physicalAddr flags machine
      (base.mapped table virtualAddr physicalAddr flags) := by
  obtain ⟨apart, sameDirectory, same, kept, entered, -⟩ := ready
  have inside := directory_index_lt bounded
  have tabInside := table_index_lt virtualAddr
  have entryBounded := (map_entry_made flags aligned' bounded').2
  obtain ⟨present, frame, flagBits⟩ := map_entry_bits flags aligned' bounded'
  have stored : ∀ address < 2 ^ 32, pageEntry (base.memory.setWord table (tableIndex virtualAddr)
      (mapEntry physicalAddr flags)) base.kernelDirectory address =
        if directoryIndex address = directoryIndex virtualAddr ∧
          tableIndex address = tableIndex virtualAddr then mapEntry physicalAddr flags
        else pageEntry machine.memory machine.kernelDirectory address := by
    intro address addressBounded
    rw [← same address addressBounded]
    exact stored_page_entry apart entered aligned' bounded' flags bounded addressBounded
  have inPage : ∀ offset < 4096, pageEntry (base.memory.setWord table (tableIndex virtualAddr)
      (mapEntry physicalAddr flags)) base.kernelDirectory (virtualAddr + offset) =
        mapEntry physicalAddr flags := by
    intro offset smallOffset
    obtain ⟨sameIndex, sameTab, -⟩ := page_indices aligned smallOffset
    rw [stored (virtualAddr + offset) (by omega), if_pos ⟨sameIndex, sameTab⟩]
  constructor
  · intro offset smallOffset
    simp only [vmmGetPhysical, Machine.mapped_memory, Machine.mapped_directory,
      inPage offset smallOffset, present, Bool.true_eq_false, ↓reduceIte,
      frame, (page_indices aligned smallOffset).2.2]
  · have entry := inPage 0 (by decide)
    rw [Nat.add_zero] at entry
    simp only [vmmGetFlags, Machine.mapped_memory, Machine.mapped_directory, entry, present,
      Bool.true_eq_false, ↓reduceIte, flagBits]
    exact (requested_flags flags).mpr small
  · intro address addressBounded different
    have entry := stored address addressBounded
    rw [if_neg (other_page different)] at entry
    simp only [vmmGetPhysical, vmmGetFlags, Machine.mapped_memory, Machine.mapped_directory, entry,
      and_self]
  · intro address changed
    have directoryKept := apart.directory_kept inside entered tabInside entryBounded inside
    by_cases inTable : table ≤ address ∧ address < table + 4096
    · exact Or.inl ⟨table, (table_of_congr directoryKept).trans entered, inTable⟩
    · rw [Machine.mapped_memory, Memory.setWord_byte _ tabInside (by omega)] at changed
      exact Or.inr ((kept address changed).resolve_left inTable)
  · have directoryKept := apart.directory_kept inside entered tabInside entryBounded inside
    have stillEntered := (table_of_congr directoryKept).trans entered
    have apart' := apart.stored inside entered tabInside entryBounded
    have translated : pageOf (base.memory.setWord table (tableIndex virtualAddr)
        (mapEntry physicalAddr flags)) base.kernelDirectory (directoryIndex virtualAddr)
        (tableIndex virtualAddr) = some physicalAddr := by
      have entry := inPage 0 (by decide)
      rw [Nat.add_zero] at entry
      rw [← page_entry_of_page, entry]
      exact (map_entry_made flags aligned' bounded').1
    rcases vmm_unmap_page_cases (base.mapped table virtualAddr physicalAddr flags) aligned with
      ⟨none, -⟩ | ⟨table', _, _, entered', -, unmapped⟩
    · exact absurd (translated.symm.trans none) (Option.some_ne_none physicalAddr)
    · obtain rfl : table' = table := Option.some.inj (entered'.symm.trans stillEntered)
      rw [unmapped]
      refine ⟨rfl, same_translations sameDirectory ?_⟩
      intro address addressBounded
      have addressRange : KernelIndex (directoryIndex address) := directory_index_lt addressBounded
      have cleared := apart'.entry_stored inside stillEntered tabInside (show 0 < 2 ^ 32 by decide)
        addressRange
      rw [stored address addressBounded, sameDirectory] at cleared
      refine cleared.trans ?_
      by_cases inPage : directoryIndex address = directoryIndex virtualAddr ∧
          tableIndex address = tableIndex virtualAddr
      · rw [if_pos inPage, ← same address addressBounded,
          page_entry_of_table (inPage.1 ▸ entered), inPage.2, absent]
        rfl
      · rw [if_neg inPage, if_neg inPage]

/-! ## The two directions -/

/-- A frame for a table is fresh. -/
theorem Owned.fresh_not_table (owned : Owned image spaces held machine)
    {pmm : PmmState} {page : Nat} (taken : Takes machine.pmm pmm page) :
    ∀ other < 1024, tableOf machine.memory machine.kernelDirectory other ≠ some page := by
  intro other inside entered
  exact taken.fresh (owned.kernel_table inside entered).1

/-- With a table in the directory, the law holds for flag bits, or when the page is mapped. -/
theorem TableEntered.law {base : Machine} (ready : TableEntered machine virtualAddr table base)
    (aligned : virtualAddr % 4096 = 0) (bounded : virtualAddr < 2 ^ 32)
    (aligned' : physicalAddr % 4096 = 0) (bounded' : physicalAddr < 2 ^ 32)
    (mapped : (isPresent (base.memory.word table (tableIndex virtualAddr)) = true ∧
        vmmMapPage virtualAddr physicalAddr flags machine = (vmmErrAlreadyMapped, base)) ∨
      (isPresent (base.memory.word table (tableIndex virtualAddr)) = false ∧
        vmmMapPage virtualAddr physicalAddr flags machine =
          (vmmOk, base.mapped table virtualAddr physicalAddr flags))) :
    MapLaw virtualAddr physicalAddr flags machine ↔
      (isPresent (pageEntry machine.memory machine.kernelDirectory virtualAddr) = true ∨
        flags < 4096) := by
  have before := page_entry_of_table ready.entered
  rw [ready.entries virtualAddr bounded] at before
  rcases mapped with ⟨present, refused⟩ | ⟨absent, stored⟩
  · have sameMemory := ready.found present
    rw [present] at before
    constructor
    · intro _
      rw [before]
      exact Or.inl present
    · intro _
      unfold MapLaw
      rw [refused]
      refine ⟨fun absurd => (by cases absurd), fun _ => ⟨?_, sameMemory⟩⟩
      apply same_translations ready.directory
      intro address _
      rw [sameMemory]
  · rw [absent] at before
    unfold MapLaw
    rw [stored]
    constructor
    · rintro ⟨maps, -⟩
      have contained := (maps rfl).flags
      have entry := stored_page_entry ready.apart ready.entered aligned' bounded' flags bounded bounded
      rw [if_pos ⟨rfl, rfl⟩] at entry
      obtain ⟨present, -, flagBits⟩ := map_entry_bits flags aligned' bounded'
      simp only [vmmGetFlags, Machine.mapped_memory, Machine.mapped_directory, entry, present, Bool.true_eq_false, ↓reduceIte, flagBits] at contained
      exact Or.inr ((requested_flags flags).mp contained)
    · intro condition
      have small : flags < 4096 := by
        refine condition.resolve_left ?_
        rw [before, if_pos rfl]
        decide
      exact ⟨fun _ => ready.maps absent aligned bounded aligned' bounded' small,
        fun absurd => (absurd rfl).elim⟩

/-- A table was opened, and it is clear. -/
theorem Owned.table_entered (owned : Owned image spaces held machine)
    {pmm : PmmState} {tableFlags : Nat} (bounded : virtualAddr < 2 ^ 32)
    (absent : isPresent (machine.memory.word machine.kernelDirectory
      (directoryIndex virtualAddr)) = false)
    (taken : Takes machine.pmm pmm table) (odd : tableFlags < 4096 ∧ tableFlags % 2 = 1) :
    TableEntered machine virtualAddr table (machine.opened pmm machine.kernelDirectory
        (directoryIndex virtualAddr) table tableFlags) ∧
      isPresent ((machine.opened pmm machine.kernelDirectory (directoryIndex virtualAddr) table
        tableFlags).memory.word table (tableIndex virtualAddr)) = false := by
  have inside := directory_index_lt bounded
  have apart := owned.tables_apart
  have notKernel := owned.fresh_not_kernel taken
  obtain ⟨present, frame, entryBounded⟩ := entry_page_made taken.allocatable.1
    taken.allocatable.2.2 odd.1 odd.2
  obtain ⟨apart', entered, same⟩ := apart.entry_opened (table_of_eq_none.mpr absent) inside
    taken.allocatable.1 notKernel (owned.fresh_not_table taken) present frame entryBounded
  have cleared : isPresent ((machine.opened pmm machine.kernelDirectory (directoryIndex virtualAddr)
      table tableFlags).memory.word table (tableIndex virtualAddr)) = false := by
    simp only [Machine.opened]
    rw [Memory.word_setWord _ apart.aligned taken.allocatable.1 inside (table_index_lt virtualAddr)
      entryBounded, if_neg (fun both => notKernel both.1), Memory.word_clearPage _ taken.allocatable.1
      taken.allocatable.1 (table_index_lt virtualAddr), if_pos rfl]
    rfl
  refine ⟨⟨apart', rfl, fun address small => same address (directory_index_lt small), ?_, entered,
    fun present => absurd present (Bool.eq_false_iff.mp cleared)⟩, cleared⟩
  intro address changed
  by_cases inTable : table ≤ address ∧ address < table + 4096
  · exact Or.inl inTable
  · right
    by_contra outside
    refine changed ?_
    simp only [Machine.opened] at outside ⊢
    rw [Memory.setWord, Memory.write32_apply_outside _ _ _ _ (by omega)]
    exact Memory.clearPage_byte _ (by omega)

/-- The law, for aligned addresses. -/
theorem Owned.map_law (owned : Owned image spaces held machine)
    (aligned : virtualAddr % 4096 = 0) (bounded : virtualAddr < 2 ^ 32)
    (aligned' : physicalAddr % 4096 = 0) (bounded' : physicalAddr < 2 ^ 32) :
    MapLaw virtualAddr physicalAddr flags machine ↔
      (TableAvailable virtualAddr machine ∧
        (isPresent (pageEntry machine.memory machine.kernelDirectory virtualAddr) = true ∨
          flags < 4096)) ∨
      (¬ TableAvailable virtualAddr machine ∧
        isPresent (machine.memory.word 0 (tableIndex virtualAddr)) = true) := by
  have apart := owned.tables_apart
  have inside := directory_index_lt bounded
  obtain ⟨table, base, ready, mapped⟩ := vmm_map_page_cases flags machine aligned aligned'
  cases ready with
  | found entered =>
    have available : TableAvailable virtualAddr machine := Or.inl (table_of_eq_some.mp entered).1
    have ready : TableEntered machine virtualAddr table machine :=
      ⟨apart, rfl, fun _ _ => rfl, fun _ changed => absurd rfl changed, entered, fun _ => rfl⟩
    rw [ready.law aligned bounded aligned' bounded' mapped]
    simp only [available, true_and, not_true_eq_false, false_and, or_false]
  | opened absent taken below =>
    have available : TableAvailable virtualAddr machine := table_available taken below
    have ready := (owned.table_entered bounded absent taken (kernel_table_flags_odd flags)).1
    rw [ready.law aligned bounded aligned' bounded' mapped]
    simp only [available, true_and, not_true_eq_false, false_and, or_false]
  | missing absent exhausted =>
    have unavailable : ¬ TableAvailable virtualAddr machine := not_table_available absent exhausted
    simp only [unavailable, false_and, false_or, not_false_eq_true, true_and]
    rcases mapped with ⟨present, refused⟩ | ⟨free, stored⟩
    · constructor
      · exact fun _ => present
      · intro _
        unfold MapLaw
        rw [refused]
        exact ⟨fun absurd => (by cases absurd), fun _ => ⟨fun _ _ => ⟨rfl, rfl⟩, rfl⟩⟩
    · constructor
      · rintro ⟨maps, -⟩
        rw [stored] at maps
        have physical := (maps rfl).physical 1 (by decide)
        have kept : (machine.memory.setWord 0 (tableIndex virtualAddr)
            (mapEntry physicalAddr flags)).word machine.kernelDirectory (directoryIndex virtualAddr) =
            machine.memory.word machine.kernelDirectory (directoryIndex virtualAddr) := by
          rw [Memory.word_setWord _ rfl apart.aligned (table_index_lt virtualAddr) inside
            (map_entry_made flags aligned' bounded').2, if_neg]
          rintro ⟨isZero, -⟩
          have low := image.low
          have loaded := image.loaded
          have isImage := owned.kernelDirectory
          omega
        have noTable : tableOf (machine.memory.setWord 0 (tableIndex virtualAddr)
            (mapEntry physicalAddr flags)) machine.kernelDirectory (directoryIndex (virtualAddr + 1)) =
            none := by
          rw [(page_indices aligned (show 1 < 4096 by decide)).1, table_of_congr kept]
          exact table_of_eq_none.mpr absent
        simp only [vmmGetPhysical, Machine.mapped_memory, Machine.mapped_directory,
          page_entry_of_no_table noTable] at physical
        cases physical
      · intro present
        rw [free] at present
        cases present

/-- The kernel mapping law holds exactly when `MapsCleanly` does, in every state that calls reach
from boot and for all addresses and flags. -/
theorem kernel_mapping_law_iff (image : Image) (system : MemorySystem)
    (reached : MemoryReachable image Proper system) (virtualAddr physicalAddr flags : UInt32) :
    MapLaw virtualAddr.toNat physicalAddr.toNat flags.toNat system.machine ↔
      MapsCleanly virtualAddr.toNat physicalAddr.toNat flags.toNat system.machine := by
  have owned := (reachable_accounted (fun _ _ proper => proper) reached).owned
  have bounded := virtualAddr.toNat_lt
  have bounded' := physicalAddr.toNat_lt
  unfold MapsCleanly
  by_cases aligned : virtualAddr.toNat % 4096 = 0 ∧ physicalAddr.toNat % 4096 = 0
  · simp only [aligned, ne_eq, not_true_eq_false, false_or]
    exact owned.map_law aligned.1 bounded aligned.2 bounded'
  · have refused := vmm_map_page_unaligned flags.toNat system.machine aligned
    constructor
    · intro _
      omega
    · intro _
      unfold MapLaw
      rw [refused]
      exact ⟨fun absurd => (by cases absurd), fun _ => ⟨fun _ _ => ⟨rfl, rfl⟩, rfl⟩⟩

set_option maxRecDepth 100000 in
/-- A page is mapped at 3 GiB, where a table has to be opened. -/
theorem high_page_maps : ∃ system : MemorySystem, MapLaw 0xC0000000 0x109000 x86PageWritable system.machine ∧
    (vmmMapPage 0xC0000000 0x109000 x86PageWritable system.machine).1 = vmmOk := by
  have completed : (smallRun Proper [.allocPage]).map
      (fun system => (bitmapTest system.machine.pmm 0x109,
        (vmmMapPage 0xC0000000 0x109000 x86PageWritable system.machine).1)) =
          some (false, vmmOk) := by
    decide +kernel
  obtain ⟨system, reached, facts⟩ := small_run_facts completed
  obtain ⟨free, succeeded⟩ := Prod.mk.inj facts
  have available : TableAvailable 0xC0000000 system.machine :=
    Or.inr ⟨0x109, by decide, by decide, free⟩
  have cleanly : MapsCleanly 0xC0000000 0x109000 x86PageWritable system.machine :=
    Or.inr (Or.inr (Or.inl ⟨available, Or.inr (by decide)⟩))
  exact ⟨system, (kernel_mapping_law_iff smallImage system reached 0xC0000000 0x109000 2).mpr cleanly,
    succeeded⟩

/-- The small machine with 32 KiB of memory from 1 MiB on. -/
def crampedImage : Image :=
  { smallImage with
    boot := { smallImage.boot with memory := smallImage.boot.memory.write32 0xA00C 0x8000 }
    addressable := ⟨by decide, by decide⟩ }

set_option maxRecDepth 100000 in
/-- After boot the cramped machine has no free frame. Mapping a page at 3 GiB reports success, and
the page is not mapped. -/
theorem mapped_without_table : ∃ system, MemoryReachable crampedImage Proper system ∧
    (vmmMapPage 0xC0000000 0x200000 x86PageWritable system.machine).1 = vmmOk ∧
    vmmGetPhysical 0xC0000000
      (vmmMapPage 0xC0000000 0x200000 x86PageWritable system.machine).2 = 0 ∧
    ¬ MapLaw 0xC0000000 0x200000 x86PageWritable system.machine := by
  have completed : (bootSystem crampedImage 1 ⟨⟨fun _ => 0⟩, 0, 0, 0, 0, 0⟩ ⟨fun _ => 0⟩).map
      (fun system => ((vmmMapPage 0xC0000000 0x200000 x86PageWritable system.machine).1,
        vmmGetPhysical 0xC0000000
          (vmmMapPage 0xC0000000 0x200000 x86PageWritable system.machine).2)) = some (vmmOk, 0) := by
    decide +kernel
  obtain ⟨system, booted, facts⟩ := Option.map_eq_some_iff.mp completed
  obtain ⟨succeeded, unmapped⟩ := Prod.mk.inj facts
  refine ⟨system, ⟨1, _, _, system, by decide, by decide, booted, .start⟩, succeeded, unmapped, ?_⟩
  intro law
  have physical := (law.1 succeeded).physical 0 (by decide)
  rw [Nat.add_zero, unmapped] at physical
  cases physical

end Toyix.Paging
