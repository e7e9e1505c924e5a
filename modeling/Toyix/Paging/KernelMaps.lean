import Toyix.Paging.Destruction

/-!
# Kernel mappings outside the heap

The rest of the kernel maps pages through `vmm_map_page` and unmaps them through
`vmm_unmap_page`, anywhere from 16 MiB on except in the heap's window. Such a mapping
may open a table, which the kernel then owns; the mapped page itself stays the
caller's. The pages and tables of processes are not touched.

Stores to pages that hold data, and neither a directory nor a table, keep everything.
-/

namespace Toyix.Paging

open Library Pmm

variable {image : Image} {spaces : Nat → Option AddressSpace} {held kept : Set Nat} {machine : Machine}
  {virtualAddr : Nat}

/-- The addresses of kernel mappings made outside the heap. -/
structure KernelAddress (virtualAddr : Nat) : Prop where
  low : 0x01000000 ≤ virtualAddr
  bounded : virtualAddr < 2 ^ 32
  outside : virtualAddr < 0xD1000000 ∨ 0xD2000000 ≤ virtualAddr

theorem KernelAddress.table_range (isKernel : KernelAddress virtualAddr) :
    TableRange none (directoryIndex virtualAddr) := by
  have low := isKernel.low
  have bounded := isKernel.bounded
  rw [directory_index_eq]
  exact ⟨by omega, by omega⟩

theorem KernelAddress.untracked (isKernel : KernelAddress virtualAddr) :
    ¬ PageRange none virtualAddr := by
  rintro ⟨-, low, high⟩
  have outside := isKernel.outside
  omega

/-- An entry outside the heap's window decides no owner. -/
theorem Owned.store_untracked (owned : Owned image spaces held machine)
    {table : Nat} (entry : Nat) (aligned : virtualAddr % 4096 = 0)
    (isKernel : KernelAddress virtualAddr)
    (owns : ownersOf spaces machine (.table none (directoryIndex virtualAddr)) = some table)
    (bounded : entry < 2 ^ 32) :
    Owned image spaces held (machine.stored table (tableIndex virtualAddr) entry) ∧
      ownersOf spaces (machine.stored table (tableIndex virtualAddr) entry) =
        ownersOf spaces machine := by
  have sameDirectory : ∀ other directory,
      directoryOf spaces machine.kernelDirectory other = some directory → ∀ index < 1024,
        (machine.stored table (tableIndex virtualAddr) entry).memory.word directory index =
          machine.memory.word directory index := by
    intro other directory isDirectory index inside
    exact owned.table_store_keeps_directory owns other isDirectory (table_index_lt virtualAddr)
      bounded index inside
  have sameOwners : ownersOf spaces (machine.stored table (tableIndex virtualAddr) entry) =
      ownersOf spaces machine := by
    refine funext fun owner => owned_frame_congr ?_ ?_
    · intro space index directory _ inRange isDirectory
      exact sameDirectory space directory isDirectory index inRange.lt
    · intro space otherAddr otherTable _ inRange otherOwns
      have otherOwns : ownersOf spaces machine (.table space (directoryIndex otherAddr)) =
        some otherTable := otherOwns
      simp only [Machine.stored]
      rw [Memory.word_setWord _ (owned.permitted owns).aligned (owned.permitted otherOwns).aligned
        (table_index_lt _) (table_index_lt _) bounded, if_neg]
      rintro ⟨rfl, sameSlot⟩
      obtain ⟨rfl, sameIndex⟩ := Owner.table.inj (owned.sound.single otherOwns owns)
      have same := page_address_unique inRange.aligned aligned sameIndex sameSlot
      exact isKernel.untracked (same ▸ inRange)
  refine ⟨⟨owned.kernelDirectory, owned.reserved, owned.directories, ?_, ?_⟩, sameOwners⟩
  · intro index low
    rw [← owned.identity index low]
    exact table_of_congr (sameDirectory none machine.kernelDirectory rfl index (by omega))
  · rw [sameOwners]
    exact owned.sound

/-- The user bit of a kernel entry is the user bit of the flags. -/
theorem map_entry_user (physicalAddr flags : Nat) : isUser (mapEntry physicalAddr flags) = isUser flags := by
  have userBit : ∀ entry, isUser entry = entry.testBit 2 := by
    intro entry
    have masked : entry &&& x86PageUser = (entry.testBit 2).toNat * 2 ^ 2 := Nat.and_two_pow entry 2
    rw [isUser, masked]
    cases entry.testBit 2 <;> rfl
  rw [userBit, userBit, mapEntry, Nat.testBit_or, Nat.testBit_or, Nat.testBit_and, Nat.testBit_and]
  have frameBit : x86PageFrameMask.testBit 2 = false := by decide
  have flagBit : x86PageFlagsMask.testBit 2 = true := by decide
  have presentBit : x86PagePresent.testBit 2 = false := by decide
  rw [frameBit, flagBit, presentBit]
  simp

/-- What a kernel mapping or unmapping outside the heap keeps. -/
structure KernelMapped (image : Image) (spaces : Nat → Option AddressSpace) (held : Set Nat)
    (machine next : Machine) : Prop where
  owned : Owned image spaces held next
  side : KernelSide spaces held machine next
  remarked : Remarked machine.pmm next.pmm

theorem KernelMapped.refl (owned : Owned image spaces held machine) :
    KernelMapped image spaces held machine machine :=
  ⟨owned, KernelSide.refl spaces held machine, Remarked.refl machine.pmm⟩

/-- `vmm_map_page` outside the heap. -/
theorem vmm_map_page_kept (owned : Owned image spaces held machine)
    {physicalAddr : Nat} (flags : Nat) (isKernel : KernelAddress virtualAddr)
    (bounded : physicalAddr < 2 ^ 32) :
    KernelMapped image spaces held machine (vmmMapPage virtualAddr physicalAddr flags machine).2 ∧
      (isUser flags = false → KernelBits machine →
        KernelBits (vmmMapPage virtualAddr physicalAddr flags machine).2) := by
  by_cases aligned : virtualAddr % 4096 = 0 ∧ physicalAddr % 4096 = 0
  · obtain ⟨table, base, ready, mapped⟩ := vmm_map_page_cases flags machine aligned.1 aligned.2
    obtain ⟨baseOwned, tableOwned, -⟩ := ready.owned owned isKernel.table_range rfl
      (kernel_table_flags_odd flags)
    obtain ⟨baseSide, baseBits, target⟩ := ready.kernel_side owned (Set.Subset.refl held)
      isKernel.table_range (kernel_table_flags_odd flags)
    rcases mapped with ⟨-, refused⟩ | ⟨-, stored⟩
    · rw [refused]
      exact ⟨⟨baseOwned, baseSide, ready.remarked⟩, fun _ => baseBits⟩
    · obtain ⟨-, entryBounded⟩ := map_entry_made flags aligned.2 bounded
      have targetCases : table = 0 ∨ ∃ index < 1024,
          tableOf base.memory base.kernelDirectory index = some table :=
        target.imp_right fun entered => ⟨_, isKernel.table_range.lt, entered⟩
      have storedOwned : Owned image spaces held
          (base.stored table (tableIndex virtualAddr) (mapEntry physicalAddr flags)) := by
        by_cases null : table = 0
        · subst null
          exact (baseOwned.write_page _ rfl
            (fun isStructural => baseOwned.structural_ne_zero isStructural rfl)
            (fun x outside => Memory.setWord_byte _ (table_index_lt virtualAddr) outside)).1
        · exact (baseOwned.store_untracked _ aligned.1 isKernel (tableOwned null) entryBounded).1
      rw [stored]
      refine ⟨⟨storedOwned.count _, ?_, ready.remarked⟩, ?_⟩
      · refine (baseSide.trans ?_ owned).trans (KernelSide.of_same_memory
          (base.stored table (tableIndex virtualAddr) (mapEntry physicalAddr flags)) _ rfl rfl rfl) owned
        exact baseOwned.store_kernel_side (Set.Subset.refl held) (table_index_lt virtualAddr)
          targetCases
      · intro plain bits
        exact baseOwned.store_kernel_bits (table_index_lt virtualAddr) entryBounded targetCases
          ((map_entry_user physicalAddr flags).trans plain) (baseBits bits)
  · rw [vmm_map_page_unaligned flags machine aligned]
    exact ⟨KernelMapped.refl owned, fun _ bits => bits⟩

/-- `vmm_unmap_page` outside the heap. -/
theorem vmm_unmap_page_kept (owned : Owned image spaces held machine)
    (isKernel : KernelAddress virtualAddr) :
    KernelMapped image spaces held machine (vmmUnmapPage virtualAddr machine).2 ∧
      (KernelBits machine → KernelBits (vmmUnmapPage virtualAddr machine).2) := by
  by_cases aligned : virtualAddr % 4096 = 0
  · rcases vmm_unmap_page_cases machine aligned with
      ⟨-, refused⟩ | ⟨table, physical, count, entered, -, cleared⟩
    · rw [refused]
      exact ⟨KernelMapped.refl owned, id⟩
    · have owns : ownersOf spaces machine (.table none (directoryIndex virtualAddr)) = some table :=
        (table_owner rfl isKernel.table_range).trans entered
      have target : table = 0 ∨ ∃ index < 1024,
          tableOf machine.memory machine.kernelDirectory index = some table :=
        Or.inr ⟨_, isKernel.table_range.lt, entered⟩
      rw [cleared]
      refine ⟨⟨?_, ?_, Remarked.refl machine.pmm⟩, ?_⟩
      · exact (owned.store_untracked 0 aligned isKernel owns (by decide)).1.count count
      · refine KernelSide.trans ?_ (KernelSide.of_same_memory
          (machine.stored table (tableIndex virtualAddr) 0) _ rfl rfl rfl) owned
        exact owned.store_kernel_side (Set.Subset.refl held) (table_index_lt virtualAddr) target
      · intro bits
        exact owned.store_kernel_bits (table_index_lt virtualAddr) (by decide) target
          user_bit_zero bits
  · rw [vmm_unmap_page_unaligned machine aligned]
    exact ⟨KernelMapped.refl owned, id⟩

/-- The mapping of a page opens a table: the addresses are aligned, there is no table for the page yet,
and a frame below 16 MiB is free. -/
def OpensTable (virtualAddr physicalAddr : Nat) (machine : Machine) : Prop :=
  virtualAddr % 4096 = 0 ∧ physicalAddr % 4096 = 0 ∧
    isPresent (machine.memory.word machine.kernelDirectory (directoryIndex virtualAddr)) = false ∧
    ∃ frame < 4096, 256 ≤ frame ∧ bitmapTest machine.pmm frame = false

instance (virtualAddr physicalAddr : Nat) (machine : Machine) :
    Decidable (OpensTable virtualAddr physicalAddr machine) :=
  inferInstanceAs (Decidable (_ ∧ _ ∧ _ ∧ _))

/-- `vmm_map_page` changes the kernel directory only where it opens a table. -/
theorem vmm_map_page_words (owned : Owned image spaces held machine)
    {physicalAddr index : Nat} (flags : Nat)
    (inRange : TableRange none (directoryIndex virtualAddr)) (inside : index < 1024)
    (unopened : index = directoryIndex virtualAddr → ¬ OpensTable virtualAddr physicalAddr machine) :
    (vmmMapPage virtualAddr physicalAddr flags machine).2.memory.word machine.kernelDirectory index =
      machine.memory.word machine.kernelDirectory index := by
  have kernelAligned := owned.kernel_aligned
  by_cases aligned : virtualAddr % 4096 = 0 ∧ physicalAddr % 4096 = 0
  · obtain ⟨table, base, ready, mapped⟩ := vmm_map_page_cases flags machine aligned.1 aligned.2
    obtain ⟨baseOwned, -, -⟩ := ready.owned owned inRange rfl
      (kernel_table_flags_odd flags)
    obtain ⟨side, -, target⟩ := ready.kernel_side owned (Set.Subset.refl held)
      inRange (kernel_table_flags_odd flags)
    have baseWord : base.memory.word machine.kernelDirectory index =
        machine.memory.word machine.kernelDirectory index := by
      cases ready with
      | found entered => rfl
      | missing absent => rfl
      | opened absent taken below =>
        obtain ⟨-, -, bounded⟩ := entry_page_made taken.allocatable.1 taken.allocatable.2.2
          (kernel_table_flags_odd flags).1 (kernel_table_flags_odd flags).2
        have different : index ≠ directoryIndex virtualAddr := by
          intro same
          rcases table_available taken below with present | frame
          · exact absurd present (Bool.eq_false_iff.mp absent)
          · exact unopened same ⟨aligned.1, aligned.2, absent, frame⟩
        simp only [Machine.opened]
        rw [Memory.word_setWord _ kernelAligned kernelAligned inRange.lt inside bounded,
          if_neg (fun both => different both.2), Memory.word_clearPage _ taken.allocatable.1 kernelAligned
          inside, if_neg (owned.fresh_not_kernel taken).symm]
    rcases mapped with ⟨-, refused⟩ | ⟨-, stored⟩
    · rw [refused]
      exact baseWord
    · obtain ⟨tableAligned, notKernel⟩ := baseOwned.kernel_target
        (target.imp_right fun entered => ⟨_, inRange.lt, entered⟩)
      rw [side.directory] at notKernel
      rw [stored, ← baseWord]
      exact (Memory.samePage_setWord _ kernelAligned tableAligned (table_index_lt virtualAddr)
        notKernel).word inside
  · rw [vmm_map_page_unaligned flags machine aligned]

/-- `vmm_unmap_page` does not change the kernel directory. -/
theorem vmm_unmap_page_words (owned : Owned image spaces held machine)
    {index : Nat} (isKernel : KernelAddress virtualAddr) (inside : index < 1024) :
    (vmmUnmapPage virtualAddr machine).2.memory.word machine.kernelDirectory index =
      machine.memory.word machine.kernelDirectory index := by
  by_cases aligned : virtualAddr % 4096 = 0
  · rcases vmm_unmap_page_cases machine aligned with
      ⟨-, refused⟩ | ⟨table, physical, count, entered, -, cleared⟩
    · rw [refused]
    · obtain ⟨tableAligned, notKernel⟩ := owned.kernel_target
        (Or.inr ⟨_, isKernel.table_range.lt, entered⟩)
      rw [cleared]
      exact (Memory.samePage_setWord _ owned.kernel_aligned tableAligned
        (table_index_lt virtualAddr) notKernel).word inside
  · rw [vmm_unmap_page_unaligned machine aligned]

/-! ## Stores to data -/

/-- The pages that hold data: pages of the heap and of processes, and pages that
callers hold. -/
def DataPage (spaces : Nat → Option AddressSpace) (held : Set Nat) (machine : Machine)
    (page : Nat) : Prop :=
  page ∈ held ∨ ∃ space virtualAddr, ownersOf spaces machine (.page space virtualAddr) = some page

/-- A directory or a table of a process does not hold data. -/
theorem Owned.structural_not_data (owned : Owned image spaces held machine)
    {page : Nat} (isStructural : Structural spaces machine.kernelDirectory machine.memory page) :
    ¬ DataPage spaces held machine page := by
  rintro (isHeld | ⟨space, virtualAddr, owns⟩)
  · exact owned.structural_unheld isStructural isHeld
  · rcases isStructural with ⟨other, isDirectory⟩ | ⟨other, index, ownsTable⟩
    · cases other with
      | none =>
        obtain rfl : machine.kernelDirectory = page := Option.some.inj isDirectory
        exact owned.kernel_unowned _ owns
      | some object =>
        exact Owner.noConfusion (owned.sound.single owns (owned.directory_owner isDirectory))
    · exact Owner.noConfusion (owned.sound.single owns ownsTable)

/-- A table of the kernel does not hold data. -/
theorem Owned.kernel_table_not_data (owned : Owned image spaces held machine)
    {index table : Nat} (inside : index < 1024)
    (entered : tableOf machine.memory machine.kernelDirectory index = some table) :
    ¬ DataPage spaces held machine table := by
  obtain ⟨-, -, notHeld, unowned⟩ := owned.kernel_table inside entered
  rintro (isHeld | ⟨space, virtualAddr, owns⟩)
  · exact notHeld isHeld
  · rcases owned.kernel_table_cases inside entered with ⟨low, rfl⟩ | ownsTable
    · have tablesAligned := image.tablesAligned
      have tablesLow := image.tablesLow
      have tablesHigh := image.tablesHigh
      exact (owned.image_page _ (by omega) (by omega) (by omega)).2.2 _ owns
    · exact Owner.noConfusion (owned.sound.single owns ownsTable)

/-- Memory changed on pages that hold data only. -/
theorem Owned.write_data (owned : Owned image spaces held machine)
    (memory : Memory) (touched : Set Nat)
    (same : ∀ page, page % 4096 = 0 → ¬ DataPage spaces held machine page →
      machine.memory.SamePage memory page) :
    Owned image spaces held { machine with memory := memory } ∧
      ownersOf spaces { machine with memory := memory } = ownersOf spaces machine ∧
      SharedKept spaces touched machine { machine with memory := memory } := by
  have sameWords : ∀ page, Structural spaces machine.kernelDirectory machine.memory page →
      ∀ index < 1024, memory.word page index = machine.memory.word page index := by
    intro page isStructural index inside
    exact (same page (owned.structural_aligned isStructural)
      (owned.structural_not_data isStructural)).word inside
  have kernelWords : ∀ index < 1024, memory.word machine.kernelDirectory index =
      machine.memory.word machine.kernelDirectory index :=
    sameWords machine.kernelDirectory (Or.inl ⟨none, rfl⟩)
  obtain ⟨owned', sameOwners⟩ := owned.write sameWords
  refine ⟨owned', sameOwners, ⟨rfl, rfl, ?_, fun index inside _ => kernelWords index inside⟩, ?_,
    fun _ _ => kernelWords⟩
  · intro object directory isDirectory index inside _
    exact sameWords directory (Or.inl ⟨some object, isDirectory⟩) index inside
  · intro bits
    refine bits.of_same rfl kernelWords ?_
    intro index inside table entered slot inSlot
    exact (same table (table_of_aligned entered)
      (owned.kernel_table_not_data inside entered)).word inSlot

end Toyix.Paging
