import Toyix.Paging.FrameContract
import Toyix.Paging.KernelMaps

/-!
# Boot

After `paging_init` the kernel directory maps the first 16 MiB and nothing else, and
no page has an owner. The self test of `vmm.c` opens a table for the kernel and
returns its page. `heap_init` then takes the first pages of the heap.
-/

namespace Toyix.Paging

open Library Pmm

variable {image : Image} {index : Nat}

/-! ## The identity map -/

/-- The entries of `paging_init`. -/
def identityEntry (physicalAddr : Nat) : Nat :=
  (physicalAddr &&& x86PageFrameMask) ||| x86PagePresent ||| x86PageWritable

theorem identity_entry_lt (physicalAddr : Nat) : identityEntry physicalAddr < 2 ^ 32 := by
  have frame : physicalAddr &&& x86PageFrameMask < 2 ^ 32 :=
    Nat.lt_of_le_of_lt Nat.and_le_right (by decide)
  exact Nat.or_lt_two_pow (Nat.or_lt_two_pow frame (by decide)) (by decide)

theorem identity_entry_eq {physicalAddr : Nat} (aligned : physicalAddr % 4096 = 0)
    (bounded : physicalAddr < 2 ^ 32) : identityEntry physicalAddr = physicalAddr + 3 := by
  rw [identityEntry, Nat.or_assoc]
  exact entry_eq_add aligned bounded (by decide)

theorem paging_init_memory (image : Image) (machine : Machine) :
    (pagingInit image machine).memory =
      ((machine.memory.clearPage image.pageDirectory).writeWords image.identityTables 4096
        fun entry => identityEntry (entry * x86PageSize)).writeWords image.pageDirectory 4
        fun table => identityEntry (image.identityTables + x86PageSize * table) := rfl

/-- The words of the directory after `paging_init`. -/
theorem paging_init_directory_word (image : Image) (machine : Machine) (inside : index < 1024) :
    (pagingInit image machine).memory.word image.pageDirectory index =
      if index < 4 then image.identityTables + 4096 * index + 3 else 0 := by
  have aligned := image.aligned
  have tablesAligned := image.tablesAligned
  have tablesHigh := image.tablesHigh
  have apart := image.apart
  have limit := image.identity
  have stored := Memory.word_writeWords ((machine.memory.clearPage image.pageDirectory).writeWords
    image.identityTables 4096 fun entry => identityEntry (entry * x86PageSize)) 0 4
    (fun table => identityEntry (image.identityTables + x86PageSize * table)) aligned aligned
    (by decide) inside (fun _ _ => identity_entry_lt _)
  simp only [Nat.mul_zero, Nat.add_zero, Nat.zero_le, true_and, Nat.zero_add, Nat.sub_zero] at stored
  refine stored.trans ?_
  split
  · exact identity_entry_eq (by simp only [x86PageSize]; omega) (by simp only [x86PageSize]; omega)
  · have cleared := Memory.word_clearPage machine.memory aligned aligned inside
    rw [if_pos rfl] at cleared
    rw [← cleared]
    refine Memory.read32_congr ?_
    intro x low high
    exact Memory.writeWords_byte _ _ (by omega)

/-- The words of the identity tables after `paging_init`. -/
theorem paging_init_table_word (image : Image) (machine : Machine) {slot : Nat} (low : index < 4)
    (inside : slot < 1024) :
    (pagingInit image machine).memory.word (image.identityTables + 4096 * index) slot =
      4096 * (1024 * index + slot) + 3 := by
  have aligned := image.aligned
  have tablesAligned := image.tablesAligned
  have apart := image.apart
  have position : image.identityTables + 4096 * index + 4 * slot =
      image.identityTables + 4 * (1024 * index + slot) := by omega
  have entry : identityEntry ((1024 * index + slot) * x86PageSize) =
      4096 * (1024 * index + slot) + 3 := by
    rw [Nat.mul_comm]
    exact identity_entry_eq (by simp only [x86PageSize]; omega) (by simp only [x86PageSize]; omega)
  rw [← entry, Memory.word, position, paging_init_memory]
  refine Eq.trans (Memory.read32_congr ?_) (Memory.read32_writeWords
    (machine.memory.clearPage image.pageDirectory) (fun entry => identityEntry (entry * x86PageSize))
    (by omega : 1024 * index + slot < 4096) (identity_entry_lt _))
  intro x atLeast below
  have outside : x < image.pageDirectory ∨ image.pageDirectory + 4 * 4 ≤ x := by omega
  exact Memory.writeWords_byte _ _ outside

/-- The tables of the kernel directory after `paging_init`. -/
theorem paging_init_table (image : Image) (machine : Machine) (inside : index < 1024) :
    tableOf (pagingInit image machine).memory image.pageDirectory index =
      if index < 4 then some (image.identityTables + 4096 * index) else none := by
  have tablesAligned := image.tablesAligned
  have tablesHigh := image.tablesHigh
  have limit := image.identity
  have word := paging_init_directory_word image machine inside
  by_cases low : index < 4
  · rw [if_pos low] at word ⊢
    have total : image.identityTables + 4096 * index + 3 < 2 ^ 32 := by omega
    refine table_of_eq_some.mpr ⟨?_, ?_⟩
    · rw [word, is_present_iff]
      omega
    · rw [word, tableFromPde, frame_of_entry _ total]
      omega
  · rw [if_neg low] at word ⊢
    refine table_of_eq_none.mpr ?_
    rw [word]
    rfl

/-- The machine after `paging_init` and `vmm_init`. -/
def pagedMachine (image : Image) (pmm : PmmState) : Machine :=
  vmmInit image (pagingInit image ⟨pmm, image.boot.memory, 0, 0, 0⟩)

/-- Nothing is owned yet. -/
theorem paged_machine_owned {pmm : PmmState}
    (reserved : ∀ physical, physical < 2 ^ 32 → ReservedAtBoot image.boot physical →
      FrameUsed pmm physical) :
    Owned image (fun _ => none) ∅ (pagedMachine image pmm) := by
  have unowned : ownersOf (fun _ => none) (pagedMachine image pmm) = fun _ => none := by
    funext owner
    cases owner with
    | directory object => rfl
    | table space index =>
      cases space with
      | none =>
        simp only [ownersOf, ownedFrame]
        split
        · rename_i inRange
          refine (paging_init_table image _ inRange.lt).trans (if_neg ?_)
          have low := inRange.1
          omega
        · rfl
      | some object => simp [ownersOf, ownedFrame, directoryOf]
    | page space virtualAddr =>
      cases space with
      | none =>
        simp only [ownersOf, ownedFrame]
        split
        · rename_i inRange
          have tableRange : TableRange none (directoryIndex virtualAddr) := inRange.table_range
          have absent : tableOf (pagedMachine image pmm).memory image.pageDirectory
              (directoryIndex virtualAddr) = none := by
            refine (paging_init_table image _ tableRange.lt).trans (if_neg ?_)
            have low := tableRange.1
            omega
          simp only [directoryOf, Option.bind_some, pageOf]
          rw [show (pagedMachine image pmm).kernelDirectory = image.pageDirectory from rfl, absent]
          rfl
        · rfl
      | some object => simp [ownersOf, ownedFrame, directoryOf]
  refine ⟨rfl, reserved, ?_, ?_, ?_⟩
  · intro object record isSpace
    simp at isSpace
  · intro index low
    exact (paging_init_table image _ (by omega)).trans (if_pos low)
  · rw [unowned]
    refine ⟨?_, ?_, ?_⟩
    · intro owner other resource owns
      simp at owns
    · intro owner resource owns
      simp at owns
    · intro resource isHeld
      simp at isHeld

/-- The identity map carries no user bit. -/
theorem paged_machine_bits (pmm : PmmState) :
    KernelBits (pagedMachine image pmm) := by
  intro index inside table entered slot inSlot
  have tables := paging_init_table image ⟨pmm, image.boot.memory, 0, 0, 0⟩ inside
  have entered : tableOf (pagingInit image ⟨pmm, image.boot.memory, 0, 0, 0⟩).memory
    image.pageDirectory index = some table := entered
  rw [tables] at entered
  split at entered
  · rename_i low
    obtain rfl := Option.some.inj entered
    have word := paging_init_table_word image ⟨pmm, image.boot.memory, 0, 0, 0⟩ low inSlot
    rw [show (pagedMachine image pmm).memory =
      (pagingInit image ⟨pmm, image.boot.memory, 0, 0, 0⟩).memory from rfl, word, Bool.eq_false_iff, Ne,
      is_user_iff]
    omega
  · simp at entered

/-! ## The self test -/

/-- The address of the self test is outside the heap. -/
theorem test_address : KernelAddress 0xD0000000 := ⟨by decide, by decide, by decide⟩

/-- The page of the self test holds data, so the two stores keep the tables. -/
theorem Owned.write_test_words {spaces : Nat → Option AddressSpace} {held : Set Nat} {machine : Machine}
    (owned : Owned image spaces held machine) {physical : Nat}
    (isHeld : physical ∈ held) (first second : Nat) :
    Owned image spaces held { machine with
        memory := (machine.memory.write32 physical first).write32 (physical + 4) second } ∧
      (KernelBits machine → KernelBits { machine with
        memory := (machine.memory.write32 physical first).write32 (physical + 4) second }) := by
  have aligned := (owned.sound.loose isHeld).2.aligned
  have same : ∀ page, page % 4096 = 0 → ¬ DataPage spaces held machine page →
      machine.memory.SamePage
        ((machine.memory.write32 physical first).write32 (physical + 4) second) page := by
    intro page pageAligned notData x low high
    have different : page ≠ physical := by
      rintro rfl
      exact notData (Or.inl isHeld)
    rw [Memory.write32_apply_outside _ _ _ _ (by omega),
      Memory.write32_apply_outside _ _ _ _ (by omega)]
  obtain ⟨owned', -, kept⟩ := owned.write_data _ ∅ same
  exact ⟨owned', kept.bits⟩

/-- What the self test and the growth of the heap keep at boot. -/
structure Booting (image : Image) (machine : Machine) : Prop where
  owned : Owned image (fun _ => none) ∅ machine
  bits : KernelBits machine
  cr3 : machine.cr3 = image.pageDirectory
  counted : Counted machine.pmm

/-- The self test returns the page it takes. -/
theorem vmm_test_once_sat {machine : Machine} (booting : Booting image machine) :
    (vmmTestOnce machine).Sat fun _ next => Booting image next := by
  simp only [vmmTestOnce, bind_apply, current_apply, andThen_done, Program.update_apply, ite_run, panic_apply]
  rcases pmm_alloc_page_cases machine.pmm with ⟨failed, -⟩ | ⟨page, pmm, allocated, taken⟩
  · rw [failed]
    trivial
  · rw [allocated]
    have owned := booting.owned.take taken
    have permitted := booting.owned.fresh_permitted taken
    have notNull : page ≠ pmmInvalidPage := Nat.ne_of_gt permitted.pos
    simp only [notNull, ↓reduceIte]
    obtain ⟨mapped, mappedBits⟩ := vmm_map_page_kept owned x86PageWritable test_address
      permitted.bounded
    have bits := mappedBits (by decide) booting.bits
    have cr3 := mapped.side.cr3
    have counted := mapped.remarked.counted (taken.remarked.counted booting.counted)
    generalize vmmMapPage 0xD0000000 page x86PageWritable { machine with pmm := pmm } = result
      at mapped bits cr3 counted ⊢
    obtain ⟨rc, machine₁⟩ := result
    simp only
    split
    · trivial
    split
    · trivial
    obtain ⟨owned₂, bits₂⟩ := mapped.owned.write_test_words (Set.mem_insert page ∅)
      0x11223344 0x55667788
    split
    · trivial
    obtain ⟨unmapped, unmappedBits⟩ := vmm_unmap_page_kept owned₂ test_address
    have bits₃ := unmappedBits (bits₂ bits)
    have cr3₃ := unmapped.side.cr3
    have counted₃ := unmapped.remarked.counted counted
    simp only at unmapped bits₃ cr3₃ counted₃
    generalize vmmUnmapPage 0xD0000000 { machine₁ with
      memory := (machine₁.memory.write32 page 0x11223344).write32 (page + 4) 0x55667788 } = result
      at unmapped bits₃ cr3₃ counted₃ ⊢
    obtain ⟨rc, machine₃⟩ := result
    simp only
    split
    · trivial
    obtain ⟨pmm', freed, owned₄⟩ := unmapped.owned.give_back (Set.mem_insert page ∅)
    rw [Set.insert_sdiff_self_of_notMem (Set.notMem_empty page)] at owned₄
    simp only [freed, Program.update_apply]
    exact ⟨owned₄, bits₃, cr3₃.trans (cr3.trans booting.cr3),
      (pmm_free_page_remarked freed).counted counted₃⟩

/-! ## The started system -/

/-- The machine that the heap starts on. -/
theorem paged_machine_booting {pmm pmm' : PmmState}
    (returned : pmmInit image.boot pmm = .done () pmm') :
    Booting image (pagedMachine image pmm') :=
  ⟨paged_machine_owned fun _ bounded reserved =>
      pmm_init_reserved image.addressable returned bounded reserved,
    paged_machine_bits pmm', rfl, pmm_init_counted returned⟩

/-- The system that `kernel_main` starts is accounted for.

Proof: the paging structures are inside the kernel image, which `pmm_init` reserved;
the self test gives its page back; and the heap grows by its initial pages. -/
theorem boot_accounted {initialPages : Nat} {pmm : PmmState}
    {heapMemory : Memory} {system : MemorySystem} (atLeastOne : 1 ≤ initialPages)
    (atMost : initialPages ≤ 4096)
    (started : bootSystem image initialPages pmm heapMemory = some system) :
    Accounted image ∅ system ∧ KernelBits system.machine ∧ system.currentSpace = none ∧
      (∀ object, system.spaces object = none) ∧ system.frames = [] ∧ Counted system.machine.pmm := by
  obtain ⟨⟨_, pmm'⟩, initialised, started⟩ := Option.bind_eq_some_iff.mp started
  obtain ⟨⟨_, machine⟩, tested, started⟩ := Option.bind_eq_some_iff.mp started
  obtain ⟨_, heapSystem, grown, rfl⟩ := done_of_map started
  have paged := paged_machine_booting (result_eq_some.mp initialised)
  have booting := (vmm_test_once_sat paged).of_done (result_eq_some.mp tested)
  have law := Heap.heap_init_sat (region_gives_beneath booting.owned initialPages) heapMemory
    (by omega) (by omega)
  obtain ⟨beneath, blocks, consistent, nothingUsed, mapped⟩ := law.of_done grown
  have inv : Heap.ClientInvariant (⟨heapSystem, []⟩ : Heap.Client Machine) blocks := by
    refine ⟨consistent, mapped, List.nodup_nil, by simp, ?_⟩
    intro block isUsed
    rw [nothingUsed] at isUsed
    simp at isUsed
  have directory : heapSystem.pages.kernelDirectory = image.pageDirectory := beneath.owned.kernelDirectory
  have cr3 : heapSystem.pages.cr3 = image.pageDirectory := beneath.side.cr3.trans booting.cr3
  have counted : Counted heapSystem.pages.pmm :=
    (beneath.supply (Or.inl (booting.cr3.trans booting.owned.kernelDirectory.symm))).balanced.remarked.counted
      booting.counted
  refine ⟨⟨⟨⟨blocks, inv⟩, ?_⟩, beneath.owned, ?_, ?_, ⟨directory.symm, directory.symm⟩, ?_⟩,
    beneath.bits booting.bits, rfl, fun _ => rfl, rfl, counted⟩
  · intro ptr use isUsed
    simp at isUsed
  · intro object record isSpace
    simp at isSpace
  · intro object record isSpace
    simp at isSpace
  · exact congrArg some cr3.symm

end Toyix.Paging
