import Toyix.Paging.Isolation

/-!
# Bookkeeping of address spaces

The list of user pages and the page tables of an address space describe the same
mapping, as long as the pages that are mapped belong to the caller. A page that is
already a table of the space can be mapped like any other; unmapping it returns the
table to the frame allocator while the directory still refers to it, and from then on
the list and the tables can differ.
-/

namespace Toyix.Paging

open Library Pmm

variable {image : Image} {system : MemorySystem} {object : Nat} {record : AddressSpace}

/-- The page tables of a directory map an address to a page. -/
def Maps (memory : Memory) (directory virtualAddr physicalAddr : Nat) : Prop :=
  isPresent (pageEntry memory directory virtualAddr) = true ∧
    pageEntry memory directory virtualAddr &&& x86PageFrameMask = physicalAddr

/-- The list has no address twice, agrees with the page tables on the user range, and
is as long as the count says. -/
structure Bookkept (system : MemorySystem) (record : AddressSpace) : Prop where
  once : (record.userMappings.map Mapping.virtualAddr).Nodup
  listed : ∀ virtualAddr physicalAddr,
    (∃ mapping ∈ record.userMappings,
      mapping.virtualAddr = virtualAddr ∧ mapping.physicalAddr = physicalAddr) ↔
    virtualAddr % 4096 = 0 ∧ 0x01000000 ≤ virtualAddr ∧ virtualAddr < 0xC0000000 ∧
      Maps system.machine.memory record.pageDirectory virtualAddr physicalAddr
  count : record.userPageCount = record.userMappings.length

/-- A call on an address space leaves its shared entries alone, and leaves everything
alone when it fails. -/
structure CallKept (record : AddressSpace) (system : MemorySystem) (result : Int)
    (next : MemorySystem) : Prop where
  code : result = 0 ∨ result = -1
  shared : ∀ index, SharedIndex index → next.machine.memory.word record.pageDirectory index =
    system.machine.memory.word record.pageDirectory index
  failed : result = -1 → next = system

/-- A user page is owned exactly when it is mapped in the user range. -/
theorem owned_page_iff_maps (isSpace : system.spaces object = some record)
    (virtualAddr physicalAddr : Nat) :
    ownersOf system.spaces system.machine (.page (some object) virtualAddr) = some physicalAddr ↔
      virtualAddr % 4096 = 0 ∧ 0x01000000 ≤ virtualAddr ∧ virtualAddr < 0xC0000000 ∧
        Maps system.machine.memory record.pageDirectory virtualAddr physicalAddr := by
  have isDirectory := directory_of_space system.machine.kernelDirectory isSpace
  by_cases inRange : PageRange (some object) virtualAddr
  · rw [page_owner isDirectory inRange, entry_page_eq_some]
    exact ⟨fun maps => ⟨inRange.aligned, inRange.2.1, inRange.2.2, maps⟩, fun both => both.2.2.2⟩
  · simp only [ownersOf, ownedFrame, inRange, ↓reduceIte, reduceCtorEq, false_iff]
    rintro ⟨aligned, low, high, -⟩
    exact inRange ⟨aligned, low, high⟩

/-- A sound record is kept like a book. -/
theorem RecordSound.bookkept (sound : RecordSound system object record)
    (isSpace : system.spaces object = some record) : Bookkept system record := by
  constructor
  · exact sound.once
  · intro virtualAddr physicalAddr
    rw [← owned_page_iff_maps isSpace]
    exact sound.listed virtualAddr physicalAddr
  · exact sound.count

/-- `address_space_map_page` with a page of the caller. -/
theorem map_page_call_kept (inv : Accounted image system.held system)
    (isSpace : system.spaces object = some record) {virtualAddr physicalAddr flags : Nat}
    (isHeld : physicalAddr % 4096 = 0 → physicalAddr ∈ system.frames) {result : Int}
    {next : MemorySystem}
    (returned : addressSpaceMapPage (some object) virtualAddr physicalAddr flags system =
      .done result next) : CallKept record system result next := by
  by_cases aligned : physicalAddr % 4096 = 0
  · rcases (address_space_map_page_sat inv isSpace (isHeld aligned) virtualAddr flags).of_done
      returned with ⟨rfl, rfl, -⟩ | ⟨rfl, table, node, base, effect⟩
    · exact ⟨Or.inr rfl, fun _ _ => rfl, fun _ => rfl⟩
    · have kept := effect.shared_kept inv (isHeld aligned)
      refine ⟨Or.inl rfl, ?_, by simp⟩
      intro index isShared
      exact kept.words object record.pageDirectory (by rw [isSpace]; rfl) index isShared.lt
        fun _ => isShared
  · rw [map_page_unaligned inv isSpace aligned] at returned
    obtain ⟨rfl, rfl⟩ := Outcome.done.inj returned
    exact ⟨Or.inr rfl, fun _ _ => rfl, fun _ => rfl⟩

/-- `address_space_unmap_page`. -/
theorem unmap_page_call_kept (inv : Accounted image system.held system)
    (isSpace : system.spaces object = some record) {virtualAddr : Nat} {result : Int}
    {next : MemorySystem}
    (returned : addressSpaceUnmapPage (some object) virtualAddr system = .done result next) :
    CallKept record system result next := by
  rcases address_space_unmap_page_run inv isSpace virtualAddr with
    ⟨-, ran⟩ | ⟨next', table, physical, mapping, others, ran, effect⟩
  · obtain ⟨rfl, rfl⟩ := Outcome.done.inj (ran.symm.trans returned)
    exact ⟨Or.inr rfl, fun _ _ => rfl, fun _ => rfl⟩
  · obtain ⟨rfl, rfl⟩ := Outcome.done.inj (ran.symm.trans returned)
    have kept : SharedKept system.spaces ∅ system.machine next'.machine := effect.shared_kept inv
    refine ⟨Or.inl rfl, ?_, by simp⟩
    intro index isShared
    exact kept.words object record.pageDirectory (by rw [isSpace]; rfl) index isShared.lt
      fun touched => touched.elim

/-- In every run in which callers map pages that they hold, each address space keeps
its books, and calls on it keep its shared entries and fail without an effect. -/
theorem spaces_bookkept (reached : MemoryReachable image Proper system)
    (isSpace : system.spaces object = some record) :
    Bookkept system record ∧
      (∀ virtualAddr physicalAddr flags result next,
        (physicalAddr % 4096 = 0 → physicalAddr ∈ system.frames) →
        addressSpaceMapPage (some object) virtualAddr physicalAddr flags system = .done result next →
        CallKept record system result next) ∧
      (∀ virtualAddr result next,
        addressSpaceUnmapPage (some object) virtualAddr system = .done result next →
        CallKept record system result next) := by
  have inv := reachable_accounted (fun _ _ proper => proper) reached
  refine ⟨(inv.records object record isSpace).bookkept isSpace, ?_, ?_⟩
  · intro virtualAddr physicalAddr flags result next isHeld returned
    exact map_page_call_kept inv isSpace isHeld returned
  · intro virtualAddr result next returned
    exact unmap_page_call_kept inv isSpace returned

/-! ## Runs on the small machine -/

/-- What the list of a space and its tables say about an address. -/
def booksAt (object virtualAddr : Nat) (system : MemorySystem) : Option (List (Nat × Nat) × Nat) :=
  (system.spaces object).map fun record =>
    (record.userMappings.map fun mapping => (mapping.virtualAddr, mapping.physicalAddr),
      pageEntry system.machine.memory record.pageDirectory virtualAddr)

set_option maxRecDepth 100000 in
/-- Two pages of the caller, mapped in a space that is switched to; one of them is
unmapped again. -/
theorem mapped_pages_bookkept : ∃ system record, system.spaces 0xD1000018 = some record ∧
    record.userMappings.map Mapping.virtualAddr = [0x01000000] ∧ Bookkept system record := by
  have completed : (smallRun Proper
      [.create, .allocPage, .allocPage, .mapPage 0xD1000018 0x01000000 0x109000 3, .switch (some 0xD1000018),
        .mapPage 0xD1000018 0x01001000 0x10A000 3, .unmapPage 0xD1000018 0x01001000]).bind
        (fun system => (system.spaces 0xD1000018).map fun record =>
          record.userMappings.map Mapping.virtualAddr) = some [0x01000000] := by
    decide +kernel
  obtain ⟨system, ran, pages⟩ := Option.bind_eq_some_iff.mp completed
  obtain ⟨record, isSpace, listed⟩ := Option.map_eq_some_iff.mp pages
  exact ⟨system, record, isSpace, listed, (spaces_bookkept
    (small_run_reachable ran) isSpace).1⟩

/-- The same calls with any page address. -/
def anyPage (system : MemorySystem) : MemoryOp → Bool
  | .mapPage object _ _ _ => (system.spaces object).isSome
  | op => decide (Proper system op)

set_option maxRecDepth 100000 in
/-- The table of the first page is mapped as a page and unmapped. The next mapping is
given the freed table for another part of the address space, and the first page is
still listed at an address that now leads elsewhere. -/
theorem mapped_table_not_bookkept : ∃ system record,
    MemoryReachable smallImage (fun system op => anyPage system op = true) system ∧
    system.spaces 0xD1000018 = some record ∧ ¬ Bookkept system record := by
  have completed : (smallRun (fun system op => anyPage system op = true)
      [.create, .allocPage, .mapPage 0xD1000018 0x01000000 0x109000 3,
        .mapPage 0xD1000018 0x01001000 0x10A000 3, .unmapPage 0xD1000018 0x01001000,
        .mapPage 0xD1000018 0x01400000 0x10F000 3]).bind (booksAt 0xD1000018 0x01000000) =
      some ([(0x01400000, 0x10F000), (0x01000000, 0x109000)], 0x10F007) := by
    decide +kernel
  obtain ⟨system, ran, books⟩ := Option.bind_eq_some_iff.mp completed
  obtain ⟨record, isSpace, both⟩ := Option.map_eq_some_iff.mp books
  obtain ⟨listed, entry⟩ := Prod.mk.inj both
  refine ⟨system, record, small_run_reachable ran, isSpace, ?_⟩
  intro kept
  have member : ((0x01000000, 0x109000) : Nat × Nat) ∈
      record.userMappings.map fun mapping => (mapping.virtualAddr, mapping.physicalAddr) := by
    rw [listed]
    decide
  obtain ⟨mapping, isListed, same⟩ := List.mem_map.mp member
  obtain ⟨-, -, -, -, frame⟩ := (kept.listed 0x01000000 0x109000).mp
    ⟨mapping, isListed, congrArg Prod.fst same, congrArg Prod.snd same⟩
  rw [entry] at frame
  exact absurd frame (by decide)

end Toyix.Paging
