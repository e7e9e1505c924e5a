import Toyix.Paging.Frames

/-!
# The memory map at boot

Which frames `pmm_init` leaves free. The boot loader's map is a sequence of entries that
fill its buffer; available entries are rounded inwards to whole pages and freed, and the
reserved ranges are rounded outwards and taken back.

Rounding the start of an entry up is done in 32 bits. A start inside the last page below
4 GiB is rounded to zero, and the entry then frees every frame below that page.
-/

namespace Toyix.Pmm

open Library

variable {boot : Boot} {pmm pmm' : PmmState} {entries : List Nat} {memory : Memory}
  {cursor page : Nat}

/-! ## Entries -/

def entrySize (memory : Memory) (cursor : Nat) : Nat := memory.read32 cursor

def entryBase (memory : Memory) (cursor : Nat) : Nat :=
  memory.read32 (cursor + 8) * 2 ^ 32 + memory.read32 (cursor + 4)

def entryLength (memory : Memory) (cursor : Nat) : Nat :=
  memory.read32 (cursor + 16) * 2 ^ 32 + memory.read32 (cursor + 12)

def Available (memory : Memory) (cursor : Nat) : Prop :=
  memory.read32 (cursor + 20) = multibootMemoryAvailable

/-- Entries from `cursor` on that end exactly at `stop`. -/
inductive EntriesFill (memory : Memory) (stop : Nat) : Nat → List Nat → Prop where
  | finished : EntriesFill memory stop stop []
  | entry {cursor : Nat} {rest : List Nat} (size : 20 ≤ entrySize memory cursor)
      (fits : cursor + entrySize memory cursor + 4 ≤ stop)
      (later : EntriesFill memory stop (cursor + entrySize memory cursor + 4) rest) :
      EntriesFill memory stop cursor (cursor :: rest)

/-- A boot loader's data: a map of well-formed entries that fill its buffer, with the kernel image, the
Multiboot structure and the map inside the 4 GiB. -/
structure Boot.Mapped (boot : Boot) (entries : List Nat) : Prop where
  notNull : boot.mbi ≠ 0
  hasMap : mbiFlags boot &&& multibootInfoMemMap ≠ 0
  kernel : boot.kernelStart ≤ boot.kernelEnd
  kernelInside : boot.kernelEnd < 2 ^ 32
  infoInside : boot.mbi + sizeofMultibootInfo ≤ 2 ^ 32
  mapInside : mbiMmapAddr boot + mbiMmapLength boot ≤ 2 ^ 32
  fill : EntriesFill boot.memory (mbiMmapAddr boot + mbiMmapLength boot) (mbiMmapAddr boot) entries
  ranges : ∀ cursor ∈ entries,
    entryBase boot.memory cursor + entryLength boot.memory cursor < 2 ^ 64

/-- The kernel image, the Multiboot structure and the map end below the last page of the 4 GiB. -/
structure BelowLastPage (boot : Boot) : Prop where
  kernelBelow : boot.kernelEnd ≤ 0xFFFFF000
  infoBelow : boot.mbi + sizeofMultibootInfo ≤ 0xFFFFF000
  mapBelow : mbiMmapAddr boot + mbiMmapLength boot ≤ 0xFFFFF000

/-- A boot loader's data, below the last page of the 4 GiB. -/
structure Boot.WellFormed (boot : Boot) (entries : List Nat) : Prop extends
  boot.Mapped entries, BelowLastPage boot

theorem Boot.WellFormed.mapEnds (formed : boot.WellFormed entries) :
    mbiMmapAddr boot + mbiMmapLength boot < 2 ^ 32 := by
  have mapBelow := formed.mapBelow
  omega

/-- The walk visits the entries one after the other and ends. -/
theorem discover_loop_run {stop : Nat} (fill : EntriesFill memory stop cursor entries)
    (bounded : stop < 2 ^ 32) (fuel : Nat) (enough : entries.length < fuel) (pmm : PmmState) :
    discoverFromMmapLoop memory stop fuel cursor pmm =
      .done ⟨⟩ (entries.foldl (fun pmm cursor => discoverEntry memory cursor pmm) pmm) := by
  induction fill generalizing fuel pmm with
  | finished =>
    obtain ⟨fuel, rfl⟩ : ∃ more, fuel = more + 1 := ⟨fuel - 1, by omega⟩
    simp only [discoverFromMmapLoop, Nat.lt_irrefl, ↓reduceIte, pure_apply, List.foldl_nil]
  | @entry cursor rest size fits later ih =>
    obtain ⟨fuel, rfl⟩ : ∃ more, fuel = more + 1 := ⟨fuel - 1, by omega⟩
    have inside : cursor < stop := by omega
    have next : (cursor + memory.read32 cursor + 4) % 2 ^ 32 = cursor + entrySize memory cursor + 4 := by
      rw [entrySize] at fits ⊢
      omega
    rw [List.length_cons] at enough
    rw [discoverFromMmapLoop]
    simp only [inside, ↓reduceIte, bind_apply, Program.update_apply, andThen_done, next, List.foldl_cons]
    exact ih fuel (by omega) _

/-- There are fewer entries than bytes. -/
theorem EntriesFill.length_le {stop : Nat} (fill : EntriesFill memory stop cursor entries) :
    cursor + entries.length ≤ stop := by
  induction fill with
  | finished => exact Nat.le_refl _
  | entry size fits later ih =>
    rw [List.length_cons]
    omega

/-! ## Bits -/

/-- Marking a run of frames free, exactly. -/
theorem test_for_free_exact (count frame tested : Nat) (pmm : PmmState)
    (bounded : tested < pmmMaxFrames) :
    bitmapTest (forFrames markFrameFree count frame pmm) tested =
      (decide (¬ (frame ≤ tested ∧ tested < frame + count)) && bitmapTest pmm tested) := by
  induction count generalizing frame pmm with
  | zero =>
    have empty : ¬ (frame ≤ tested ∧ tested < frame + 0) := by omega
    simp only [forFrames, empty, not_false_eq_true, decide_true, Bool.true_and]
  | succ count ih =>
    rw [forFrames, ih]
    by_cases inside : frame < pmmMaxFrames
    · rw [test_mark_free pmm frame tested inside, ← Bool.and_assoc, ← Bool.decide_and]
      congr 2
      rw [eq_iff_iff]
      omega
    · have outside : frame ≥ pmmMaxFrames := by omega
      have missed : ¬ (frame + 1 ≤ tested ∧ tested < frame + 1 + count) := by omega
      have missed' : ¬ (frame ≤ tested ∧ tested < frame + (count + 1)) := by omega
      simp only [markFrameFree, outside, ↓reduceIte, missed, missed']

/-- The loop over a range of pages visits the frames of the range. -/
theorem page_in_range (start stop physical : Nat) (startAligned : start % 4096 = 0)
    (stopAligned : stop % 4096 = 0) :
    (frameIndexFromAddr start ≤ physical / 4096 ∧
      physical / 4096 < frameIndexFromAddr start + (stop - start) / pmmPageSize) ↔
      start ≤ physical / 4096 * 4096 ∧ physical / 4096 * 4096 < stop := by
  simp only [frameIndexFromAddr, pmmPageSize]
  omega

theorem align_up_aligned (value : Nat) : alignUpPage value % 4096 = 0 := by
  rw [align_up_eq]
  omega

theorem align_down_aligned (value : Nat) (bounded : value < 2 ^ 32) : alignDownPage value % 4096 = 0 := by
  rw [align_down_le value bounded]
  omega

/-- Reserving a range, exactly. -/
theorem reserve_range_exact {startAddr endAddr physical : Nat} (pmm : PmmState)
    (startBounded : startAddr < 2 ^ 32) (bounded : physical < 2 ^ 32) :
    FrameUsed (reserveRange startAddr endAddr pmm) physical ↔
      InPages startAddr endAddr physical ∨ FrameUsed pmm physical := by
  have inside : physical / 4096 < pmmMaxFrames := by
    simp only [pmmMaxFrames]
    omega
  rw [FrameUsed, reserveRange, forPages, test_for_used_exact _ _ _ _ (Or.inl inside), Bool.or_eq_true,
    decide_eq_true_iff, page_in_range _ _ _ (align_down_aligned _ startBounded) (align_up_aligned _)]
  exact Iff.rfl

/-- Freeing a range, exactly. -/
theorem free_range_exact {startAddr endAddr physical : Nat} (pmm : PmmState)
    (endBounded : endAddr < 2 ^ 32) (bounded : physical < 2 ^ 32) :
    FrameUsed (freeRange startAddr endAddr pmm) physical ↔
      ¬ (alignUpPage startAddr ≤ physical / 4096 * 4096 ∧
        physical / 4096 * 4096 < alignDownPage endAddr) ∧ FrameUsed pmm physical := by
  have inside : physical / 4096 < pmmMaxFrames := by
    simp only [pmmMaxFrames]
    omega
  rw [FrameUsed, freeRange, forPages, test_for_free_exact _ _ _ _ inside, Bool.and_eq_true,
    decide_eq_true_iff, page_in_range _ _ _ (align_up_aligned _) (align_down_aligned _ endBounded)]
  exact Iff.rfl

/-! ## What an entry frees -/

theorem frame_used_congr (same : pmm'.frameBitmap = pmm.frameBitmap) (physical : Nat) :
    FrameUsed pmm' physical ↔ FrameUsed pmm physical := by
  rw [FrameUsed, FrameUsed, bitmapTest, bitmapTest, same]

/-- The end of an entry as the code narrows it to 32 bits. -/
def usableEnd (memory : Memory) (cursor : Nat) : Nat :=
  if (entryBase memory cursor + entryLength memory cursor) % 2 ^ 64 > 0x100000000 then 0xFFFFFFFF
  else (entryBase memory cursor + entryLength memory cursor) % 2 ^ 64 % 2 ^ 32

theorem usable_end_lt (memory : Memory) (cursor : Nat) : usableEnd memory cursor < 2 ^ 32 := by
  unfold usableEnd
  split
  · decide
  · exact Nat.mod_lt _ (by decide)

/-- The page of an address is freed by an entry. -/
structure Frees (memory : Memory) (cursor physical : Nat) : Prop where
  available : Available memory cursor
  narrow : entryBase memory cursor < 0x100000000
  start : alignUpPage (entryBase memory cursor) ≤ physical / 4096 * 4096
  stop : physical / 4096 * 4096 < alignDownPage (usableEnd memory cursor)

/-- What an available entry below 4 GiB does to the bitmap and to the counts. -/
theorem discover_entry_available (pmm : PmmState)
    (applies : Available memory cursor ∧ entryBase memory cursor < 0x100000000) :
    (discoverEntry memory cursor pmm).frameBitmap =
        (freeRange (entryBase memory cursor) (usableEnd memory cursor) pmm).frameBitmap ∧
      (discoverEntry memory cursor pmm).freeFrames =
        (freeRange (entryBase memory cursor) (usableEnd memory cursor) pmm).freeFrames ∧
      (discoverEntry memory cursor pmm).totalFrames =
        (freeRange (entryBase memory cursor) (usableEnd memory cursor) pmm).totalFrames ∧
      (discoverEntry memory cursor pmm).usableFrames =
        let freed := freeRange (entryBase memory cursor) (usableEnd memory cursor) pmm
        let startFrame := frameIndexFromAddr (alignUpPage (entryBase memory cursor))
        let endFrame := frameIndexFromAddr (alignDownPage (usableEnd memory cursor))
        if endFrame > startFrame then (freed.usableFrames + (endFrame - startFrame)) % 2 ^ 32
        else freed.usableFrames := by
  -- The words of the entry are named, so that none of them is unfolded below.
  obtain ⟨base, isBase⟩ : ∃ base, base = memory.read32 (cursor + 8) * 2 ^ 32 +
    memory.read32 (cursor + 4) := ⟨_, rfl⟩
  obtain ⟨length, isLength⟩ : ∃ length, length = memory.read32 (cursor + 16) * 2 ^ 32 +
    memory.read32 (cursor + 12) := ⟨_, rfl⟩
  rw [Available, entryBase, ← isBase] at applies
  rw [usableEnd, entryBase, entryLength, discoverEntry, ← isBase, ← isLength, if_pos applies]
  exact ⟨rfl, rfl, rfl, rfl⟩

theorem discover_entry_skip (pmm : PmmState)
    (skipped : ¬ (Available memory cursor ∧ entryBase memory cursor < 0x100000000)) :
    discoverEntry memory cursor pmm = pmm := by
  rw [Available, entryBase] at skipped
  rw [discoverEntry, if_neg skipped]

theorem discover_entry_exact {physical : Nat} (memory : Memory) (cursor : Nat) (pmm : PmmState)
    (bounded : physical < 2 ^ 32) :
    FrameUsed (discoverEntry memory cursor pmm) physical ↔
      ¬ Frees memory cursor physical ∧ FrameUsed pmm physical := by
  by_cases applies : Available memory cursor ∧ entryBase memory cursor < 0x100000000
  · have freed := @free_range_exact (entryBase memory cursor) (usableEnd memory cursor) physical pmm
      (usable_end_lt memory cursor) bounded
    have sameBits := frame_used_congr (discover_entry_available pmm applies).1 physical
    refine sameBits.trans (freed.trans (and_congr_left fun _ => not_congr ⟨?_, ?_⟩))
    · rintro ⟨start, stop⟩
      exact ⟨applies.1, applies.2, start, stop⟩
    · intro frees
      exact ⟨frees.start, frees.stop⟩
  · rw [discover_entry_skip pmm applies]
    refine (and_iff_right ?_).symm
    intro frees
    exact applies ⟨frees.available, frees.narrow⟩

/-- The walk frees what some entry frees. -/
theorem discover_entries_exact {physical : Nat} (memory : Memory) (entries : List Nat) (pmm : PmmState)
    (bounded : physical < 2 ^ 32) :
    FrameUsed (entries.foldl (fun pmm cursor => discoverEntry memory cursor pmm) pmm) physical ↔
      (∀ cursor ∈ entries, ¬ Frees memory cursor physical) ∧ FrameUsed pmm physical := by
  induction entries generalizing pmm with
  | nil => simp
  | cons cursor rest ih =>
    rw [List.foldl_cons, ih, discover_entry_exact memory cursor pmm bounded, List.forall_mem_cons]
    constructor
    · rintro ⟨others, this, used⟩
      exact ⟨⟨this, others⟩, used⟩
    · rintro ⟨⟨this, others⟩, used⟩
      exact ⟨others, this, used⟩

theorem Boot.Mapped.kernel_start_lt (mapped : boot.Mapped entries) : boot.kernelStart < 2 ^ 32 :=
  Nat.lt_of_le_of_lt mapped.kernel mapped.kernelInside

theorem Boot.Mapped.info_start_lt (mapped : boot.Mapped entries) : boot.mbi < 2 ^ 32 := by
  have infoInside := mapped.infoInside
  rw [sizeofMultibootInfo] at infoInside
  omega

/-- Reserving the kernel and the boot data, exactly. -/
theorem reserve_boot_exact (mapped : boot.Mapped entries) (pmm : PmmState) {physical : Nat}
    (bounded : physical < 2 ^ 32) :
    FrameUsed (reserveKernelAndBootData boot pmm) physical ↔
      ReservedAtBoot boot physical ∨ FrameUsed pmm physical := by
  have kernelStart := mapped.kernel_start_lt
  have infoStart := mapped.info_start_lt
  have mapStart : mbiMmapAddr boot < 2 ^ 32 := Memory.read32_lt boot.memory _
  simp only [reserveKernelAndBootData]
  rw [if_pos mapped.hasMap, reserve_range_exact _ mapStart bounded,
    reserve_range_exact _ infoStart bounded, reserve_range_exact _ kernelStart bounded,
    reserve_range_exact _ (by decide) bounded, ReservedAtBoot]
  constructor
  · rintro (inMap | inInfo | inImage | inLow | used)
    · exact Or.inl (Or.inr (Or.inr (Or.inr inMap)))
    · exact Or.inl (Or.inr (Or.inr (Or.inl inInfo)))
    · exact Or.inl (Or.inr (Or.inl inImage))
    · exact Or.inl (Or.inl inLow)
    · exact Or.inr used
  · rintro ((inLow | inImage | inInfo | inMap) | used)
    · exact Or.inr (Or.inr (Or.inr (Or.inl inLow)))
    · exact Or.inr (Or.inr (Or.inl inImage))
    · exact Or.inr (Or.inl inInfo)
    · exact Or.inl inMap
    · exact Or.inr (Or.inr (Or.inr (Or.inr used)))

/-! ## `pmm_init` -/

/-- The state that `pmm_init` walks the map with. -/
def clearedPmm (pmm : PmmState) : PmmState :=
  { markAllFramesUsed pmm with
    totalFrames := pmmMaxFrames
    usableFrames := 0
    reservedFrames := 0
    highestPhysicalAddr := 0 }

/-- The state that `pmm_init` leaves. -/
def initialPmm (boot : Boot) (entries : List Nat) (pmm : PmmState) : PmmState :=
  let booked := reserveKernelAndBootData boot
    (entries.foldl (fun pmm cursor => discoverEntry boot.memory cursor pmm) (clearedPmm pmm))
  { booked with reservedFrames := (booked.totalFrames + 2 ^ 32 - booked.freeFrames) % 2 ^ 32 }

theorem initial_bitmap (boot : Boot) (entries : List Nat) (pmm : PmmState) :
    (initialPmm boot entries pmm).frameBitmap = (reserveKernelAndBootData boot
      (entries.foldl (fun pmm cursor => discoverEntry boot.memory cursor pmm)
        (clearedPmm pmm))).frameBitmap := by
  rw [initialPmm]

/-- The walk of the map visits its entries in order. -/
theorem discover_run (mapped : boot.Mapped entries)
    (ends : mbiMmapAddr boot + mbiMmapLength boot < 2 ^ 32) (pmm : PmmState) :
    discoverFromMmap boot pmm = .done ⟨⟩
      (entries.foldl (fun pmm cursor => discoverEntry boot.memory cursor pmm) pmm) := by
  have short := mapped.fill.length_le
  rw [discoverFromMmap, Nat.mod_eq_of_lt ends]
  exact discover_loop_run mapped.fill ends (2 ^ 32) (by omega) pmm

/-- `pmm_init` returns on every map whose buffer ends below 4 GiB. -/
theorem pmm_init_run (mapped : boot.Mapped entries)
    (ends : mbiMmapAddr boot + mbiMmapLength boot < 2 ^ 32) (pmm : PmmState) :
    pmmInit boot pmm = .done ⟨⟩ (initialPmm boot entries pmm) := by
  have walked := discover_run mapped ends (clearedPmm pmm)
  have cleared : Program.update (fun pmm : PmmState => { markAllFramesUsed pmm with
      totalFrames := pmmMaxFrames
      usableFrames := 0
      reservedFrames := 0
      highestPhysicalAddr := 0 }) pmm = .done ⟨⟩ (clearedPmm pmm) := rfl
  unfold pmmInit
  rw [if_neg mapped.notNull, bind_done cleared, if_neg mapped.hasMap, bind_done walked]
  simp only [bind_apply, Program.update_apply, andThen_done, initialPmm]

/-- Which frames are free after boot. -/
theorem initial_free_iff (mapped : boot.Mapped entries) (pmm : PmmState) {physical : Nat}
    (bounded : physical < 2 ^ 32) :
    ¬ FrameUsed (initialPmm boot entries pmm) physical ↔
      ¬ ReservedAtBoot boot physical ∧ ∃ cursor ∈ entries, Frees boot.memory cursor physical := by
  have allUsed : FrameUsed (clearedPmm pmm) physical := by
    have full : ∀ bit : Fin 8, ((0xFF : UInt8).toBitVec.getLsbD bit.val) = true := by decide
    have byte : (clearedPmm pmm).frameBitmap.byte (physical / 4096 / 8) = 0xFF := rfl
    rw [FrameUsed, bitmapTest, Memory.bitTest_eq, byte]
    exact full ⟨physical / 4096 % 8, Nat.mod_lt _ (by decide)⟩
  have used : FrameUsed (initialPmm boot entries pmm) physical ↔ ReservedAtBoot boot physical ∨
      ∀ cursor ∈ entries, ¬ Frees boot.memory cursor physical := by
    have walked := discover_entries_exact boot.memory entries (clearedPmm pmm) bounded
    rw [and_iff_left allUsed] at walked
    rw [← walked, ← reserve_boot_exact mapped _ bounded]
    exact frame_used_congr (initial_bitmap boot entries pmm) physical
  rw [used, not_or]
  refine and_congr_right fun _ => ?_
  simp only [not_forall, not_not, exists_prop]

/-! ## Available memory -/

/-- The page at an address lies inside one available entry. -/
def InsideAvailable (memory : Memory) (entries : List Nat) (page : Nat) : Prop :=
  ∃ cursor ∈ entries, Available memory cursor ∧ entryBase memory cursor ≤ page ∧
    page + 4096 ≤ entryBase memory cursor + entryLength memory cursor

/-- An available entry starts inside the last page below 4 GiB, and does not end at
4 GiB. -/
def Wrapping (memory : Memory) (cursor : Nat) : Prop :=
  Available memory cursor ∧ 0xFFFFF000 < entryBase memory cursor ∧ entryBase memory cursor < 2 ^ 32 ∧
    entryBase memory cursor + entryLength memory cursor ≠ 2 ^ 32

/-- An entry that wraps frees every frame below the last page. -/
theorem Wrapping.frees (wraps : Wrapping memory cursor)
    (range : entryBase memory cursor + entryLength memory cursor < 2 ^ 64)
    (aligned : page % 4096 = 0) (below : page < 0xFFFFF000) : Frees memory cursor page := by
  obtain ⟨available, high, narrow, notTop⟩ := wraps
  have start := align_up_eq (entryBase memory cursor)
  refine ⟨available, narrow, by omega, ?_⟩
  have stop := align_down_le _ (usable_end_lt memory cursor)
  have last : 0xFFFFF000 ≤ usableEnd memory cursor := by
    unfold usableEnd
    split <;> omega
  omega

/-- An entry that does not wrap frees pages inside it only. -/
theorem Frees.inside (frees : Frees memory cursor page) (aligned : page % 4096 = 0)
    (notWrapping : ¬ Wrapping memory cursor) :
    entryBase memory cursor ≤ page ∧
      page + 4096 ≤ entryBase memory cursor + entryLength memory cursor := by
  have narrow := frees.narrow
  have start := align_up_eq (entryBase memory cursor)
  have first := frees.start
  have last := frees.stop
  by_cases top : entryBase memory cursor + entryLength memory cursor = 2 ^ 32
  · have none : usableEnd memory cursor = 0 := by
      unfold usableEnd
      rw [top]
      decide
    rw [none] at last
    exact absurd last (by simp [alignDownPage])
  · have low : entryBase memory cursor ≤ 0xFFFFF000 := by
      by_contra high
      exact notWrapping ⟨frees.available, by omega, narrow, top⟩
    have within : usableEnd memory cursor ≤ entryBase memory cursor + entryLength memory cursor := by
      unfold usableEnd
      split <;> omega
    have stop := align_down_le _ (usable_end_lt memory cursor)
    omega

/-- A frame outside the reserved pages meets none of the reserved ranges. -/
structure Unreserved (boot : Boot) (page : Nat) : Prop where
  lowMemory : 0x100000 ≤ page
  kernel : page + 4096 ≤ boot.kernelStart ∨ boot.kernelEnd ≤ page
  info : page + 4096 ≤ boot.mbi ∨ boot.mbi + sizeofMultibootInfo ≤ page
  map : page + 4096 ≤ mbiMmapAddr boot ∨ mbiMmapAddr boot + mbiMmapLength boot ≤ page

theorem apart_of_not_in_pages {startAddr endAddr : Nat} (startBounded : startAddr < 2 ^ 32)
    (endBelow : endAddr ≤ 0xFFFFF000) (aligned : page % 4096 = 0)
    (outside : ¬ InPages startAddr endAddr page) : page + 4096 ≤ startAddr ∨ endAddr ≤ page := by
  have down := align_down_le startAddr startBounded
  have up := align_up_eq endAddr
  simp only [InPages, not_and_or, not_le, not_lt] at outside
  omega

theorem unreserved_of_not_reserved (formed : boot.WellFormed entries) (aligned : page % 4096 = 0)
    (notReserved : ¬ ReservedAtBoot boot page) : Unreserved boot page := by
  have kernelBelow := formed.kernelBelow
  have kernel := formed.kernel
  have infoBelow := formed.infoBelow
  have mapBelow := formed.mapBelow
  simp only [ReservedAtBoot, not_or] at notReserved
  obtain ⟨notLow, notImage, notInfo, notMap⟩ := notReserved
  have infoEnd : (boot.mbi + sizeofMultibootInfo) % 2 ^ 32 = boot.mbi + sizeofMultibootInfo := by omega
  have mapEnd : (mbiMmapAddr boot + mbiMmapLength boot) % 2 ^ 32 =
      mbiMmapAddr boot + mbiMmapLength boot := by omega
  rw [infoEnd] at notInfo
  rw [mapEnd] at notMap
  constructor
  · have apart := apart_of_not_in_pages (by decide) (by decide) aligned notLow
    omega
  · exact apart_of_not_in_pages (by omega) kernelBelow aligned notImage
  · exact apart_of_not_in_pages (by omega) infoBelow aligned notInfo
  · exact apart_of_not_in_pages (by omega) mapBelow aligned notMap

/-- Only available memory is free after boot. -/
def OnlyAvailableFree (boot : Boot) (entries : List Nat) (pmm : PmmState) : Prop :=
  ∀ page, page % 4096 = 0 → page < 2 ^ 32 → ¬ FrameUsed pmm page →
    InsideAvailable boot.memory entries page ∧ Unreserved boot page

/-- After `pmm_init` only available memory is free, exactly when no available entry
starts inside the last page below 4 GiB without ending at 4 GiB, or all that such an entry
frees is available or reserved anyway.

Proof: `pmm_init` frees what the entries free and takes the reserved pages back. An entry
that does not wrap frees pages inside it only. One that wraps frees all frames below the
last page. -/
theorem memory_map_safe_iff {entries : List Nat} (formed : boot.WellFormed entries)
    (pmm : PmmState) :
    (∃ start, pmmInit boot pmm = .done ⟨⟩ start ∧ OnlyAvailableFree boot entries start) ↔
      ((∃ cursor ∈ entries, Wrapping boot.memory cursor) → ∀ page, page % 4096 = 0 →
        page < 0xFFFFF000 → ReservedAtBoot boot page ∨ InsideAvailable boot.memory entries page) := by
  have returned := pmm_init_run formed.toMapped formed.mapEnds pmm
  constructor
  · rintro ⟨start, ran, safe⟩ ⟨cursor, isEntry, wraps⟩ page aligned below
    obtain ⟨-, rfl⟩ := Outcome.done.inj (returned.symm.trans ran)
    by_cases reserved : ReservedAtBoot boot page
    · exact Or.inl reserved
    · refine Or.inr (safe page aligned (by omega) ?_).1
      rw [initial_free_iff formed.toMapped pmm (by omega)]
      exact ⟨reserved, cursor, isEntry, wraps.frees (formed.ranges cursor isEntry) aligned below⟩
  · intro harmless
    refine ⟨_, returned, ?_⟩
    intro page aligned bounded free
    obtain ⟨notReserved, cursor, isEntry, frees⟩ := (initial_free_iff formed.toMapped pmm bounded).mp free
    refine ⟨?_, unreserved_of_not_reserved formed aligned notReserved⟩
    by_cases wraps : Wrapping boot.memory cursor
    · have endBounded := usable_end_lt boot.memory cursor
      have below : page < 0xFFFFF000 := by
        have stop := align_down_le _ endBounded
        have last := frees.stop
        omega
      exact (harmless ⟨cursor, isEntry, wraps⟩ page aligned below).resolve_left notReserved
    · obtain ⟨low, high⟩ := frees.inside aligned wraps
      exact ⟨cursor, isEntry, frees.available, low, high⟩

/-! ## Maps of one entry -/

/-- A kernel of five pages at 1 MiB, and a map with one available entry. -/
def oneEntryBoot (base length : Nat) : Boot where
  kernelStart := 0x100000
  kernelEnd := 0x105000
  mbi := 0x9000
  memory := ((((((⟨fun _ => 0⟩ : Memory).write32 0x9000 0x40).write32 0x902C 24).write32
    0x9030 0xA000).write32 0xA000 20).write32 0xA004 base).write32 0xA00C length |>.write32 0xA014 1

/-- 128 KiB of available memory at 1 MiB. -/
theorem one_range_well_formed : (oneEntryBoot 0x100000 0x20000).WellFormed [0xA000] := by
  refine ⟨⟨by decide, by decide, by decide, by decide, by decide, by decide, ?_, by decide⟩,
    ⟨by decide, by decide, by decide⟩⟩
  exact .entry (by decide) (by decide) .finished

/-- On a machine with one range of memory only that range is free after boot. -/
theorem one_range_safe : ∃ start,
    pmmInit (oneEntryBoot 0x100000 0x20000) ⟨⟨fun _ => 0⟩, 0, 0, 0, 0, 0⟩ = .done ⟨⟩ start ∧
      OnlyAvailableFree (oneEntryBoot 0x100000 0x20000) [0xA000] start := by
  refine (memory_map_safe_iff one_range_well_formed _).mpr ?_
  rintro ⟨cursor, isEntry, -, high, -⟩
  obtain rfl := List.mem_singleton.mp isEntry
  exact absurd high (by decide)

/-- 1 KiB of available memory inside the last page below 4 GiB. -/
theorem last_page_well_formed : (oneEntryBoot 0xFFFFF800 0x400).WellFormed [0xA000] := by
  refine ⟨⟨by decide, by decide, by decide, by decide, by decide, by decide, ?_, by decide⟩,
    ⟨by decide, by decide, by decide⟩⟩
  exact .entry (by decide) (by decide) .finished

/-- The map offers 1 KiB inside the last page below 4 GiB; after boot the frame at 2 MiB
is free. -/
theorem last_page_entry_frees_all : (oneEntryBoot 0xFFFFF800 0x400).WellFormed [0xA000] ∧ ∃ start,
    pmmInit (oneEntryBoot 0xFFFFF800 0x400) ⟨⟨fun _ => 0⟩, 0, 0, 0, 0, 0⟩ = .done ⟨⟩ start ∧
      ¬ FrameUsed start 0x200000 ∧
      ¬ InsideAvailable (oneEntryBoot 0xFFFFF800 0x400).memory [0xA000] 0x200000 := by
  refine ⟨last_page_well_formed, _, pmm_init_run last_page_well_formed.toMapped last_page_well_formed.mapEnds _, ?_, ?_⟩
  · rw [initial_free_iff last_page_well_formed.toMapped _ (by decide)]
    refine ⟨?_, 0xA000, List.mem_singleton_self _, ?_⟩
    · simp only [ReservedAtBoot, InPages]
      decide
    · exact Wrapping.frees (by simp only [Wrapping, Available]; decide) (by decide) (by decide) (by decide)
  · rintro ⟨cursor, isEntry, -, low, -⟩
    obtain rfl := List.mem_singleton.mp isEntry
    exact absurd low (by decide)

end Toyix.Pmm
