import Mathlib.Order.Interval.Finset.Nat
import Toyix.Paging.FrameContract

/-!
# Which memory becomes usable

The other half of the memory map: every frame of available memory below 4 GiB should be free after
`pmm_init`, and `usable_frames` should be their number. Both hold on maps without entries at the
boundary of 4 GiB. There the end of an entry does not fit a 32-bit word: an entry that ends at 4 GiB
is taken to end at 0, and one that goes on is cut off one byte early, so that the last frame is lost.
-/

namespace Toyix.Pmm

open Library

variable {boot : Boot} {memory : Memory} {cursor : Nat} {entries : List Nat} {pmm : PmmState}
  {page : Nat}

/-! ## The frames of the entries -/

instance (memory : Memory) (cursor : Nat) : Decidable (Available memory cursor) :=
  inferInstanceAs (Decidable (_ = _))

instance (memory : Memory) (entries : List Nat) (page : Nat) :
    Decidable (InsideAvailable memory entries page) :=
  inferInstanceAs (Decidable (∃ cursor ∈ entries, _))

/-- No address belongs to both entries. -/
def Apart (memory : Memory) (cursor other : Nat) : Prop :=
  ∀ address, ¬ (entryBase memory cursor ≤ address ∧
    address < entryBase memory cursor + entryLength memory cursor ∧
    entryBase memory other ≤ address ∧ address < entryBase memory other + entryLength memory other)

/-- The frames below 4 GiB that lie inside an available entry. -/
def availableFrames (memory : Memory) (entries : List Nat) : Finset Nat :=
  (Finset.range pmmMaxFrames).filter fun frame => InsideAvailable memory entries (4096 * frame)

theorem mem_available_frames {frame : Nat} : frame ∈ availableFrames memory entries ↔
    frame < pmmMaxFrames ∧ InsideAvailable memory entries (4096 * frame) := by
  rw [availableFrames, Finset.mem_filter, Finset.mem_range]

theorem inside_available_cons : InsideAvailable memory (cursor :: entries) page ↔
    InsideAvailable memory [cursor] page ∨ InsideAvailable memory entries page := by
  simp only [InsideAvailable, List.exists_mem_cons_iff, List.not_mem_nil, false_and, exists_false,
    or_false]

/-- Entries that do not overlap have no frame in common, so that their numbers of frames add up. -/
theorem card_available_frames (apart : entries.Pairwise (Apart memory)) :
    (availableFrames memory entries).card =
      (entries.map fun cursor => (availableFrames memory [cursor]).card).sum := by
  induction entries with
  | nil =>
    rw [List.map_nil, List.sum_nil, Finset.card_eq_zero, Finset.eq_empty_iff_forall_notMem]
    intro frame isFrame
    obtain ⟨-, cursor, isEntry, -⟩ := mem_available_frames.mp isFrame
    cases isEntry
  | cons cursor rest ih =>
    rw [List.pairwise_cons] at apart
    have split : availableFrames memory (cursor :: rest) =
        availableFrames memory [cursor] ∪ availableFrames memory rest := by
      ext frame
      rw [Finset.mem_union, mem_available_frames, mem_available_frames, mem_available_frames,
        inside_available_cons, and_or_left]
    have disjoint : Disjoint (availableFrames memory [cursor]) (availableFrames memory rest) := by
      rw [Finset.disjoint_left]
      intro frame here there
      obtain ⟨-, first, isFirst, -, low, high⟩ := mem_available_frames.mp here
      obtain rfl := List.mem_singleton.mp isFirst
      obtain ⟨-, other, isOther, -, otherLow, otherHigh⟩ := mem_available_frames.mp there
      exact apart.1 other isOther (4096 * frame) ⟨low, by omega, otherLow, by omega⟩
    rw [split, Finset.card_union_of_disjoint disjoint, ih apart.2, List.map_cons, List.sum_cons]

/-- The frames of one available entry are consecutive. -/
theorem available_frames_entry (available : Available memory cursor) :
    availableFrames memory [cursor] = Finset.Ico ((entryBase memory cursor + 4095) / 4096)
      (min (entryBase memory cursor + entryLength memory cursor) (2 ^ 32) / 4096) := by
  ext frame
  rw [mem_available_frames, Finset.mem_Ico, pmmMaxFrames]
  constructor
  · rintro ⟨bounded, other, isOther, -, low, high⟩
    obtain rfl := List.mem_singleton.mp isOther
    omega
  · rintro ⟨low, high⟩
    refine ⟨by omega, cursor, List.mem_singleton_self cursor, available, by omega, by omega⟩

/-! ## The count of usable frames -/

/-- What the walk adds to `usable_frames` for an entry. -/
def usableAdded (memory : Memory) (cursor : Nat) : Nat :=
  if Available memory cursor ∧ entryBase memory cursor < 0x100000000 then
    frameIndexFromAddr (alignDownPage (usableEnd memory cursor)) -
      frameIndexFromAddr (alignUpPage (entryBase memory cursor))
  else 0

theorem discover_entry_usable (memory : Memory) (cursor : Nat) (bounded : pmm.usableFrames < 2 ^ 32) :
    (discoverEntry memory cursor pmm).usableFrames =
      (pmm.usableFrames + usableAdded memory cursor) % 2 ^ 32 := by
  by_cases applies : Available memory cursor ∧ entryBase memory cursor < 0x100000000
  · have freed := (free_range_remarked (entryBase memory cursor) (usableEnd memory cursor)
      pmm).usableFrames
    obtain ⟨-, -, -, added⟩ := discover_entry_available pmm applies
    simp only [freed] at added
    rw [added, usableAdded, if_pos applies]
    split <;> omega
  · rw [discover_entry_skip pmm applies, usableAdded, if_neg applies, Nat.add_zero,
      Nat.mod_eq_of_lt bounded]

theorem discover_entries_usable (memory : Memory) (entries : List Nat) (pmm : PmmState)
    (bounded : pmm.usableFrames < 2 ^ 32) :
    (entries.foldl (fun pmm cursor => discoverEntry memory cursor pmm) pmm).usableFrames =
      (pmm.usableFrames + (entries.map (usableAdded memory)).sum) % 2 ^ 32 := by
  induction entries generalizing pmm with
  | nil => rw [List.foldl_nil, List.map_nil, List.sum_nil, Nat.add_zero, Nat.mod_eq_of_lt bounded]
  | cons cursor rest ih =>
    have here := discover_entry_usable memory cursor bounded
    have bounded' : (discoverEntry memory cursor pmm).usableFrames < 2 ^ 32 := by
      rw [here]
      exact Nat.mod_lt _ (by decide)
    rw [List.foldl_cons, ih _ bounded', here, List.map_cons, List.sum_cons, Nat.mod_add_mod,
      Nat.add_assoc]

/-- An available entry contains the last frame below 4 GiB. -/
def ReachesTop (memory : Memory) (cursor : Nat) : Prop :=
  Available memory cursor ∧ entryBase memory cursor ≤ 0xFFFFF000 ∧
    2 ^ 32 ≤ entryBase memory cursor + entryLength memory cursor

instance (memory : Memory) (cursor : Nat) : Decidable (Wrapping memory cursor) :=
  inferInstanceAs (Decidable (_ ∧ _))

instance (memory : Memory) (cursor : Nat) : Decidable (ReachesTop memory cursor) :=
  inferInstanceAs (Decidable (_ ∧ _))

/-- The end of an entry in 32 bits. -/
theorem usable_end_cases (range : entryBase memory cursor + entryLength memory cursor < 2 ^ 64) :
    let stop := entryBase memory cursor + entryLength memory cursor
    stop < 2 ^ 32 ∧ usableEnd memory cursor = stop ∨ stop = 2 ^ 32 ∧ usableEnd memory cursor = 0 ∨
      2 ^ 32 < stop ∧ usableEnd memory cursor = 0xFFFFFFFF := by
  unfold usableEnd
  generalize entryBase memory cursor + entryLength memory cursor = stop at range ⊢
  dsimp only
  split <;> omega

/-- The number of frames between the rounded ends of an entry. -/
theorem frames_between {base stop usableEnd : Nat} (narrow : base < 0x100000000)
    (isEnd : stop < 2 ^ 32 ∧ usableEnd = stop ∨ stop = 2 ^ 32 ∧ usableEnd = 0 ∨
      2 ^ 32 < stop ∧ usableEnd = 0xFFFFFFFF) (ordered : base ≤ stop)
    (notTop : base ≤ 0xFFFFF000 → stop < 2 ^ 32) :
    usableEnd / 4096 - (base + 4095) % 2 ^ 32 / 4096 =
      (min stop (2 ^ 32) / 4096 - (base + 4095) / 4096) +
        if 0xFFFFF000 < base ∧ stop ≠ 2 ^ 32 then 0xFFFFF else 0 := by
  by_cases low : base ≤ 0xFFFFF000
  · have below := notTop low
    rw [if_neg (fun high => absurd high.1 (Nat.not_lt.mpr low))]
    omega
  · by_cases top : stop = 2 ^ 32
    · rw [if_neg (fun high => high.2 top)]
      omega
    · rw [if_pos ⟨Nat.lt_of_not_le low, top⟩]
      omega

/-- The walk adds the frames of an entry, and nearly all frames if the entry wraps. -/
theorem usable_added_eq (range : entryBase memory cursor + entryLength memory cursor < 2 ^ 64)
    (notTop : ¬ ReachesTop memory cursor) :
    usableAdded memory cursor = (availableFrames memory [cursor]).card +
      if Wrapping memory cursor then 0xFFFFF else 0 := by
  by_cases available : Available memory cursor
  · rw [available_frames_entry available, Nat.card_Ico]
    by_cases narrow : entryBase memory cursor < 0x100000000
    · have below (low : entryBase memory cursor ≤ 0xFFFFF000) :
          entryBase memory cursor + entryLength memory cursor < 2 ^ 32 := by
        by_contra reaches
        exact notTop ⟨available, low, Nat.le_of_not_lt reaches⟩
      have wraps : Wrapping memory cursor ↔ 0xFFFFF000 < entryBase memory cursor ∧
          entryBase memory cursor + entryLength memory cursor ≠ 2 ^ 32 := by
        constructor
        · rintro ⟨-, high, -, notTop⟩
          exact ⟨high, notTop⟩
        · rintro ⟨high, notTop⟩
          exact ⟨available, high, narrow, notTop⟩
      rw [usableAdded, if_pos ⟨available, narrow⟩, align_up_eq,
        align_down_le _ (usable_end_lt memory cursor), frameIndexFromAddr, frameIndexFromAddr,
        pmmPageSize, Nat.mul_div_cancel _ (by decide), Nat.mul_div_cancel _ (by decide),
        frames_between narrow (usable_end_cases range) (Nat.le_add_right _ _) below]
      exact congrArg _ (if_congr wraps.symm rfl rfl)
    · have notWraps : ¬ Wrapping memory cursor := fun wraps => narrow wraps.2.2.1
      have high : 2 ^ 32 ≤ entryBase memory cursor := Nat.le_of_not_lt narrow
      have stop := Nat.min_le_right (entryBase memory cursor + entryLength memory cursor) (2 ^ 32)
      rw [usableAdded, if_neg (fun applies => narrow applies.2), if_neg notWraps]
      generalize entryBase memory cursor = base at high stop ⊢
      generalize min (base + entryLength memory cursor) (2 ^ 32) = top at stop ⊢
      omega
  · have none : availableFrames memory [cursor] = ∅ := by
      rw [Finset.eq_empty_iff_forall_notMem]
      intro frame isFrame
      obtain ⟨-, other, isOther, otherAvailable, -⟩ := mem_available_frames.mp isFrame
      obtain rfl := List.mem_singleton.mp isOther
      exact available otherAvailable
    rw [usableAdded, if_neg (fun applies => available applies.1), none, Finset.card_empty,
      if_neg (fun wraps => available wraps.1)]

/-- What the walk adds to `usable_frames` for a whole map. -/
theorem usable_added_sum (apart : entries.Pairwise (Apart memory))
    (ranges : ∀ cursor ∈ entries, entryBase memory cursor + entryLength memory cursor < 2 ^ 64)
    (notTop : ∀ cursor ∈ entries, ¬ ReachesTop memory cursor) :
    (entries.map (usableAdded memory)).sum = (availableFrames memory entries).card +
      entries.countP (fun cursor => Wrapping memory cursor) * 0xFFFFF := by
  rw [card_available_frames apart]
  clear apart
  induction entries with
  | nil => rw [List.map_nil, List.map_nil, List.sum_nil, List.countP_nil, Nat.zero_mul, Nat.add_zero]
  | cons cursor rest ih =>
    rw [List.forall_mem_cons] at ranges notTop
    rw [List.map_cons, List.sum_cons, List.map_cons, List.sum_cons, ih ranges.2 notTop.2,
      usable_added_eq ranges.1 notTop.1, List.countP_cons]
    by_cases wraps : Wrapping memory cursor
    · rw [if_pos wraps, if_pos (decide_eq_true wraps)]
      omega
    · rw [if_neg wraps, if_neg (by simp only [wraps, decide_false, Bool.false_eq_true, not_false_iff])]
      omega

/-- `usable_frames` after boot. -/
theorem initial_usable (boot : Boot) (entries : List Nat) (pmm : PmmState) :
    (initialPmm boot entries pmm).usableFrames =
      (entries.map (usableAdded boot.memory)).sum % 2 ^ 32 := by
  have booked := (reserve_boot_remarked boot
    (entries.foldl (fun pmm cursor => discoverEntry boot.memory cursor pmm)
      (clearedPmm pmm))).usableFrames
  have walked := discover_entries_usable boot.memory entries (clearedPmm pmm) (Nat.two_pow_pos 32)
  rw [initialPmm]
  dsimp only
  rw [booked, walked]
  exact congrArg (· % 2 ^ 32) (Nat.zero_add _)

/-! ## The law -/

/-- Entries start behind one another. -/
theorem EntriesFill.le {stop : Nat} (fill : EntriesFill memory stop cursor entries) :
    ∀ entry ∈ entries, cursor ≤ entry := by
  induction fill with
  | finished =>
    intro entry isEntry
    cases isEntry
  | entry size fits later ih =>
    intro entry isEntry
    cases List.mem_cons.mp isEntry with
    | inl same => exact Nat.le_of_eq same.symm
    | inr isLater =>
      have behind := ih entry isLater
      omega

theorem EntriesFill.nodup {stop : Nat} (fill : EntriesFill memory stop cursor entries) :
    entries.Nodup := by
  induction fill with
  | finished => exact List.nodup_nil
  | entry size fits later ih =>
    rw [List.nodup_cons]
    refine ⟨?_, ih⟩
    intro again
    have behind := later.le _ again
    omega

/-- All available memory below 4 GiB is usable: its frames are free unless they meet what is reserved,
they are counted, and the walk of the map visits every entry once. -/
structure AllUsable (boot : Boot) (entries : List Nat) (pmm : PmmState) : Prop where
  free : ∀ page, page % 4096 = 0 → page + 4096 ≤ 2 ^ 32 → InsideAvailable boot.memory entries page →
    Unreserved boot page → ¬ FrameUsed pmm page
  counted : pmm.usableFrames = (availableFrames boot.memory entries).card
  visited : ∀ before, discoverFromMmap boot before = .done ()
    (entries.foldl (fun pmm cursor => discoverEntry boot.memory cursor pmm) before)
  once : entries.Nodup

theorem not_in_pages {startAddr endAddr : Nat} (startBounded : startAddr < 2 ^ 32)
    (endBounded : endAddr ≤ 2 ^ 32) (aligned : page % 4096 = 0)
    (outside : page + 4096 ≤ startAddr ∨ endAddr ≤ page) :
    ¬ InPages startAddr (endAddr % 2 ^ 32) page := by
  rw [InPages, align_down_le startAddr startBounded, align_up_eq]
  omega

theorem Unreserved.not_reserved (mapped : boot.Mapped entries) (aligned : page % 4096 = 0)
    (unreserved : Unreserved boot page) : ¬ ReservedAtBoot boot page := by
  have kernelStart := mapped.kernel_start_lt
  have infoStart := mapped.info_start_lt
  have mapStart : mbiMmapAddr boot < 2 ^ 32 := Memory.read32_lt boot.memory _
  have image := not_in_pages kernelStart (Nat.le_of_lt mapped.kernelInside) aligned unreserved.kernel
  rw [Nat.mod_eq_of_lt mapped.kernelInside] at image
  have low : ¬ InPages 0 (0x100000 % 2 ^ 32) page :=
    not_in_pages (by decide) (by decide) aligned (Or.inr unreserved.lowMemory)
  rw [Nat.mod_eq_of_lt (by decide)] at low
  rintro (inLow | inImage | inInfo | inMap)
  · exact low inLow
  · exact image inImage
  · exact not_in_pages infoStart mapped.infoInside aligned unreserved.info inInfo
  · exact not_in_pages mapStart mapped.mapInside aligned unreserved.map inMap

/-- An entry that does not reach the top frees its frames. -/
theorem frees_of_inside (available : Available memory cursor)
    (range : entryBase memory cursor + entryLength memory cursor < 2 ^ 64)
    (notTop : ¬ ReachesTop memory cursor) (aligned : page % 4096 = 0) (below : page + 4096 ≤ 2 ^ 32)
    (low : entryBase memory cursor ≤ page)
    (high : page + 4096 ≤ entryBase memory cursor + entryLength memory cursor) :
    Frees memory cursor page := by
  have start := align_up_eq (entryBase memory cursor)
  have stop := align_down_le _ (usable_end_lt memory cursor)
  have notHigh : entryBase memory cursor ≤ 0xFFFFF000 := by omega
  have ends : entryBase memory cursor + entryLength memory cursor < 2 ^ 32 := by
    by_contra reaches
    exact notTop ⟨available, notHigh, Nat.le_of_not_lt reaches⟩
  have isEnd : usableEnd memory cursor = entryBase memory cursor + entryLength memory cursor := by
    obtain ⟨-, isEnd⟩ | ⟨top, -⟩ | ⟨top, -⟩ := usable_end_cases range
    · exact isEnd
    · omega
    · omega
  rw [isEnd] at stop
  have first : alignUpPage (entryBase memory cursor) ≤ page / 4096 * 4096 := by
    rw [start]
    omega
  have last : page / 4096 * 4096 < alignDownPage (usableEnd memory cursor) := by
    rw [isEnd, stop]
    omega
  exact ⟨available, by omega, first, last⟩

/-- No entry frees the last frame below 4 GiB. -/
theorem last_frame_not_freed : ¬ Frees memory cursor 0xFFFFF000 := by
  intro frees
  have last := frees.stop
  have bounded := usable_end_lt memory cursor
  rw [align_down_le _ bounded] at last
  omega

/-- No available entry contains the last frame below 4 GiB, and none that starts inside this frame ends
anywhere but at 4 GiB. -/
def ClearOfTop (memory : Memory) (entries : List Nat) : Prop :=
  ∀ cursor ∈ entries, ¬ ReachesTop memory cursor ∧ ¬ Wrapping memory cursor

theorem card_available_frames_le (memory : Memory) (entries : List Nat) :
    (availableFrames memory entries).card ≤ 0x100000 := by
  have bounded := Finset.card_filter_le (Finset.range pmmMaxFrames)
    fun frame => InsideAvailable memory entries (4096 * frame)
  rw [Finset.card_range, pmmMaxFrames] at bounded
  exact bounded

/-- On a map that is clear of the top all available memory is usable. -/
theorem ClearOfTop.all_usable (clear : ClearOfTop boot.memory entries) (mapped : boot.Mapped entries)
    (apart : entries.Pairwise (Apart boot.memory))
    (ends : mbiMmapAddr boot + mbiMmapLength boot < 2 ^ 32) (pmm : PmmState) :
    AllUsable boot entries (initialPmm boot entries pmm) := by
  constructor
  · rintro page aligned below ⟨cursor, isEntry, available, low, high⟩ unreserved
    rw [initial_free_iff mapped pmm (by omega)]
    exact ⟨unreserved.not_reserved mapped aligned, cursor, isEntry, frees_of_inside available
      (mapped.ranges cursor isEntry) (clear cursor isEntry).1 aligned below low high⟩
  · have noWraps : entries.countP (fun cursor => Wrapping boot.memory cursor) = 0 := by
      rw [List.countP_eq_zero]
      intro cursor isEntry wraps
      exact (clear cursor isEntry).2 (of_decide_eq_true wraps)
    have few := card_available_frames_le boot.memory entries
    rw [initial_usable, usable_added_sum apart mapped.ranges fun cursor isEntry =>
      (clear cursor isEntry).1, noWraps, Nat.zero_mul, Nat.add_zero]
    exact Nat.mod_eq_of_lt (Nat.lt_of_le_of_lt few (by decide))
  · exact discover_run mapped ends
  · exact mapped.fill.nodup

/-- Fewer than `2 ^ 32` additions of an odd number cancel only if there are none. -/
theorem no_additions {count wraps : Nat} (few : wraps < 2 ^ 32)
    (same : (count + wraps * 0xFFFFF) % 2 ^ 32 = count) : wraps = 0 := by
  have coprime : Nat.Coprime (2 ^ 32) 0xFFFFF := by decide
  have divides : 2 ^ 32 ∣ wraps * 0xFFFFF := by
    generalize wraps * 0xFFFFF = added at same
    apply Nat.dvd_of_mod_eq_zero
    omega
  exact Nat.eq_zero_of_dvd_of_lt (coprime.dvd_of_dvd_mul_right divides) few

/-- If all available memory is usable then the map is clear of the top.

Proof: the last frame is never freed, so no entry contains it. Every entry that wraps then adds `2 ^ 20 - 1`
to the count, which is odd, and there are fewer than `2 ^ 32` entries. -/
theorem AllUsable.clear_of_top (usable : AllUsable boot entries (initialPmm boot entries pmm))
    (mapped : boot.Mapped entries) (apart : entries.Pairwise (Apart boot.memory))
    (below : BelowLastPage boot) : ClearOfTop boot.memory entries := by
  have notTop : ∀ cursor ∈ entries, ¬ ReachesTop boot.memory cursor := by
    rintro cursor isEntry ⟨available, low, high⟩
    have unreserved : Unreserved boot 0xFFFFF000 :=
      ⟨by decide, Or.inr below.kernelBelow, Or.inr below.infoBelow, Or.inr below.mapBelow⟩
    have inside : InsideAvailable boot.memory entries 0xFFFFF000 :=
      ⟨cursor, isEntry, available, low, high⟩
    have isFree := usable.free 0xFFFFF000 (by decide) (by decide) inside unreserved
    rw [initial_free_iff mapped pmm (by decide)] at isFree
    obtain ⟨-, other, -, frees⟩ := isFree
    exact last_frame_not_freed frees
  have noWraps : entries.countP (fun cursor => Wrapping boot.memory cursor) = 0 := by
    have counted := usable.counted
    rw [initial_usable, usable_added_sum apart mapped.ranges notTop] at counted
    have short : entries.length < 2 ^ 32 := by
      have inside := mapped.fill.length_le
      have mapBelow := below.mapBelow
      omega
    exact no_additions (Nat.lt_of_le_of_lt List.countP_le_length short) counted
  intro cursor isEntry
  rw [List.countP_eq_zero] at noWraps
  exact ⟨notTop cursor isEntry, fun wraps => noWraps cursor isEntry (decide_eq_true wraps)⟩

/-- The available memory below 4 GiB becomes usable on every map that is clear of the top; and only on
these, as long as the kernel and the boot data lie below the last page. -/
theorem available_memory_usable (boot : Boot) (entries : List Nat) (mapped : boot.Mapped entries)
    (apart : entries.Pairwise (Apart boot.memory)) (pmm : PmmState) :
    let usable := ∃ start, pmmInit boot pmm = .done () start ∧ AllUsable boot entries start
    (mbiMmapAddr boot + mbiMmapLength boot < 2 ^ 32 → ClearOfTop boot.memory entries → usable) ∧
      (BelowLastPage boot → (usable ↔ ClearOfTop boot.memory entries)) := by
  intro usable
  have sufficient (ends : mbiMmapAddr boot + mbiMmapLength boot < 2 ^ 32)
      (clear : ClearOfTop boot.memory entries) : usable :=
    ⟨_, pmm_init_run mapped ends pmm, clear.all_usable mapped apart ends pmm⟩
  refine ⟨sufficient, ?_⟩
  intro below
  have ends : mbiMmapAddr boot + mbiMmapLength boot < 2 ^ 32 :=
    Nat.lt_of_le_of_lt below.mapBelow (by decide)
  constructor
  · rintro ⟨start, ran, law⟩
    obtain ⟨-, rfl⟩ := Outcome.done.inj ((pmm_init_run mapped ends pmm).symm.trans ran)
    exact law.clear_of_top mapped apart below
  · exact sufficient ends

/-- 128 KiB at 1 MiB are usable. -/
theorem one_range_usable : ∃ start,
    pmmInit (oneEntryBoot 0x100000 0x20000) ⟨⟨fun _ => 0⟩, 0, 0, 0, 0, 0⟩ = .done () start ∧
      AllUsable (oneEntryBoot 0x100000 0x20000) [0xA000] start := by
  have clear : ClearOfTop (oneEntryBoot 0x100000 0x20000).memory [0xA000] := by
    intro cursor isEntry
    obtain rfl := List.mem_singleton.mp isEntry
    decide
  exact (available_memory_usable _ _ one_range_well_formed.toMapped (List.pairwise_singleton _ _) _).1
    one_range_well_formed.mapEnds clear

/-- All memory above 3 GiB is available, and the map ends at 4 GiB. -/
theorem top_gigabyte_well_formed : (oneEntryBoot 0xC0000000 0x40000000).WellFormed [0xA000] := by
  refine ⟨⟨by decide, by decide, by decide, by decide, by decide, by decide, ?_, by decide⟩,
    ⟨by decide, by decide, by decide⟩⟩
  exact .entry (by decide) (by decide) .finished

/-- A gigabyte that ends at 4 GiB is lost: nothing of it is free or counted. -/
theorem top_gigabyte_lost : ∃ start,
    pmmInit (oneEntryBoot 0xC0000000 0x40000000) ⟨⟨fun _ => 0⟩, 0, 0, 0, 0, 0⟩ = .done () start ∧
      start.usableFrames = 0 ∧ FrameUsed start 0xC0000000 ∧
      ¬ AllUsable (oneEntryBoot 0xC0000000 0x40000000) [0xA000] start := by
  have noFrame : ¬ Frees (oneEntryBoot 0xC0000000 0x40000000).memory 0xA000 0xC0000000 := by
    intro frees
    exact absurd frees.stop (by decide)
  have formed := top_gigabyte_well_formed.toMapped
  have inUse : FrameUsed (initialPmm (oneEntryBoot 0xC0000000 0x40000000) [0xA000]
      ⟨⟨fun _ => 0⟩, 0, 0, 0, 0, 0⟩) 0xC0000000 := by
    by_contra isFree
    rw [initial_free_iff formed _ (by decide)] at isFree
    obtain ⟨-, cursor, isEntry, frees⟩ := isFree
    obtain rfl := List.mem_singleton.mp isEntry
    exact noFrame frees
  have usable : usableAdded (oneEntryBoot 0xC0000000 0x40000000).memory 0xA000 = 0 := by decide
  refine ⟨_, pmm_init_run formed top_gigabyte_well_formed.mapEnds _, ?_, inUse, ?_⟩
  · rw [initial_usable, List.map_singleton, usable]
    rfl
  · intro law
    have inside : InsideAvailable (oneEntryBoot 0xC0000000 0x40000000).memory [0xA000] 0xC0000000 := by
      decide
    have unreserved : Unreserved (oneEntryBoot 0xC0000000 0x40000000) 0xC0000000 := by
      constructor <;> decide
    exact law.free 0xC0000000 (by decide) (by decide) inside unreserved inUse

end Toyix.Pmm
