import Toyix.Paging.Bookkeeping
import Toyix.Paging.Lifecycle

/-!
# Regions of user memory

`process_map_user_region` maps the pages that meet a region, one after the other. When one is
refused, the pages before it stay mapped. The call maps the whole region or nothing if the first page
is refused, or if all pages are free and there are frames for them, for their tables and for the
heap of the kernel, which holds a node for each.

The end of a region behind the last page of the address space wraps to zero when it is rounded up,
and nothing is mapped.
-/

namespace Toyix.Paging

open Library Pmm

variable {image : Image} {spaces : Nat → Option AddressSpace} {held : Set Nat}
  {system next : MemorySystem} {object : Nat} {record : AddressSpace} {directory : Nat}
  {virtualAddr sizeBytes : Nat} {machine : Machine}

/-! ## The law -/

/-- A page has an address in the region. -/
def Meets (page virtualAddr sizeBytes : Nat) : Prop :=
  ∃ address, page ≤ address ∧ address < page + 4096 ∧
    virtualAddr ≤ address ∧ address < virtualAddr + sizeBytes

/-- The entry of a writable page of a process. -/
structure WritableUserEntry (entry : Nat) : Prop where
  present : isPresent entry = true
  writable : entry &&& x86PageWritable ≠ 0
  user : isUser entry = true

/-- A call that maps the whole region, or nothing. Frames that are tables of the process may be kept. -/
structure RegionLaw (object : Nat) (record : AddressSpace) (virtualAddr sizeBytes : Nat)
    (system : MemorySystem) : Prop where
  mapped : ∀ next, processMapUserRegion (some object) virtualAddr sizeBytes system = .done 0 next →
    (∀ page, page % 4096 = 0 → Meets page virtualAddr sizeBytes →
      isPresent (pageEntry system.machine.memory record.pageDirectory page) = false ∧
        WritableUserEntry (pageEntry next.machine.memory record.pageDirectory page)) ∧
    (∀ page, PageRange (some object) page → ¬ Meets page virtualAddr sizeBytes →
      pageEntry next.machine.memory record.pageDirectory page =
        pageEntry system.machine.memory record.pageDirectory page)
  refused : ∀ result next,
    processMapUserRegion (some object) virtualAddr sizeBytes system = .done result next →
    result ≠ 0 →
    (∀ page, PageRange (some object) page → pageEntry next.machine.memory record.pageDirectory page =
      pageEntry system.machine.memory record.pageDirectory page) ∧
    next.spaces object = system.spaces object ∧
    ∀ frame, FrameUsed next.machine.pmm frame ↔ FrameUsed system.machine.pmm frame ∨
      ∃ index, ownersOf next.spaces next.machine (.table (some object) index) = some frame

/-- A page in the user range that is not mapped. -/
def PageFree (object directory : Nat) (machine : Machine) (page : Nat) : Prop :=
  PageRange (some object) page ∧ isPresent (pageEntry machine.memory directory page) = false

/-- The region is empty, or it is refused at once because its end wraps. Or its end can be rounded up,
and its first page is refused, or its pages are free and so is a number of frames below 16 MiB. -/
def RegionReady (object : Nat) (record : AddressSpace) (virtualAddr sizeBytes frames : Nat)
    (system : MemorySystem) : Prop :=
  sizeBytes = 0 ∨ 2 ^ 32 ≤ virtualAddr + sizeBytes ∨ virtualAddr + sizeBytes ≤ 0xFFFFF000 ∧
    (MapRefused object record.pageDirectory (pageAlignDown virtualAddr) 1 system.machine ∨
      frames ≤ freeBelow 4096 system.machine.pmm ∧ ∀ page, page % 4096 = 0 →
        Meets page virtualAddr sizeBytes → PageFree object record.pageDirectory system.machine page)

/-! ## Entries of a process -/

/-- The tables of a process in the user range are different pages. -/
theorem Owned.process_tables_apart (owned : Owned image spaces held machine)
    (isDirectory : directoryOf spaces machine.kernelDirectory (some object) = some directory) :
    TablesApart machine.memory directory (TableRange (some object)) := by
  have owns : ∀ index table, TableRange (some object) index →
      tableOf machine.memory directory index = some table →
      ownersOf spaces machine (.table (some object) index) = some table :=
    fun index table inRange entered => (table_owner isDirectory inRange).trans entered
  refine ⟨owned.directory_aligned isDirectory, fun _ inRange => inRange.lt, ?_, ?_⟩
  · rintro index table inRange entered rfl
    exact Owner.noConfusion (owned.sound.single (owns index table inRange entered)
      (owned.directory_owner isDirectory))
  · intro index other table inRange otherRange entered entered'
    exact (Owner.table.inj (owned.sound.single (owns index table inRange entered)
      (owns other table otherRange entered'))).2

/-- Obtaining a table changes no entry of the user range. -/
theorem TableReady.entries {base : Machine} {index flags table : Nat}
    (ready : TableReady machine directory index flags table base)
    (owned : Owned image spaces held machine) (inRange : TableRange (some object) index)
    (isDirectory : directoryOf spaces machine.kernelDirectory (some object) = some directory)
    (flagsOdd : flags < 4096 ∧ flags % 2 = 1) (notNull : table ≠ 0) :
    TablesApart base.memory directory (TableRange (some object)) ∧
      tableOf base.memory directory index = some table ∧
      ∀ address, TableRange (some object) (directoryIndex address) →
        pageEntry base.memory directory address = pageEntry machine.memory directory address := by
  have apart := owned.process_tables_apart isDirectory
  cases ready with
  | found entered => exact ⟨apart, entered, fun _ _ => rfl⟩
  | missing absent => exact absurd rfl notNull
  | opened absent taken below =>
    obtain ⟨present, frame, bounded⟩ := entry_page_made taken.allocatable.1 taken.allocatable.2.2
      flagsOdd.1 flagsOdd.2
    have fresh : ∀ owner, ownersOf spaces machine owner ≠ some table :=
      owned.fresh_unowned taken
    apply apart.entry_opened (table_of_eq_none.mpr absent) inRange taken.allocatable.1
    · rintro rfl
      exact fresh _ (owned.directory_owner isDirectory)
    · intro other otherRange entered
      exact fresh (.table (some object) other) ((table_owner isDirectory otherRange).trans entered)
    · exact present
    · exact frame
    · exact bounded

/-- What happens on the kernel's side changes no entry of a process. -/
theorem KernelSide.user_entry {start : Machine} {kept : Set Nat}
    (side : KernelSide spaces kept start machine) (owned : Owned image spaces held start)
    (isDirectory : directoryOf spaces start.kernelDirectory (some object) = some directory)
    {address : Nat} (inRange : PageRange (some object) address) :
    pageEntry machine.memory directory address = pageEntry start.memory directory address := by
  apply page_entry_congr
  · refine (side.bytes directory ?_).word inRange.table_range.lt
    exact Or.inr ⟨.directory object, trivial, owned.directory_owner isDirectory⟩
  · intro table entered
    refine (side.bytes table ?_).word (table_index_lt address)
    exact Or.inr ⟨.table (some object) (directoryIndex address), Option.some_ne_none object,
      table_of_page inRange isDirectory entered⟩

/-- A mapping makes one entry. -/
theorem MapEffect.entries {physicalAddr flags table node : Nat} {base : Machine}
    (effect : MapEffect image held object virtualAddr physicalAddr flags system next record table node
      base) (inv : Accounted image held system) (isHeld : physicalAddr ∈ held) :
    pageEntry system.machine.memory record.pageDirectory virtualAddr = 0 ∧
      ∀ page, PageRange (some object) page →
        pageEntry next.machine.memory record.pageDirectory page =
          if page = virtualAddr then userEntry physicalAddr flags
          else pageEntry system.machine.memory record.pageDirectory page := by
  have permitted := (inv.owned.sound.loose isHeld).2
  obtain ⟨refers, bounded⟩ := user_entry_made flags permitted.aligned permitted.bounded
  have present := (entry_page_eq_some.mp refers).1
  have isDirectory := directory_of_space system.machine.kernelDirectory effect.isSpace
  obtain ⟨baseOwned, tableOwned, -, storedOwned, -⟩ := effect.stages inv isHeld
  obtain ⟨apart, entered, same⟩ := effect.ready.entries inv.owned effect.inRange.table_range
    isDirectory (space_table_flags_odd flags) effect.notNull
  have sameKernel : base.kernelDirectory = system.machine.kernelDirectory :=
    baseOwned.kernelDirectory.trans inv.owned.kernelDirectory.symm
  constructor
  · rw [← same virtualAddr effect.inRange.table_range, page_entry_of_table entered, effect.absent]
    rfl
  · intro page inRange
    have grown := effect.beneath.side.user_entry storedOwned
      (show directoryOf system.spaces base.kernelDirectory (some object) = some record.pageDirectory by
        rw [sameKernel]; exact isDirectory) inRange
    rw [grown]
    simp only [Machine.stored]
    rw [apart.entry_stored effect.inRange.table_range entered (table_index_lt virtualAddr) bounded
      inRange.table_range, present, same page inRange.table_range]
    by_cases isPage : page = virtualAddr
    · rw [if_pos isPage, if_pos (by rw [isPage]; exact ⟨rfl, rfl⟩)]
      rfl
    · rw [if_neg isPage, if_neg]
      rintro ⟨sameIndex, sameTab⟩
      exact isPage (page_address_unique inRange.aligned effect.inRange.aligned sameIndex sameTab)

/-! ## The loop -/

/-- Some pages from an address on are new user pages; the other user pages are as before. -/
structure PagesMapped (object directory addr count : Nat) (system next : MemorySystem) : Prop where
  fresh : ∀ page, addr ≤ page → page < addr + 4096 * count → page % 4096 = 0 →
    PageRange (some object) page ∧ pageEntry system.machine.memory directory page = 0 ∧
      WritableUserEntry (pageEntry next.machine.memory directory page)
  others : ∀ page, PageRange (some object) page → ¬ (addr ≤ page ∧ page < addr + 4096 * count) →
    pageEntry next.machine.memory directory page = pageEntry system.machine.memory directory page

/-- The pages are also in the list of the space. If there are none, the space is the same, and so are
the frames in use, apart from tables. -/
structure PagesListed (object : Nat) (record : AddressSpace) (addr count : Nat)
    (system next : MemorySystem) : Prop
    extends PagesMapped object record.pageDirectory addr count system next where
  listed : (next.spaces object).map (fun record => record.userMappings.length) =
    some (record.userMappings.length + count)
  untouched : count = 0 → next.spaces object = system.spaces object ∧
    ∀ frame, FrameUsed next.machine.pmm frame ↔ FrameUsed system.machine.pmm frame ∨
      ∃ index, ownersOf next.spaces next.machine (.table (some object) index) = some frame

/-- The entry of a page that `map_user_page` makes. -/
theorem user_page_entry {frame : Nat} (aligned : frame % 4096 = 0) (bounded : frame < 2 ^ 32) :
    WritableUserEntry (userEntry frame userPageFlags) := by
  have flags : x86PagePresent ||| toArchFlags userPageFlags = 7 := by decide
  have entry : userEntry frame userPageFlags = frame + 7 := by
    rw [userEntry, Nat.or_assoc, flags]
    exact entry_eq_add aligned bounded (by decide)
  rw [entry]
  constructor
  · rw [is_present_iff]
    omega
  · have masked : (frame + 7) &&& x86PageWritable = ((frame + 7).testBit 1).toNat * 2 ^ 1 :=
      Nat.and_two_pow (frame + 7) 1
    have isBit : (frame + 7).testBit 1 = true := by
      rw [Nat.testBit_eq_decide_div_mod_eq]
      exact decide_eq_true (by omega)
    rw [masked, isBit]
    decide
  · rw [is_user_iff]
    omega

/-- One page, then the rest. -/
theorem PagesMapped.cons {addr count frame : Nat} {middle : MemorySystem}
    (aligned : addr % 4096 = 0) (inRange : PageRange (some object) addr)
    (absent : pageEntry system.machine.memory directory addr = 0)
    (first : ∀ page, PageRange (some object) page →
      pageEntry middle.machine.memory directory page =
        if page = addr then userEntry frame userPageFlags
        else pageEntry system.machine.memory directory page) (frameAligned : frame % 4096 = 0)
    (frameBounded : frame < 2 ^ 32)
    (rest : PagesMapped object directory (addr + 4096) count middle next) :
    PagesMapped object directory addr (count + 1) system next := by
  constructor
  · intro page low high pageAligned
    by_cases isFirst : page = addr
    · subst isFirst
      refine ⟨inRange, absent, ?_⟩
      rw [rest.others page inRange (by omega), first page inRange, if_pos rfl]
      exact user_page_entry frameAligned frameBounded
    · obtain ⟨pageRange, before, after⟩ := rest.fresh page (by omega) (by omega) pageAligned
      rw [first page pageRange, if_neg isFirst] at before
      exact ⟨pageRange, before, after⟩
  · intro page pageRange outside
    have pageAligned := pageRange.aligned
    rw [rest.others page pageRange (by omega), first page pageRange, if_neg]
    rintro rfl
    omega

/-- A page that was mapped was not refused. -/
theorem MapEffect.not_refused {addr page table node : Nat} {pmm : PmmState} {base : Machine}
    (effect : MapEffect image (insert page held) object addr page userPageFlags
      (system.withMachine { system.machine with pmm := pmm }) next record table node base)
    (taken : Takes system.machine.pmm pmm page)
    (absent : pageEntry system.machine.memory record.pageDirectory addr = 0) :
    ¬ MapRefused object record.pageDirectory addr 1 system.machine := by
  intro refused
  cases refused with
  | range outside => exact outside effect.inRange
  | mapped present =>
    rw [absent] at present
    cases present
  | frame exhausted =>
    exact taken.available taken.allocatable.2.2 (Nat.lt_one_iff.mp exhausted)
  | table noTable exhausted =>
    cases effect.ready with
    | found entered =>
      rw [with_machine_machine, table_of_eq_none.mpr noTable] at entered
      cases entered
    | missing => exact effect.notNull rfl
    | opened _ opened below =>
      have free := opened.available (show table < 4096 * 4096 by omega)
      rw [with_machine_machine, taken.free_below] at free
      omega

/-- A free page is refused only when there are no frames. -/
theorem MapRefused.exhausted {page : Nat} (refused : MapRefused object directory page 1 machine)
    (free : PageFree object directory machine page) : freeBelow 4096 machine.pmm ≤ 1 := by
  cases refused with
  | range outside => exact absurd free.1 outside
  | mapped present =>
    rw [free.2] at present
    cases present
  | frame exhausted => exact Nat.le_trans (free_below_mono (by decide) machine.pmm) exhausted.le
  | table _ exhausted => exact exhausted

/-- No page was mapped. -/
theorem PagesListed.nothing (inv : Accounted image held system)
    (isSpace : system.spaces object = some record) (addr : Nat) {pmm : PmmState}
    (same : ∀ frame, FrameUsed pmm frame ↔ FrameUsed system.machine.pmm frame) :
    PagesListed object record addr 0 system (system.withMachine { system.machine with pmm := pmm }) := by
  refine ⟨⟨?_, fun _ _ _ => rfl⟩, congrArg _ isSpace, fun _ => ⟨rfl, fun frame => ?_⟩⟩
  · intro page low high
    omega
  · refine (same frame).trans (or_iff_left_of_imp ?_).symm
    rintro ⟨index, owns⟩
    exact (inv.owned.sound.owned owns).1

/-- The loop over the pages of a region: all pages are mapped, or one is refused after `count`
others, which stay in the list. A free page is not refused while there are four frames for each: for
the page, its table, and a page and a table for the node. No more are taken.

Proof: by induction on the number of pages left. -/
theorem map_user_pages_listed (remaining addr : Nat)
    (aligned : addr % 4096 = 0) (inv : Accounted image held system)
    (isSpace : system.spaces object = some record) :
    (mapUserPagesFrom (some object) remaining addr system).Sat fun result next =>
      ∃ count, (result = 0 ∧ count = remaining ∨ result = -1 ∧ count < remaining) ∧
        PagesListed object record addr count system next ∧
        (0 < remaining →
          (count = 0 ↔ MapRefused object record.pageDirectory addr 1 system.machine)) ∧
        (4 * remaining ≤ freeBelow 4096 system.machine.pmm →
          (∀ i < remaining, PageFree object record.pageDirectory system.machine (addr + 4096 * i)) →
          count = remaining ∧ freeBelow 4096 system.machine.pmm ≤
            freeBelow 4096 next.machine.pmm + 4 * remaining) := by
  induction remaining generalizing system addr record with
  | zero =>
    exact ⟨0, Or.inl ⟨rfl, rfl⟩, .nothing inv isSpace addr fun _ => Iff.rfl,
      fun none => absurd none (Nat.lt_irrefl 0), fun _ _ => ⟨rfl, Nat.le_add_right _ _⟩⟩
  | succ remaining ih =>
    unfold mapUserPagesFrom
    refine (map_user_page_sat inv isSpace addr).andThen ?_
    rintro result middle
      (⟨rfl, refused, -, pmm, rfl, back⟩ | ⟨rfl, page, pmm, table, node, base, taken, effect⟩)
    · rw [ite_run, if_pos (by decide)]
      refine ⟨0, Or.inr ⟨rfl, Nat.succ_pos remaining⟩, .nothing inv isSpace addr back.used,
        fun _ => iff_of_true rfl refused, fun enough free => ?_⟩
      have exhausted := refused.exhausted (free 0 (Nat.succ_pos remaining))
      omega
    · rw [ite_run, if_neg (not_not_intro rfl)]
      have heldInv := inv.take taken
      have isHeld : page ∈ insert page held := Set.mem_insert page held
      have entered := effect.accounted heldInv isHeld
      rw [Set.insert_sdiff_self_of_notMem (inv.owned.fresh_unheld taken)] at entered
      obtain ⟨absent, first⟩ := effect.entries heldInv isHeld
      have isSpace' : middle.spaces object = some { record with
          userMappings := ⟨node, addr, page⟩ :: record.userMappings
          userPageCount := (record.userPageCount + 1) % 2 ^ 32 } := by
        rw [effect.spaces, Function.update_self]
      have step : pmmPageSize = 4096 := rfl
      refine (ih (addr + pmmPageSize) (by omega) entered isSpace').mono ?_
      rintro result next ⟨count, ended, rest, -, whole⟩
      refine ⟨count + 1, by omega, ⟨?_, ?_, fun none => by omega⟩, fun _ => ?_, fun enough free => ?_⟩
      · exact PagesMapped.cons aligned effect.inRange absent first taken.allocatable.1
          taken.allocatable.2.2 rest.toPagesMapped
      · rw [rest.listed, List.length_cons, Nat.add_right_comm, Nat.add_assoc]
      · exact iff_of_false (Nat.succ_ne_zero count) (effect.not_refused taken absent)
      · have one := taken.free_below 4096
        have two : freeBelow 4096 pmm ≤ freeBelow 4096 base.pmm + 1 := effect.ready.draws 4096
        have four := effect.draws 4096
        have others (i : Nat) (inside : i < remaining) : PageFree object record.pageDirectory
            middle.machine (addr + pmmPageSize + 4096 * i) := by
          have following : addr + pmmPageSize + 4096 * i = addr + 4096 * (i + 1) := by omega
          obtain ⟨inRange, unmapped⟩ := free (i + 1) (by omega)
          rw [following]
          refine ⟨inRange, ?_⟩
          rw [first _ inRange, if_neg (by omega)]
          exact unmapped
        obtain ⟨all, spent⟩ := whole (by omega) others
        exact ⟨congrArg (· + 1) all, by omega⟩

/-! ## The region -/

theorem page_align_down_eq {value : Nat} (bounded : value < 2 ^ 32) :
    pageAlignDown value = value / 4096 * 4096 :=
  land_high_mask value 12 bounded (by decide)

theorem page_align_up_eq {value : Nat} (bounded : value ≤ 0xFFFFF000) :
    pageAlignUp value = (value + 4095) / 4096 * 4096 := by
  have small : (value + (pmmPageSize - 1)) % 2 ^ 32 = value + 4095 := by
    simp only [pmmPageSize]
    omega
  rw [pageAlignUp, small]
  exact land_high_mask (value + 4095) 12 (by omega) (by decide)

/-- The pages of the loop are those that meet the region. -/
theorem meets_iff {page : Nat} (aligned : page % 4096 = 0) (positive : sizeBytes ≠ 0)
    (bounded : virtualAddr + sizeBytes ≤ 0xFFFFF000) :
    Meets page virtualAddr sizeBytes ↔ pageAlignDown virtualAddr ≤ page ∧
      page < pageAlignDown virtualAddr + 4096 *
        ((pageAlignUp (virtualAddr + sizeBytes) - pageAlignDown virtualAddr) / pmmPageSize) := by
  rw [page_align_down_eq (by omega), page_align_up_eq bounded]
  simp only [pmmPageSize]
  constructor
  · rintro ⟨address, low, high, inLow, inHigh⟩
    omega
  · intro both
    refine ⟨max page virtualAddr, ?_, ?_, ?_, ?_⟩ <;> omega

/-- A region that does not wrap is mapped by the loop. -/
theorem region_run (positive : sizeBytes ≠ 0) (bounded : virtualAddr + sizeBytes < 2 ^ 32)
    (space : SpaceRef) (system : MemorySystem) :
    processMapUserRegion space virtualAddr sizeBytes system =
      mapUserPagesFrom space
        ((pageAlignUp (virtualAddr + sizeBytes) - pageAlignDown virtualAddr) / pmmPageSize)
        (pageAlignDown virtualAddr) system := by
  have endRaw : (virtualAddr + sizeBytes) % 2 ^ 32 = virtualAddr + sizeBytes :=
    Nat.mod_eq_of_lt bounded
  have noWrap : ¬ virtualAddr + sizeBytes < virtualAddr := by omega
  simp only [processMapUserRegion, positive, ↓reduceIte, endRaw, noWrap]

/-- A call that maps the pages that meet the region, or no page. -/
theorem RegionLaw.of_pages (addr : Nat)
    (ends : (processMapUserRegion (some object) virtualAddr sizeBytes system).Sat fun result next =>
      ∃ count, PagesListed object record addr count system next ∧
        (result = 0 ∧ (∀ page, page % 4096 = 0 → (Meets page virtualAddr sizeBytes ↔
            addr ≤ page ∧ page < addr + 4096 * count)) ∨ result = -1 ∧ count = 0)) :
    RegionLaw object record virtualAddr sizeBytes system := by
  constructor
  · intro next done
    obtain ⟨count, pages, ⟨-, met⟩ | ⟨wrong, -⟩⟩ := ends.of_done done
    · constructor
      · intro page aligned meets
        obtain ⟨low, high⟩ := (met page aligned).mp meets
        obtain ⟨-, before, after⟩ := pages.fresh page low high aligned
        rw [before]
        exact ⟨rfl, after⟩
      · intro page inRange outside
        rw [met page inRange.aligned] at outside
        exact pages.others page inRange outside
    · cases wrong
  · intro result next done failed
    obtain ⟨count, pages, ⟨wrong, -⟩ | ⟨-, rfl⟩⟩ := ends.of_done done
    · exact absurd wrong failed
    · exact ⟨fun page inRange => pages.others page inRange (by omega), pages.untouched rfl⟩

/-- What a call answers, and the pages in the list of the space afterwards. -/
def regionAnswer (object virtualAddr sizeBytes : Nat) (system : MemorySystem) :
    Option (Int × Option (List Nat)) :=
  match processMapUserRegion (some object) virtualAddr sizeBytes system with
  | .done result next => some (result, (next.spaces object).map fun record =>
      record.userMappings.map fun mapping => mapping.virtualAddr)
  | _ => none

theorem region_answer_done {result : Int} {pages : Option (List Nat)}
    (answer : regionAnswer object virtualAddr sizeBytes system = some (result, pages)) :
    ∃ next, processMapUserRegion (some object) virtualAddr sizeBytes system = .done result next ∧
      (next.spaces object).map (fun record => record.userMappings.map Mapping.virtualAddr) = pages := by
  unfold regionAnswer at answer
  split at answer
  · rename_i value next done
    obtain ⟨rfl, isPages⟩ := Prod.mk.inj (Option.some.inj answer)
    exact ⟨next, done, isPages⟩
  · cases answer

end Toyix.Paging
