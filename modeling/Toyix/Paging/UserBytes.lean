import Toyix.Library.Views
import Toyix.Paging.Guards
import Toyix.Paging.Lifecycle
import Toyix.Paging.Regions

/-!
# The user memory of processes

What processes can reach is a view of memory for each of them. Mapping pages extends the view of
one process and changes no byte of any; loading another directory changes no view; and storing
while the directory of a process is loaded is a store to its view.

A page that a process gains was free before, and nothing clears it: `WritesOnly` says which addresses
were stored to, and that all others show what their frames held before.
-/

namespace Toyix.Paging

open Library Pmm

variable {image : Image} {held : Set Nat} {system next : MemorySystem} {object : Nat}
  {record : AddressSpace} {x count : Nat} {virtualAddr physicalAddr table node : Nat}
  {base : Machine}

/-- A byte depends on the place of its page and on the contents of the frame. -/
theorem user_byte_congr {other : Nat}
    (samePage : userPages next other (x / 4096 * 4096) = userPages system other (x / 4096 * 4096))
    (sameBytes : ∀ frame, userPages system other (x / 4096 * 4096) = some frame →
      system.machine.memory.SamePage next.machine.memory frame) :
    userByte next other x = userByte system other x := by
  rw [userByte, userByte, samePage]
  cases owns : userPages system other (x / 4096 * 4096) with
  | none => rfl
  | some frame =>
    have small := Nat.mod_lt x (show 0 < 4096 by decide)
    rw [Option.map_some, Option.map_some,
      sameBytes frame owns (frame + x % 4096) (by omega) (by omega)]

theorem user_byte_is_some (system : MemorySystem) (object x : Nat) :
    (userByte system object x).isSome = (userPages system object (x / 4096 * 4096)).isSome := by
  rw [userByte, Option.isSome_map]

/-- What the processor reads in user mode, with the directory of a process loaded. -/
def userRead (system : MemorySystem) (object x : Nat) : Option UInt8 :=
  (directoryOf system.spaces system.machine.kernelDirectory (some object)).bind fun directory =>
    if UserMapped system.machine.memory directory x then
      some (system.machine.memory.byte
        ((pageEntry system.machine.memory directory x &&& x86PageFrameMask) + x % 4096))
    else none

/-- What can be read in user mode belongs to the process. -/
theorem Guarded.user_read_shown (guarded : Guarded image held system) {byte : UInt8}
    (bounded : x < 2 ^ 32) (reads : userRead system object x = some byte) :
    userByte system object x = some byte := by
  obtain ⟨directory, isDirectory, reads⟩ := Option.bind_eq_some_iff.mp reads
  split at reads
  · rename_i mapped
    have sameDirectory : directoryIndex x = directoryIndex (x / 4096 * 4096) := by
      rw [directory_index_eq, directory_index_eq]
      omega
    have sameTable : tableIndex x = tableIndex (x / 4096 * 4096) := by
      rw [table_index_eq, table_index_eq]
      omega
    have pageMapped : UserMapped system.machine.memory directory (x / 4096 * 4096) := by
      obtain ⟨table, tableUser, page, pageUser⟩ := mapped
      rw [sameDirectory] at table tableUser
      rw [sameDirectory, sameTable] at page pageUser
      exact ⟨table, tableUser, page, pageUser⟩
    obtain ⟨other, isOther, -, owns⟩ :=
      guarded.user_mapped_owned isDirectory (by omega) (Nat.mul_mod_left _ _) pageMapped
    obtain rfl : object = other := Option.some.inj isOther
    rw [userByte, userPages, owns, ← page_entry_page, Option.map_some]
    exact reads
  · cases reads

/-! ## Writes -/

/-- All pages of the process are open to user mode. -/
def OpenPages (object : Nat) (system : MemorySystem) : Prop :=
  ∀ directory, (system.spaces object).map AddressSpace.pageDirectory = some directory →
    ∀ page, PageRange (some object) page →
      isPresent (pageEntry system.machine.memory directory page) = true →
      isUser (pageEntry system.machine.memory directory page) = true

/-- Where all pages are open, user mode reads what belongs to the process. -/
theorem Guarded.user_read_open (guarded : Guarded image held system)
    (opened : OpenPages object system) (bounded : x < 2 ^ 32) :
    userRead system object x = userByte system object x := by
  cases shown : userByte system object x with
  | none =>
    rw [Option.eq_none_iff_forall_ne_some]
    intro byte reads
    exact Option.some_ne_none byte ((guarded.user_read_shown bounded reads).symm.trans shown)
  | some byte =>
    obtain ⟨frame, owns, isByte⟩ := Option.map_eq_some_iff.mp shown
    have inRange := owned_page_range owns
    simp only [userPages, ownersOf, ownedFrame, inRange, ↓reduceIte] at owns
    obtain ⟨directory, isDirectory, mapped⟩ := Option.bind_eq_some_iff.mp owns
    rw [← page_entry_of_page, ← page_entry_page] at mapped
    obtain ⟨present, isFrame⟩ := entry_page_eq_some.mp mapped
    have isUserPage := opened directory isDirectory _ inRange
    rw [← page_entry_page] at isUserPage
    have inTables : TableRange (some object) (directoryIndex x) := by
      have sameIndex : directoryIndex x = directoryIndex (x / 4096 * 4096) := by
        rw [directory_index_eq, directory_index_eq]
        omega
      rw [sameIndex]
      exact inRange.table_range
    have user : UserMapped system.machine.memory directory x := by
      cases entered : tableOf system.machine.memory directory (directoryIndex x) with
      | none =>
        rw [page_entry_of_no_table entered] at present
        cases present
      | some table =>
        obtain ⟨tablePresent, isTable⟩ := table_of_eq_some.mp entered
        have entry := page_entry_of_table entered
        cases pagePresent : isPresent (system.machine.memory.word table (tableIndex x)) with
        | false =>
          rw [pagePresent, if_pos rfl] at entry
          rw [entry] at present
          cases present
        | true =>
          rw [pagePresent, if_neg (by decide)] at entry
          have pageUser := isUserPage present
          rw [entry] at pageUser
          subst isTable
          exact ⟨tablePresent, guarded.userTables object directory isDirectory _ inTables tablePresent,
            pagePresent, pageUser⟩
    rw [userRead, isDirectory, Option.bind_some, if_pos user, isFrame, isByte]

/-- Free frames kept their contents, the process kept its pages and gained free frames, and only the
addresses in `written` were stored to. -/
structure WritesOnly (object : Nat) (written : Nat → Prop) (system next : MemorySystem) : Prop where
  aligned : ∀ page frame, userPages next object page = some frame → frame % 4096 = 0
  free : ∀ page, page % 4096 = 0 → ¬ FrameUsed next.machine.pmm page →
    ¬ FrameUsed system.machine.pmm page ∧ system.machine.memory.SamePage next.machine.memory page
  pages : ∀ page frame, userPages next object page = some frame →
    userPages system object page = some frame ∨ ¬ FrameUsed system.machine.pmm frame
  bytes : ∀ x frame, userPages next object (x / 4096 * 4096) = some frame → ¬ written x →
    next.machine.memory.byte (frame + x % 4096) = system.machine.memory.byte (frame + x % 4096)
  opens : OpenPages object system → OpenPages object next

theorem WritesOnly.refl (inv : Accounted image held system) (object : Nat) (written : Nat → Prop) :
    WritesOnly object written system system := by
  refine ⟨?_, ?_, fun _ _ owns => Or.inl owns, fun _ _ _ _ => rfl, id⟩
  · intro page frame owns
    exact (inv.owned.permitted owns).aligned
  · intro page _ unused
    exact ⟨unused, Memory.SamePage.refl _ _⟩

theorem WritesOnly.weaken {written written' : Nat → Prop} (writes : WritesOnly object written system next)
    (wider : ∀ x, written x → written' x) : WritesOnly object written' system next := by
  refine ⟨writes.aligned, writes.free, writes.pages, ?_, writes.opens⟩
  intro x frame owns unwritten
  exact writes.bytes x frame owns fun isWritten => unwritten (wider x isWritten)

/-- Writes compose.

Proof: a page that is gained in the second part was free in between, so its contents are those of
the start. -/
theorem WritesOnly.trans {written : Nat → Prop} {middle : MemorySystem}
    (first : WritesOnly object written system middle) (second : WritesOnly object written middle next) :
    WritesOnly object written system next := by
  refine ⟨second.aligned, ?_, ?_, ?_, fun opened => second.opens (first.opens opened)⟩
  · intro page aligned unused
    obtain ⟨unusedBefore, same⟩ := second.free page aligned unused
    obtain ⟨unusedStart, sameStart⟩ := first.free page aligned unusedBefore
    exact ⟨unusedStart, sameStart.trans same⟩
  · intro page frame owns
    rcases second.pages page frame owns with before | unused
    · exact first.pages page frame before
    · exact Or.inr (first.free frame (second.aligned page frame owns) unused).1
  · intro x frame owns unwritten
    have small := Nat.mod_lt x (show 0 < 4096 by decide)
    rw [second.bytes x frame owns unwritten]
    rcases second.pages _ frame owns with before | unused
    · exact first.bytes x frame before unwritten
    · exact (first.free frame (second.aligned _ frame owns) unused).2 _ (by omega) (by omega)

/-! ## Mapping -/

/-- A mapping changes directories and tables only.

Proof: it may open a table, it stores the entry, and what the heap does afterwards reaches the kernel
directory and the kernel's tables. -/
theorem MapEffect.quiet {flags page : Nat}
    (effect : MapEffect image held object virtualAddr physicalAddr flags system next record table node
      base) (inv : Accounted image held system) (isHeld : physicalAddr ∈ held)
    (aligned : page % 4096 = 0) (notKernel : page ≠ next.machine.kernelDirectory)
    (notDirectory : ownersOf next.spaces next.machine (.directory object) ≠ some page)
    (notTable : ∀ space index, ownersOf next.spaces next.machine (.table space index) ≠ some page) :
    system.machine.memory.SamePage next.machine.memory page := by
  obtain ⟨baseOwned, tableOwned, others, storedOwned, owners⟩ := effect.stages inv isHeld
  have isDirectory := directory_of_space system.machine.kernelDirectory effect.isSpace
  have sameOwners := effect.change_record.2
  have ofTable : (Owner.table (some object) (directoryIndex virtualAddr)).OfProcess :=
    Option.some_ne_none object
  have pageNotDirectory : page ≠ record.pageDirectory := by
    rintro rfl
    refine notDirectory ?_
    rw [sameOwners, effect.beneath.side.owners storedOwned (show (Owner.directory object).OfProcess from
      trivial), owners, Function.update_of_ne Owner.noConfusion, others _ Owner.noConfusion]
    exact inv.owned.directory_owner isDirectory
  have pageNotTable : page ≠ table := by
    rintro rfl
    refine notTable (some object) (directoryIndex virtualAddr) ?_
    rw [sameOwners, effect.beneath.side.owners storedOwned ofTable, owners,
      Function.update_of_ne Owner.noConfusion]
    exact tableOwned
  have opened := effect.ready.same_page inv.owned effect.inRange.table_range isDirectory aligned
    pageNotDirectory fun _ => pageNotTable
  have entered : base.memory.SamePage
      (base.stored table (tableIndex virtualAddr) (userEntry physicalAddr flags)).memory page :=
    Memory.samePage_setWord _ aligned (baseOwned.permitted tableOwned).aligned (table_index_lt _)
      pageNotTable
  have supplied := effect.supplied inv isHeld
  refine (opened.trans entered).trans (supplied.quiet page aligned notKernel ?_)
  intro index owns
  refine notTable none index ?_
  rw [sameOwners]
  exact owns

/-- A mapping keeps the bytes of all frames that are pages of processes afterwards. -/
theorem MapEffect.same_page {flags : Nat}
    (effect : MapEffect image held object virtualAddr physicalAddr flags system next record table node
      base) (inv : Accounted image held system) (isHeld : physicalAddr ∈ held)
    {other otherAddr frame : Nat} (owns : userPages next other otherAddr = some frame) :
    system.machine.memory.SamePage next.machine.memory frame := by
  have owned := effect.change_record.1
  refine effect.quiet inv isHeld (owned.permitted owns).aligned ?_ ?_ ?_
  · rintro rfl
    exact owned.kernel_unowned _ owns
  · intro ownsDirectory
    exact Owner.noConfusion (owned.sound.single owns ownsDirectory)
  · intro space index ownsTable
    exact Owner.noConfusion (owned.sound.single owns ownsTable)

/-- A mapping of a fresh page stores nothing to the process. -/
theorem MapEffect.writes_only {pmm : PmmState}
    (effect : MapEffect image (insert physicalAddr held) object virtualAddr physicalAddr userPageFlags
      (system.withMachine { system.machine with pmm := pmm }) next record table node base)
    (inv : Accounted image held system) (taken : Takes system.machine.pmm pmm physicalAddr) :
    WritesOnly object (fun _ => False) system next := by
  have heldInv := inv.take taken
  have isHeld : physicalAddr ∈ insert physicalAddr held := Set.mem_insert _ _
  have owned := effect.change_record.1
  have pages := effect.pages heldInv isHeld
  constructor
  · intro page frame owns
    exact (owned.permitted owns).aligned
  · intro page aligned unused
    have unowned : ∀ owner, ownersOf next.spaces next.machine owner ≠ some page :=
      fun owner owns => unused (owned.sound.owned owns).1
    refine ⟨?_, effect.quiet heldInv isHeld aligned ?_ (unowned _) fun _ _ => unowned _⟩
    · intro used
      have used' : FrameUsed pmm page := (taken.used page).mpr (Or.inr used)
      exact unused ((effect.supplied heldInv isHeld).balanced.used effect.beneath.owned
        (Set.Subset.refl _) aligned (effect.ready.used used'))
    · rintro rfl
      exact unused owned.kernel_used
  · intro page frame owns
    rw [userPages, pages] at owns
    split at owns
    · obtain rfl := Option.some.inj owns
      exact Or.inr taken.fresh
    · exact Or.inl owns
  · intro x frame owns _
    have small := Nat.mod_lt x (show 0 < 4096 by decide)
    exact effect.same_page heldInv isHeld owns _ (by omega) (by omega)
  · intro opened directory isDirectory page inRange present
    have isRecord : record.pageDirectory = directory := by
      have before := (effect.directories object).symm.trans isDirectory
      rw [effect.isSpace] at before
      exact Option.some.inj before
    subst isRecord
    have entries := (effect.entries heldInv isHeld).2 page inRange
    rw [entries] at present ⊢
    by_cases isNew : page = virtualAddr
    · rw [if_pos isNew]
      exact (user_page_entry taken.allocatable.1 taken.allocatable.2.2).user
    · rw [if_neg isNew] at present ⊢
      refine opened record.pageDirectory ?_ page inRange present
      exact (effect.directories object).symm.trans isDirectory

/-- A page that was taken and given back. -/
theorem TakenBack.writes_only {pmm : PmmState} (back : TakenBack system.machine.pmm pmm)
    (inv : Accounted image held system) (object : Nat) (written : Nat → Prop) :
    WritesOnly object written system (system.withMachine { system.machine with pmm := pmm }) := by
  obtain ⟨aligned, -, pages, bytes, opens⟩ := WritesOnly.refl inv object written
  refine ⟨aligned, ?_, pages, bytes, opens⟩
  intro page _ unused
  exact ⟨fun used => unused ((back.used page).mpr used), Memory.SamePage.refl _ _⟩

/-- The pages of a process in a range are new, and no other byte changed. -/
structure RangeAdded (object addr count : Nat) (system next : MemorySystem) : Prop where
  added : ∀ x, addr ≤ x → x < addr + 4096 * count →
    userByte system object x = none ∧ (userByte next object x).isSome
  kept : ∀ other x, ¬ (other = object ∧ addr ≤ x ∧ x < addr + 4096 * count) →
    userByte next other x = userByte system other x
  writes : WritesOnly object (fun _ => False) system next

theorem RangeAdded.nothing (addr : Nat)
    (same : ∀ other x, userByte next other x = userByte system other x)
    (writes : WritesOnly object (fun _ => False) system next) :
    RangeAdded object addr 0 system next :=
  ⟨fun x low high => absurd high (by omega), fun other x _ => same other x, writes⟩

theorem RangeAdded.cons {addr : Nat} {middle : MemorySystem}
    (first : RangeAdded object addr 1 system middle)
    (rest : RangeAdded object (addr + 4096) count middle next) :
    RangeAdded object addr (count + 1) system next := by
  refine ⟨?_, ?_, first.writes.trans rest.writes⟩
  · intro x low high
    by_cases inFirst : x < addr + 4096
    · obtain ⟨absent, present⟩ := first.added x low (by omega)
      refine ⟨absent, ?_⟩
      rw [rest.kept object x (by omega)]
      exact present
    · obtain ⟨absent, present⟩ := rest.added x (by omega) (by omega)
      rw [first.kept object x (by omega)] at absent
      exact ⟨absent, present⟩
  · intro other x outside
    refine (rest.kept other x ?_).trans (first.kept other x ?_)
    · rintro ⟨isObject, low, high⟩
      exact outside ⟨isObject, by omega, by omega⟩
    · rintro ⟨isObject, low, high⟩
      have fits : 4096 * 1 ≤ 4096 * (count + 1) := Nat.mul_le_mul_left 4096 (Nat.le_add_left 1 count)
      exact outside ⟨isObject, low, Nat.lt_of_lt_of_le high (Nat.add_le_add_left fits addr)⟩

/-- A view that had a byte has it still. -/
theorem RangeAdded.grows {addr other : Nat} (added : RangeAdded object addr count system next)
    (reachable : (userByte system other x).isSome) :
    userByte next other x = userByte system other x := by
  apply added.kept
  rintro ⟨rfl, low, high⟩
  rw [(added.added x low high).1] at reachable
  cases reachable

/-- A mapping adds one page. -/
theorem MapEffect.range_added {flags : Nat}
    (effect : MapEffect image held object virtualAddr physicalAddr flags system next record table node
      base) (inv : Accounted image held system) (isHeld : physicalAddr ∈ held) :
    (∀ x, virtualAddr ≤ x → x < virtualAddr + 4096 * 1 →
      userByte system object x = none ∧ (userByte next object x).isSome) ∧
    ∀ other x, ¬ (other = object ∧ virtualAddr ≤ x ∧ x < virtualAddr + 4096 * 1) →
      userByte next other x = userByte system other x := by
  have aligned := effect.inRange.aligned
  have pages := effect.pages inv isHeld
  constructor
  · intro x low high
    have isPage : x / 4096 * 4096 = virtualAddr := by omega
    have absent : userPages system object virtualAddr = none := by
      have isDirectory := directory_of_space system.machine.kernelDirectory effect.isSpace
      rw [userPages, page_owner isDirectory effect.inRange, (effect.entries inv isHeld).1]
      exact entry_page_zero
    constructor
    · rw [userByte, isPage, absent]
      rfl
    · rw [user_byte_is_some, isPage, userPages, pages, if_pos ⟨rfl, rfl⟩]
      rfl
  · intro other x outside
    have different : ¬ (other = object ∧ x / 4096 * 4096 = virtualAddr) := by
      rintro ⟨rfl, isPage⟩
      exact outside ⟨rfl, by omega, by omega⟩
    have samePage : userPages next other (x / 4096 * 4096) = userPages system other (x / 4096 * 4096) := by
      rw [userPages, pages, if_neg different]
    apply user_byte_congr samePage
    intro frame owns
    exact effect.same_page inv isHeld (samePage.trans owns)

/-- `map_user_page` adds the page, or nothing. -/
theorem map_user_page_added (inv : Accounted image held system)
    (isSpace : system.spaces object = some record) (virtualAddr : Nat) :
    (mapUserPage (some object) virtualAddr system).Sat fun result next =>
      (result ≠ 0 ∧ RangeAdded object virtualAddr 0 system next) ∨
        (result = 0 ∧ RangeAdded object virtualAddr 1 system next) := by
  refine (map_user_page_sat inv isSpace virtualAddr).mono ?_
  rintro result next (⟨rfl, -, -, pmm, rfl, back⟩ | ⟨rfl, page, pmm, table, node, base, taken, effect⟩)
  · exact Or.inl ⟨by decide, RangeAdded.nothing virtualAddr (fun _ _ => rfl)
      (back.writes_only inv object _)⟩
  · obtain ⟨added, kept⟩ := effect.range_added (inv.take taken) (Set.mem_insert page held)
    exact Or.inr ⟨rfl, added, kept, effect.writes_only inv taken⟩

/-- The loop over pages adds a first part of them, and all of them on success.

Proof: by induction on the number of pages left. -/
theorem map_user_pages_added (remaining addr : Nat)
    (inv : Accounted image held system) (isSpace : (system.spaces object).isSome) :
    (mapUserPagesFrom (some object) remaining addr system).Sat fun result next =>
      ∃ count ≤ remaining, RangeAdded object addr count system next ∧
        (result = 0 → count = remaining) := by
  induction remaining generalizing system addr with
  | zero =>
    exact ⟨0, Nat.le_refl 0, RangeAdded.nothing addr (fun _ _ => rfl) (WritesOnly.refl inv object _),
      fun _ => rfl⟩
  | succ remaining ih =>
    obtain ⟨record, isRecord⟩ := Option.isSome_iff_exists.mp isSpace
    refine ((map_user_page_work inv isSpace addr).and
      (map_user_page_added inv isRecord addr)).andThen ?_
    rintro result middle ⟨⟨middleInv, work, -⟩, refused | mapped⟩
    · rw [ite_run, if_pos refused.1]
      exact ⟨0, Nat.zero_le _, refused.2, fun isZero => absurd isZero (by decide)⟩
    · rw [ite_run, if_neg (not_not.mpr mapped.1)]
      refine (ih (addr + pmmPageSize) middleInv (work.is_some isSpace)).mono ?_
      rintro result next ⟨count, fits, rest, complete⟩
      refine ⟨count + 1, Nat.succ_le_succ fits, mapped.2.cons rest, ?_⟩
      intro isZero
      rw [complete isZero]

/-! ## Another directory -/

/-- Copying the shared entries changes the directory only. -/
theorem sync_same_page (memory : Memory) {directory kernelDirectory page : Nat}
    (aligned : page % 4096 = 0) (directoryAligned : directory % 4096 = 0)
    (different : page ≠ directory) :
    memory.SamePage (syncDirectory directory kernelDirectory memory) page := by
  intro x low high
  have lowCount : lowIdentitySharedBytes / (4 * 1024 * 1024) = 4 := by decide
  have highIndex : directoryIndex kernelHighBase = 768 := by decide
  have entries : pageDirectoryEntries = 1024 := rfl
  simp only [syncDirectory]
  rw [Memory.writeWords_byte _ _ (by omega), Memory.writeWords_byte _ _ (by omega)]

/-- Loading a directory changes no view. -/
theorem switched_user_byte (inv : Accounted image held system) {space : SpaceRef}
    (isSpace : system.lookup space = some record) (other : Nat) :
    userByte (system.switched space record) other = userByte system other ∧
      userPages (system.switched space record) other = userPages system other := by
  obtain ⟨-, sameOwners, -⟩ := switched_owned inv isSpace
  have samePages : userPages (system.switched space record) other = userPages system other := by
    funext page
    exact congrFun sameOwners (.page (some other) page)
  refine ⟨?_, samePages⟩
  funext x
  apply user_byte_congr
  · rw [samePages]
  · intro frame owns
    cases space with
    | none => exact Memory.SamePage.refl _ _
    | some target =>
      have isDirectory := directory_of_space system.machine.kernelDirectory
        (show system.spaces target = some record from isSpace)
      refine sync_same_page _ (inv.owned.permitted owns).aligned
        (inv.owned.directory_aligned isDirectory) ?_
      rintro rfl
      exact Owner.noConfusion (inv.owned.sound.single owns (inv.owned.directory_owner isDirectory))

/-- Frames whose directories and tables are as they were have the same entries. -/
theorem open_pages_congr (sameSpaces : next.spaces = system.spaces)
    (sameEntries : ∀ directory, (system.spaces object).map AddressSpace.pageDirectory = some directory →
      ∀ page, PageRange (some object) page →
        pageEntry next.machine.memory directory page = pageEntry system.machine.memory directory page)
    (opened : OpenPages object system) : OpenPages object next := by
  intro directory isDirectory page inRange present
  rw [sameSpaces] at isDirectory
  rw [sameEntries directory isDirectory page inRange] at present ⊢
  exact opened directory isDirectory page inRange present

/-- Loading a directory stores nothing to a process. -/
theorem switched_writes_only (inv : Accounted image held system) {space : SpaceRef}
    (isSpace : system.lookup space = some record) (object : Nat) (written : Nat → Prop) :
    WritesOnly object written system (system.switched space record) := by
  obtain ⟨owned, sameOwners, -⟩ := switched_owned inv isSpace
  have samePages := (switched_user_byte inv isSpace object).2
  cases space with
  | none =>
    obtain ⟨aligned, free, pages, bytes, opens⟩ := WritesOnly.refl inv object written
    exact ⟨aligned, free, pages, bytes, opens⟩
  | some target =>
    have isDirectory := directory_of_space system.machine.kernelDirectory
      (show system.spaces target = some record from isSpace)
    have directoryOwns := inv.owned.directory_owner isDirectory
    have quiet : ∀ page, page % 4096 = 0 → page ≠ record.pageDirectory →
        system.machine.memory.SamePage (system.switched (some target) record).machine.memory page :=
      fun page aligned different => sync_same_page _ aligned
        (inv.owned.directory_aligned isDirectory) different
    constructor
    · intro page frame owns
      exact (owned.permitted owns).aligned
    · intro page aligned unused
      refine ⟨unused, quiet page aligned ?_⟩
      rintro rfl
      exact unused (inv.owned.sound.owned directoryOwns).1
    · intro page frame owns
      rw [samePages] at owns
      exact Or.inl owns
    · intro x frame owns _
      rw [samePages] at owns
      have small := Nat.mod_lt x (show 0 < 4096 by decide)
      refine quiet frame (inv.owned.permitted owns).aligned ?_ _ (by omega) (by omega)
      rintro rfl
      exact Owner.noConfusion (inv.owned.sound.single owns directoryOwns)
    · refine open_pages_congr rfl ?_
      intro directory isOther page inRange
      have isOther : directoryOf system.spaces system.machine.kernelDirectory (some object) =
        some directory := isOther
      apply page_entry_congr
      · have word := inv.owned.synced_word isDirectory (inv.owned.directory_aligned isOther)
          inRange.table_range.lt
        refine word.trans (if_neg ?_)
        rintro ⟨-, isShared⟩
        have low := inRange.table_range.1
        have high := inRange.table_range.2
        simp only [SharedIndex] at isShared
        omega
      · intro table entered
        have owns := table_of_page inRange isOther entered
        refine (quiet table (inv.owned.permitted owns).aligned ?_).word (table_index_lt page)
        rintro rfl
        exact Owner.noConfusion (inv.owned.sound.single owns directoryOwns)

/-- A run of stores reaches the addresses it stores to. -/
theorem stored_writes_only (inv : Accounted image held system) {first : Nat}
    {source : Nat → UInt8} {memory : Memory}
    (stored : Stored (userPages system object) first count source system.machine.memory memory) :
    WritesOnly object (fun x => first ≤ x ∧ x < first + count) system
      (system.withMachine { system.machine with memory := memory }) := by
  obtain ⟨storedInv, sameOwners, -⟩ := inv.store_user stored
  have samePages : userPages (system.withMachine { system.machine with memory := memory }) object =
      userPages system object := by
    funext page
    exact congrFun sameOwners (.page (some object) page)
  constructor
  · intro page frame owns
    exact (storedInv.owned.permitted owns).aligned
  · intro page aligned unused
    refine ⟨unused, stored.outside page aligned ?_⟩
    intro virtualAddr owns
    exact unused (inv.owned.sound.owned owns).1
  · intro page frame owns
    rw [samePages] at owns
    exact Or.inl owns
  · intro x frame owns unwritten
    rw [samePages] at owns
    have position : x / 4096 * 4096 + x % 4096 = x := Nat.div_add_mod' x 4096
    have byte := stored.inside _ frame owns (x % 4096) (Nat.mod_lt x (by decide))
    rw [position, if_neg unwritten] at byte
    exact byte
  · refine open_pages_congr rfl ?_
    intro directory isDirectory page inRange
    have isDirectory : directoryOf system.spaces system.machine.kernelDirectory (some object) =
      some directory := isDirectory
    apply page_entry_congr
    · refine (stored.outside directory (inv.owned.directory_aligned isDirectory) ?_).word
        inRange.table_range.lt
      intro virtualAddr owns
      exact Owner.noConfusion (inv.owned.sound.single owns (inv.owned.directory_owner isDirectory))
    · intro table entered
      have ownsTable := table_of_page inRange isDirectory entered
      refine (stored.outside table (inv.owned.permitted ownsTable).aligned ?_).word (table_index_lt page)
      intro virtualAddr owns
      exact Owner.noConfusion (inv.owned.sound.single owns ownsTable)

/-- A run of stores is a store to the view. -/
theorem stored_user_byte (inv : Accounted image held system) {first : Nat}
    {source : Nat → UInt8} {memory : Memory} (owned : RangeOwned system object first count)
    (stored : Stored (userPages system object) first count source system.machine.memory memory) :
    userByte (system.withMachine { system.machine with memory := memory }) object =
        storeView (userByte system object) first count source ∧
      ∀ other, other ≠ object →
        userByte (system.withMachine { system.machine with memory := memory }) other =
          userByte system other := by
  obtain ⟨-, sameOwners, -⟩ := inv.store_user stored
  have samePages : ∀ other, userPages (system.withMachine { system.machine with memory := memory })
      other = userPages system other := by
    intro other
    funext page
    exact congrFun sameOwners (.page (some other) page)
  constructor
  · funext x
    have small := Nat.mod_lt x (show 0 < 4096 by decide)
    have position : x / 4096 * 4096 + x % 4096 = x := Nat.div_add_mod' x 4096
    rw [userByte, samePages, storeView]
    cases owns : userPages system object (x / 4096 * 4096) with
    | none =>
      rw [if_neg]
      · rw [userByte, owns]
        rfl
      · rintro ⟨low, high⟩
        have isOwned := owned x low high
        rw [owns] at isOwned
        cases isOwned
    | some frame =>
      have byte := stored.inside _ frame owns (x % 4096) small
      rw [position] at byte
      rw [Option.map_some, with_machine_machine, byte, userByte, owns, Option.map_some]
      split <;> rfl
  · intro other different
    funext x
    apply user_byte_congr
    · rw [samePages]
    · intro frame owns
      refine stored.outside frame (inv.owned.permitted owns).aligned ?_
      intro page owns'
      exact different (Option.some.inj (Owner.page.inj (inv.owned.sound.single owns owns')).1)

end Toyix.Paging
