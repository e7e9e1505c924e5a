import Toyix.Paging.UserMemory

/-!
# Access to user memory

This is `kernel/usercopy.c`. Before the kernel copies from or to an address that a
process supplied, it looks up the flags of every page of the range in the current
address space. The lookup reads the user bit of the table entry only; the processor
also requires it in the directory entry.

A copy that the check lets through stays inside the user range, on pages of the current
process.
-/

namespace Toyix.Paging

open Library Pmm

def usercopyOk : Int := 0
def usercopyErrFault : Int := -1

/-! ## `usercopy.c` -/

/-- The pages from `page` on, up to the one of `last`. -/
def userPagesAccessible (last : Nat) : Nat → Nat → MemoryProgram Int
  | 0, _ => Program.diverge
  | fuel + 1, page =>
    if page ≤ last then do
      let system ← Program.current
      let record ← validateSpace system.currentSpace
      let flags := addressSpaceGetFlags record.pageDirectory page system.machine.memory
      if flags &&& addressSpaceFlagUser = 0 then pure 0
      else if page > 0xFFFFFFFF - 0x1000 then pure 1
      else userPagesAccessible last fuel (page + 0x1000)
    else pure 1

def userRangeAccessible (userAddr size : Nat) : MemoryProgram Int :=
  if size = 0 then pure 1
  else if (userAddr + size) % 2 ^ 32 < userAddr then pure 0
  else userPagesAccessible (userAddr + size - 1) (2 ^ 20 + 1) (userAddr &&& x86PageFrameMask)

def copyFromUser (kernelDest userSrc size : Nat) : MemoryProgram (Int × List UInt8) :=
  if kernelDest = 0 ∧ size ≠ 0 then pure (usercopyErrFault, [])
  else do
    let accessible ← userRangeAccessible userSrc size
    if accessible = 0 then pure (usercopyErrFault, [])
    else do
      let bytes ← memcpyFrom userSrc size
      pure (usercopyOk, bytes)

def copyToUser (userDest kernelSrc size : Nat) (source : Nat → UInt8) : MemoryProgram Int :=
  if kernelSrc = 0 ∧ size ≠ 0 then pure usercopyErrFault
  else do
    let accessible ← userRangeAccessible userDest size
    if accessible = 0 then pure usercopyErrFault
    else do
      memcpyTo userDest size source
      pure usercopyOk

variable {image : Image} {held : Set Nat} {system : MemorySystem} {directory size : Nat}
  {space : SpaceRef}

/-! ## The user bits of a page -/

/-- The processor lets user mode reach a page: both entries are present and carry the
user bit. -/
structure UserMapped (memory : Memory) (directory virtualAddr : Nat) : Prop where
  table : isPresent (memory.word directory (directoryIndex virtualAddr)) = true
  tableUser : isUser (memory.word directory (directoryIndex virtualAddr)) = true
  page : isPresent (memory.word (tableFromPde (memory.word directory (directoryIndex virtualAddr)))
    (tableIndex virtualAddr)) = true
  pageUser : isUser (memory.word (tableFromPde (memory.word directory (directoryIndex virtualAddr)))
    (tableIndex virtualAddr)) = true

instance (memory : Memory) (directory virtualAddr : Nat) :
    Decidable (UserMapped memory directory virtualAddr) :=
  decidable_of_iff (isPresent (memory.word directory (directoryIndex virtualAddr)) = true ∧
    isUser (memory.word directory (directoryIndex virtualAddr)) = true ∧
    isPresent (memory.word (tableFromPde (memory.word directory (directoryIndex virtualAddr)))
      (tableIndex virtualAddr)) = true ∧
    isUser (memory.word (tableFromPde (memory.word directory (directoryIndex virtualAddr)))
      (tableIndex virtualAddr)) = true)
    ⟨fun ⟨table, tableUser, page, pageUser⟩ => ⟨table, tableUser, page, pageUser⟩,
      fun ⟨table, tableUser, page, pageUser⟩ => ⟨table, tableUser, page, pageUser⟩⟩

/-- The accounts, with the user bits as `map_user_page` and plain kernel mappings leave
them. -/
structure Guarded (image : Image) (held : Set Nat) (system : MemorySystem) : Prop
    extends Accounted image held system where
  kernelBits : KernelBits system.machine
  userTables : UserTables system.spaces system.machine

theorem is_user_masked (entry : Nat) : isUser (entry &&& x86PageFlagsMask) = isUser entry := by
  have mask : entry &&& x86PageFlagsMask = entry % 4096 := Nat.and_two_pow_sub_one_eq_mod entry 12
  rw [mask, Bool.eq_iff_iff, is_user_iff, is_user_iff]
  omega

theorem user_flag_iff (archFlags : Nat) :
    fromArchFlags archFlags &&& addressSpaceFlagUser = 0 ↔ isUser archFlags = false := by
  have bit : isUser archFlags = false ↔ archFlags &&& x86PageUser = 0 := by
    simp [isUser]
  rw [bit, fromArchFlags]
  split <;> split <;> simp_all [addressSpaceFlagWritable, addressSpaceFlagUser]

/-- What the flag lookup tests: both entries are present, and the table entry carries
the user bit. -/
theorem get_flags_user_iff (memory : Memory) (directory virtualAddr : Nat) :
    addressSpaceGetFlags directory virtualAddr memory &&& addressSpaceFlagUser ≠ 0 ↔
      ∃ table, tableOf memory directory (directoryIndex virtualAddr) = some table ∧
        isPresent (memory.word table (tableIndex virtualAddr)) = true ∧
        isUser (memory.word table (tableIndex virtualAddr)) = true := by
  have absent : isPresent 0 = false := by decide
  unfold addressSpaceGetFlags pageEntry tableOf
  by_cases entered : isPresent (memory.word directory (directoryIndex virtualAddr)) = true
  · by_cases present : isPresent (memory.word (tableFromPde (memory.word directory
        (directoryIndex virtualAddr))) (tableIndex virtualAddr)) = true
    · simp [entered, present, user_flag_iff, is_user_masked]
    · rw [Bool.not_eq_true] at present
      simp [entered, present, absent]
  · rw [Bool.not_eq_true] at entered
    simp [entered, absent]

section Guarded

variable (guarded : Guarded image held system)

include guarded

/-- The table of a shared entry is the kernel's, and maps nothing for user mode. -/
theorem Guarded.shared_not_user {index table slot : Nat}
    (isDirectory : directoryOf system.spaces system.machine.kernelDirectory space = some directory)
    (isShared : space = none ∧ index < 1024 ∨ SharedIndex index)
    (entered : tableOf system.machine.memory directory index = some table) (inside : slot < 1024) :
    isUser (system.machine.memory.word table slot) = false := by
  have small : index < 1024 := by
    rcases isShared with ⟨-, small⟩ | isShared
    · exact small
    · exact isShared.lt
  have inKernel : tableOf system.machine.memory system.machine.kernelDirectory index = some table := by
    cases space with
    | none =>
      obtain rfl : system.machine.kernelDirectory = directory := Option.some.inj isDirectory
      exact entered
    | some object =>
      have isShared : SharedIndex index :=
        isShared.resolve_left fun both => Option.some_ne_none object both.1
      obtain ⟨record, isSpace, rfl⟩ := Option.map_eq_some_iff.mp isDirectory
      have present := (table_of_eq_some.mp entered).1
      have same := guarded.shared object record isSpace index isShared present
      rw [tableOf, ← same]
      exact entered
  exact guarded.kernelBits index small table inKernel slot inside

/-- A page whose table entry carries the user bit is a page of a process, and its
directory entry carries the user bit as well.

Proof: the kernel's tables map nothing for user mode, so the entry is not a shared one
and the directory is not the kernel's. The tables in the user range of a process carry
the user bit. -/
theorem Guarded.user_page {virtualAddr table : Nat}
    (isDirectory : directoryOf system.spaces system.machine.kernelDirectory space = some directory)
    (bounded : virtualAddr < 2 ^ 32)
    (entered : tableOf system.machine.memory directory (directoryIndex virtualAddr) = some table)
    (isUserPage : isUser (system.machine.memory.word table (tableIndex virtualAddr)) = true) :
    isUser (system.machine.memory.word directory (directoryIndex virtualAddr)) = true ∧
      ∃ object, space = some object ∧ TableRange (some object) (directoryIndex virtualAddr) := by
  have index := directory_index_lt bounded
  have notShared : ¬ (space = none ∧ directoryIndex virtualAddr < 1024 ∨
      SharedIndex (directoryIndex virtualAddr)) := by
    intro isShared
    have plain := guarded.shared_not_user isDirectory isShared entered (table_index_lt virtualAddr)
    rw [isUserPage] at plain
    exact Bool.noConfusion plain
  cases space with
  | none => exact absurd (Or.inl ⟨rfl, index⟩) notShared
  | some object =>
    have inRange : TableRange (some object) (directoryIndex virtualAddr) := by
      have notShared : ¬ SharedIndex (directoryIndex virtualAddr) :=
        fun isShared => notShared (Or.inr isShared)
      simp only [SharedIndex] at notShared
      exact ⟨by omega, by omega⟩
    refine ⟨?_, object, rfl, inRange⟩
    exact guarded.userTables object directory isDirectory _ inRange (table_of_eq_some.mp entered).1

/-- The flag lookup finds the user bit where the processor does. -/
theorem Guarded.flag_iff_user_mapped {virtualAddr : Nat}
    (isDirectory : directoryOf system.spaces system.machine.kernelDirectory system.currentSpace =
      some directory) (bounded : virtualAddr < 2 ^ 32) :
    addressSpaceGetFlags directory virtualAddr system.machine.memory &&& addressSpaceFlagUser ≠ 0 ↔
      UserMapped system.machine.memory directory virtualAddr := by
  rw [get_flags_user_iff]
  constructor
  · rintro ⟨table, entered, present, isUserPage⟩
    have tableUser := (guarded.user_page isDirectory bounded entered isUserPage).1
    obtain ⟨tablePresent, rfl⟩ := table_of_eq_some.mp entered
    exact ⟨tablePresent, tableUser, present, isUserPage⟩
  · intro mapped
    exact ⟨_, table_of_eq_some.mpr ⟨mapped.table, rfl⟩, mapped.page, mapped.pageUser⟩

/-- A page open to user mode belongs to the process, which has the frame of its entry. -/
theorem Guarded.user_mapped_owned {page : Nat}
    (isDirectory : directoryOf system.spaces system.machine.kernelDirectory space = some directory)
    (bounded : page < 2 ^ 32) (aligned : page % 4096 = 0)
    (mapped : UserMapped system.machine.memory directory page) :
    ∃ object, space = some object ∧ PageRange (some object) page ∧
      ownersOf system.spaces system.machine (.page (some object) page) =
        some (pageEntry system.machine.memory directory page &&& x86PageFrameMask) := by
  have entered := table_of_eq_some.mpr ⟨mapped.table, rfl⟩
  obtain ⟨-, object, rfl, inRange⟩ := guarded.user_page isDirectory bounded entered mapped.pageUser
  have pageRange : PageRange (some object) page := by
    obtain ⟨low, high⟩ := inRange
    rw [directory_index_eq] at low high
    exact ⟨aligned, by omega, by omega⟩
  have owns := owned_page_of_table pageRange (table_of_page pageRange isDirectory entered)
  have entry : pageEntry system.machine.memory directory page = system.machine.memory.word
      (tableFromPde (system.machine.memory.word directory (directoryIndex page))) (tableIndex page) := by
    simp [pageEntry, mapped.table, mapped.page]
  rw [entry]
  exact ⟨object, rfl, pageRange, owns.trans (entry_page_eq_some.mpr ⟨mapped.page, rfl⟩)⟩

end Guarded

/-! ## The range check -/

/-- The current space passes `validate_space`. -/
theorem Accounted.validate_current (inv : Accounted image held system) :
    ∃ record, validateSpace system.currentSpace system = .done record system ∧
      system.machine.cr3 = record.pageDirectory ∧
      directoryOf system.spaces system.machine.kernelDirectory system.currentSpace =
        some record.pageDirectory := by
  obtain ⟨record, isRecord, loaded, isDirectory⟩ := inv.loaded_directory
  refine ⟨record, ?_, loaded, isDirectory⟩
  cases isCurrent : system.currentSpace with
  | none =>
    rw [isCurrent] at isRecord
    obtain rfl : system.kernelSpace = record := Option.some.inj isRecord
    exact validate_kernel_run inv
  | some object =>
    rw [isCurrent] at isRecord
    exact validate_space_run inv.owned isRecord

/-- The loop over the pages of a range ends, and finds whether user mode may reach all
of them.

Proof: by induction on the number of rounds. A round moves one page up, and the last
page below 4 GiB ends the loop before its counter wraps. -/
theorem user_pages_accessible_run (guarded : Guarded image held system)
    {last : Nat} (bounded : last < 2 ^ 32) (fuel page : Nat) (aligned : page % 4096 = 0)
    (inside : page < 2 ^ 32) (enough : last < page + 4096 * fuel) :
    ∃ result, userPagesAccessible last (fuel + 1) page system = .done result system ∧
      (result = 0 ∨ result = 1) ∧
      (result = 1 ↔ ∀ other, other % 4096 = 0 → page ≤ other → other ≤ last →
        UserMapped system.machine.memory system.machine.cr3 other) := by
  obtain ⟨record, validated, loaded, isDirectory⟩ := guarded.validate_current
  rw [← loaded] at isDirectory
  induction fuel generalizing page with
  | zero =>
    have past : ¬ page ≤ last := by omega
    refine ⟨1, ?_, Or.inr rfl, iff_of_true rfl ?_⟩
    · simp only [userPagesAccessible, past, ↓reduceIte, pure_apply]
    · intro other _ low high
      omega
  | succ fuel ih =>
    by_cases more : page ≤ last
    · have flag := guarded.flag_iff_user_mapped isDirectory inside
      rw [userPagesAccessible]
      simp only [more, ↓reduceIte, bind_apply, current_apply, andThen_done, validated,
        ← loaded, ite_run, pure_apply]
      by_cases mapped : UserMapped system.machine.memory system.machine.cr3 page
      · rw [if_neg (flag.mpr mapped)]
        by_cases top : page > 0xFFFFFFFF - 0x1000
        · rw [if_pos top]
          refine ⟨1, rfl, Or.inr rfl, iff_of_true rfl ?_⟩
          intro other otherAligned low high
          obtain rfl : other = page := by omega
          exact mapped
        · rw [if_neg top]
          obtain ⟨result, ran, bit, found⟩ := ih (page + 0x1000) (by omega) (by omega) (by omega)
          refine ⟨result, ran, bit, found.trans ⟨?_, ?_⟩⟩
          · intro rest other otherAligned low high
            by_cases same : other = page
            · exact same ▸ mapped
            · exact rest other otherAligned (by omega) high
          · intro all other otherAligned low high
            exact all other otherAligned (by omega) high
      · have clear := not_not.mp (mt flag.mp mapped)
        rw [if_pos clear]
        refine ⟨0, rfl, Or.inl rfl, iff_of_false (by decide) ?_⟩
        intro all
        exact mapped (all page aligned (Nat.le_refl page) more)
    · refine ⟨1, ?_, Or.inr rfl, iff_of_true rfl ?_⟩
      · rw [userPagesAccessible]
        simp only [more, ↓reduceIte, pure_apply]
      · intro other _ low high
        omega

/-- Every byte of a range is open to user mode, and the range does not wrap. -/
def RangeMapped (system : MemorySystem) (userAddr size : Nat) : Prop :=
  userAddr + size < 2 ^ 32 ∧ ∀ page, page % 4096 = 0 → page < userAddr + size → userAddr < page + 4096 →
    UserMapped system.machine.memory system.machine.cr3 page

/-- The check of a range returns, changes nothing, and finds whether user mode may reach
every byte of the range. -/
theorem user_range_accessible_run (guarded : Guarded image held system)
    {userAddr : Nat} (addrBounded : userAddr < 2 ^ 32) (sizeBounded : size < 2 ^ 32) :
    ∃ result, userRangeAccessible userAddr size system = .done result system ∧
      (result = 0 ∨ result = 1) ∧ (result = 1 ↔ size = 0 ∨ RangeMapped system userAddr size) := by
  unfold userRangeAccessible
  by_cases empty : size = 0
  · refine ⟨1, ?_, Or.inr rfl, iff_of_true rfl (Or.inl empty)⟩
    simp only [empty, ↓reduceIte, pure_apply]
  · by_cases wraps : (userAddr + size) % 2 ^ 32 < userAddr
    · refine ⟨0, ?_, Or.inl rfl, iff_of_false (by decide) ?_⟩
      · simp only [empty, wraps, ↓reduceIte, pure_apply]
      · rintro (isEmpty | ⟨total, -⟩)
        · exact empty isEmpty
        · omega
    · have start := frame_of_entry userAddr addrBounded
      have total : userAddr + size < 2 ^ 32 := by omega
      obtain ⟨result, ran, bit, found⟩ := user_pages_accessible_run guarded
        (show userAddr + size - 1 < 2 ^ 32 by omega) (2 ^ 20) (userAddr / 4096 * 4096) (by omega)
        (by omega) (by omega)
      refine ⟨result, ?_, bit, found.trans ⟨?_, ?_⟩⟩
      · simp only [empty, wraps, ↓reduceIte, start]
        exact ran
      · intro all
        refine Or.inr ⟨total, ?_⟩
        intro page aligned low high
        exact all page aligned (by omega) (by omega)
      · rintro (isEmpty | ⟨-, all⟩) page aligned low high
        · exact absurd isEmpty empty
        · exact all page aligned (by omega) (by omega)

/-! ## Copies -/

/-- What a successful copy of `size` bytes may touch. -/
structure CopyRange (system : MemorySystem) (object userAddr size : Nat) : Prop where
  current : system.currentSpace = some object
  owned : RangeOwned system object userAddr size
  low : 0x01000000 ≤ userAddr
  high : userAddr + size ≤ 0xC0000000

/-- A nonempty range that passes the check lies in the user range, on pages of the
current process. -/
theorem Guarded.range_owned (guarded : Guarded image held system) {userAddr : Nat}
    (positive : 0 < size) (mapped : RangeMapped system userAddr size) :
    ∃ object, CopyRange system object userAddr size := by
  obtain ⟨total, pages⟩ := mapped
  obtain ⟨record, -, loaded, isDirectory⟩ := guarded.loaded_directory
  rw [← loaded] at isDirectory
  have ownedAt : ∀ x, userAddr ≤ x → x < userAddr + size → ∃ object frame,
      system.currentSpace = some object ∧ PageRange (some object) (x / 4096 * 4096) ∧
        userPages system object (x / 4096 * 4096) = some frame := by
    intro x low high
    have reached := pages (x / 4096 * 4096) (by omega) (by omega) (by omega)
    obtain ⟨object, isCurrent, inRange, owns⟩ :=
      guarded.user_mapped_owned isDirectory (by omega) (by omega) reached
    exact ⟨object, _, isCurrent, inRange, owns⟩
  obtain ⟨object, -, isCurrent, ⟨-, low, -⟩, -⟩ := ownedAt userAddr (Nat.le_refl _) (by omega)
  obtain ⟨-, -, -, ⟨-, -, high⟩, -⟩ := ownedAt (userAddr + size - 1) (by omega) (by omega)
  refine ⟨object, isCurrent, ?_, by omega, by omega⟩
  intro x inLow inHigh
  obtain ⟨other, frame, isOther, -, owns⟩ := ownedAt x inLow inHigh
  obtain rfl : other = object := Option.some.inj (isOther.symm.trans isCurrent)
  exact Option.isSome_iff_exists.mpr ⟨frame, owns⟩

/-- `copy_from_user` returns and changes nothing. A success has read bytes of the
current process only; a failure is a range that is not open to user mode. -/
theorem copy_from_user_run (guarded : Guarded image held system)
    (kernelDest : Nat) {userSrc : Nat} (addrBounded : userSrc < 2 ^ 32)
    (sizeBounded : size < 2 ^ 32) :
    ∃ result bytes, copyFromUser kernelDest userSrc size system = .done (result, bytes) system ∧
      (result = usercopyErrFault ∧ bytes = [] ∧ (kernelDest ≠ 0 → ¬ RangeMapped system userSrc size) ∨
        result = usercopyOk ∧ size = 0 ∧ bytes = [] ∨
        result = usercopyOk ∧ RangeMapped system userSrc size ∧
          ∃ object, CopyRange system object userSrc size ∧
            bytes.map some = (List.range size).map fun i => userByte system object (userSrc + i)) := by
  unfold copyFromUser
  by_cases null : kernelDest = 0 ∧ size ≠ 0
  · refine ⟨usercopyErrFault, [], ?_, Or.inl ⟨rfl, rfl, fun notNull => absurd null.1 notNull⟩⟩
    rw [if_pos null, pure_apply]
  · rw [if_neg null]
    obtain ⟨accessible, checked, bit, found⟩ := user_range_accessible_run guarded addrBounded
      sizeBounded
    rw [bind_done checked, ite_run]
    rcases bit with rfl | rfl
    · refine ⟨usercopyErrFault, [], by rw [if_pos rfl]; rfl, Or.inl ⟨rfl, rfl, ?_⟩⟩
      intro _ mapped
      exact absurd (found.mpr (Or.inr mapped)) (by decide)
    · rw [if_neg (by decide)]
      by_cases empty : size = 0
      · subst empty
        exact ⟨usercopyOk, [], rfl, Or.inr (Or.inl ⟨rfl, rfl, rfl⟩)⟩
      · have mapped := (found.mp rfl).resolve_left empty
        obtain ⟨object, range⟩ := guarded.range_owned (Nat.pos_of_ne_zero empty) mapped
        obtain ⟨bytes, ran, isBytes⟩ := load_run_run guarded.toAccounted range.current size size
          userSrc range.owned (Nat.le_refl _)
        refine ⟨usercopyOk, bytes, ?_, Or.inr (Or.inr ⟨rfl, mapped, object, range, isBytes⟩)⟩
        rw [bind_done (show memcpyFrom userSrc size system = .done bytes system from ran), pure_apply]

/-- `copy_to_user` returns. A success has changed bytes of the current process only; a failure
is a range that is not open to user mode. -/
theorem copy_to_user_run (guarded : Guarded image held system)
    (kernelSrc : Nat) {userDest : Nat} (source : Nat → UInt8) (addrBounded : userDest < 2 ^ 32)
    (sizeBounded : size < 2 ^ 32) :
    ∃ result memory, copyToUser userDest kernelSrc size source system =
        .done result (system.withMachine { system.machine with memory := memory }) ∧
      (result = usercopyErrFault ∧ memory = system.machine.memory ∧
          (kernelSrc ≠ 0 → size ≠ 0 ∧ ¬ RangeMapped system userDest size) ∨
        result = usercopyOk ∧ size = 0 ∧ memory = system.machine.memory ∨
        result = usercopyOk ∧ RangeMapped system userDest size ∧
          ∃ object, CopyRange system object userDest size ∧
            Stored (userPages system object) userDest size source system.machine.memory memory) := by
  unfold copyToUser
  by_cases null : kernelSrc = 0 ∧ size ≠ 0
  · refine ⟨usercopyErrFault, system.machine.memory, ?_,
      Or.inl ⟨rfl, rfl, fun notNull => absurd null.1 notNull⟩⟩
    rw [if_pos null, pure_apply]
    rfl
  · rw [if_neg null]
    obtain ⟨accessible, checked, bit, found⟩ := user_range_accessible_run guarded addrBounded
      sizeBounded
    rw [bind_done checked, ite_run]
    rcases bit with rfl | rfl
    · refine ⟨usercopyErrFault, system.machine.memory, by rw [if_pos rfl]; rfl,
        Or.inl ⟨rfl, rfl, ?_⟩⟩
      intro _
      have closed : ¬ (size = 0 ∨ RangeMapped system userDest size) := fun isOpen =>
        absurd (found.mpr isOpen) (by decide)
      exact not_or.mp closed
    · rw [if_neg (by decide)]
      by_cases empty : size = 0
      · subst empty
        exact ⟨usercopyOk, system.machine.memory, rfl, Or.inr (Or.inl ⟨rfl, rfl, rfl⟩)⟩
      · have mapped := (found.mp rfl).resolve_left empty
        obtain ⟨object, range⟩ := guarded.range_owned (Nat.pos_of_ne_zero empty) mapped
        obtain ⟨memory, ran, stored⟩ := store_run_run size system size userDest source
          guarded.toAccounted range.current range.owned (Nat.le_refl _)
        refine ⟨usercopyOk, memory, ?_, Or.inr (Or.inr ⟨rfl, mapped, object, range, stored⟩)⟩
        rw [bind_done (show memcpyTo userDest size source system = .done ⟨⟩ _ from ran), pure_apply]

end Toyix.Paging
