import Toyix.Text.Numbers
import Toyix.Paging.Apart
import Toyix.Paging.UserBytes
import Toyix.Processes.Effects
import Toyix.Syscalls.Reading

/-!
# Text output of user programs

`toyix_write_str`, `toyix_puts` and `toyix_vprintf` of `user/lib/toyix.c`, together with `SYS_WRITE` as
`kernel/syscall.c` implements it. The program reads its memory with the loaded directory; a page fault,
or a kill request that the kernel finds, ends its thread. The console is the text it has been given.

The library passes a whole string to one call and does not look at the answer. The kernel writes at most
`SYSCALL_RW_MAX` characters of it.
-/

namespace Toyix.User

open Library Paging Processes Files Syscalls

def fdStdout : Nat := 1
def fdStderr : Nat := 2

/-- The kernel, and the text on its console. -/
structure Session where
  kernel : Kernel
  console : List UInt8

abbrev SessionProgram := Program Session

def onKernel {α : Type} (program : KernelProgram α) : SessionProgram α :=
  Program.within Session.kernel (fun run kernel => { run with kernel := kernel }) program

/-! ## The kernel -/

def consoleRawPutc (c : UInt8) : SessionProgram PUnit :=
  Program.update fun run => { run with console := run.console ++ [c] }

/-- `console_raw_write_n`, on the characters that it is given. -/
def consoleRawWriteN : List UInt8 → SessionProgram PUnit
  | [] => pure ⟨⟩
  | ch :: text => do
    consoleRawPutc ch
    consoleRawWriteN text

def syscallWrite (fd userBuf length : Nat) : SessionProgram Nat := do
  if fd ≠ fdStdout ∧ fd ≠ fdStderr then pure failure
  else
    let length := if length > syscallRwMax then syscallRwMax else length
    if length = 0 then pure 0
    else
      let (code, buffer) ← onKernel (onMemory (copyFromUser stackVariable userBuf length))
      if code ≠ usercopyOk then pure failure
      else
        consoleRawWriteN buffer
        pure length

/-- `syscall_finish_or_kill`. -/
def finishOrKill (current : Nat) : SessionProgram Bool :=
  onKernel (onFiles (Files.onTable (syscallFinishOrKill current)))

/-! ## The library -/

/-- A program in user mode: no result when its thread has ended. -/
abbrev UserProgram := OptionT SessionProgram

/-- `toyix_write`, through `syscall_handler`. -/
def toyixWrite (current fd buffer length : Nat) : UserProgram Nat := OptionT.mk do
  let killed ← finishOrKill current
  if killed then pure none
  else
    let eax ← syscallWrite fd buffer length
    let killed ← finishOrKill current
    pure (if killed then none else some eax)

/-- The loop of `toyix_strlen`. -/
def strlenFrom (text : Nat) : Nat → Nat → UserProgram Nat
  | 0, _ => OptionT.mk Program.diverge
  | fuel + 1, len => OptionT.mk do
    let run ← Program.current
    match loadedRead run.kernel.memory ((text + len) % 2 ^ 32) with
    | none => pure none
    | some byte => if byte ≠ 0 then (strlenFrom text fuel (len + 1)).run else pure (some len)

/-- `toyix_strlen`. -/
def toyixStrlen (text : Nat) : UserProgram Nat :=
  if text = 0 then pure 0 else strlenFrom text (2 ^ 32) 0

/-- A store in user mode, which reaches the same bytes as a copy. -/
def userStore (address : Nat) (byte : UInt8) : UserProgram PUnit := OptionT.mk do
  let code ← onKernel (copyBytesToUser address [byte])
  pure (if code ≠ usercopyOk then none else some ⟨⟩)

/-- `toyix_putchar`; its argument is at an address of the stack. -/
def toyixPutchar (current slot : Nat) (ch : UInt8) : UserProgram PUnit := do
  userStore slot ch
  let _ ← toyixWrite current fdStdout slot 1

def toyixWriteStr (current text : Nat) : UserProgram PUnit := do
  if text = 0 then pure ⟨⟩
  else
    let length ← toyixStrlen text
    let _ ← toyixWrite current fdStdout text length

def toyixPuts (current slot text : Nat) : UserProgram PUnit := do
  toyixWriteStr current text
  toyixPutchar current slot 10

/-- Characters put one after the other. -/
def putAll (current slot : Nat) : List UInt8 → UserProgram PUnit
  | [] => pure ⟨⟩
  | ch :: text => do
    toyixPutchar current slot ch
    putAll current slot text

/-- The characters that `toyix_write_int` puts. -/
def toyixWriteInt (value : Int32) : List Char :=
  if value < 0 then '-' :: Text.toyixWriteUint ((-(value + 1)).toUInt32 + 1)
  else Text.toyixWriteUint value.toUInt32

/-- The loop that fills the buffer of `toyix_write_hex`. -/
def fillNibbles : Nat → Nat → List Char
  | 0, _ => []
  | room + 1, value =>
    if value ≠ 0 then
      let nibble := value % 16
      (if nibble < 10 then Char.ofNat (48 + nibble) else Char.ofNat (97 + (nibble - 10))) ::
        fillNibbles room (value / 16)
    else []

/-- The characters that `toyix_write_hex` puts. -/
def toyixWriteHex (value : UInt32) : List Char :=
  if value = 0 then ['0'] else (fillNibbles 8 value.toNat).reverse

/-- `toyix_vprintf`, with the text of `"(null)"` at an address, the characters of the format, and the
arguments from `ap` on, each of which is a word of the stack. -/
def toyixVprintf (current slot nullText : Nat) : List UInt8 → List UInt32 → UserProgram PUnit
  | [], _ => pure ⟨⟩
  | ch :: format, ap =>
    if ch ≠ 37 then do
      toyixPutchar current slot ch
      toyixVprintf current slot nullText format ap
    else
      match format with
      | [] => toyixPutchar current slot 37
      | conversion :: format =>
        if conversion = 37 then do
          toyixPutchar current slot 37
          toyixVprintf current slot nullText format ap
        else if conversion = 99 then do
          toyixPutchar current slot (ap.headD 0).toUInt8
          toyixVprintf current slot nullText format ap.tail
        else if conversion = 100 then do
          putAll current slot ((toyixWriteInt (ap.headD 0).toInt32).map Char.toUInt8)
          toyixVprintf current slot nullText format ap.tail
        else if conversion = 117 then do
          putAll current slot ((Text.toyixWriteUint (ap.headD 0)).map Char.toUInt8)
          toyixVprintf current slot nullText format ap.tail
        else if conversion = 120 then do
          putAll current slot ((toyixWriteHex (ap.headD 0)).map Char.toUInt8)
          toyixVprintf current slot nullText format ap.tail
        else if conversion = 115 then do
          toyixWriteStr current (if ap.headD 0 ≠ 0 then (ap.headD 0).toNat else nullText)
          toyixVprintf current slot nullText format ap.tail
        else do
          toyixPutchar current slot 37
          toyixPutchar current slot conversion
          toyixVprintf current slot nullText format ap

/-! ## Stores and loads of a process -/

variable {image : Image} {held : Set Nat} {system : MemorySystem} {run next : Session} {current : Nat}
  {address text : Nat} {length : Nat}

/-- A store to pages of the current process is what user mode reads afterwards. -/
theorem stored_loaded_read (guarded : Guarded image held system)
    {object first count : Nat} {source : Nat → UInt8} {memory : Memory}
    (isCurrent : system.currentSpace = some object)
    (stored : Stored (userPages system object) first count source system.machine.memory memory)
    {x : Nat} {byte : UInt8} (reads : loadedRead system x = some byte) :
    loadedRead (system.withMachine { system.machine with memory := memory }) x =
      some (if first ≤ x ∧ x < first + count then source (x - first) else byte) := by
  obtain ⟨record, -, loaded, isDirectory⟩ := guarded.loaded_directory
  rw [← loaded] at isDirectory
  unfold loadedRead at reads
  split at reads
  · rename_i shown
    obtain ⟨bounded, mapped⟩ := shown
    have pageMapped := (user_mapped_page _ _ x).mpr mapped
    obtain ⟨other, isOther, inRange, owns⟩ := guarded.user_mapped_owned isDirectory (by omega)
      (Nat.mul_mod_left _ _) pageMapped
    obtain rfl := Option.some.inj (isCurrent.symm.trans isOther)
    have sameDirectory : memory.word system.machine.cr3 (directoryIndex (x / 4096 * 4096)) =
        system.machine.memory.word system.machine.cr3 (directoryIndex (x / 4096 * 4096)) := by
      refine (stored.outside system.machine.cr3 (guarded.owned.directory_aligned isDirectory)
        ?_).word inRange.table_range.lt
      intro virtualAddr ownsPage
      rw [isCurrent] at isDirectory
      exact Owner.noConfusion
        (guarded.owned.sound.single ownsPage (guarded.owned.directory_owner isDirectory))
    have entered := table_of_eq_some.mpr ⟨pageMapped.table, rfl⟩
    rw [isCurrent] at isDirectory
    have ownsTable := table_of_page inRange isDirectory entered
    have sameTable := (stored.outside _ (guarded.owned.permitted ownsTable).aligned (by
      intro virtualAddr ownsPage
      exact Owner.noConfusion (guarded.owned.sound.single ownsPage ownsTable))).word
        (table_index_lt (x / 4096 * 4096))
    have stillMapped : UserMapped memory system.machine.cr3 x := by
      rw [← user_mapped_page]
      obtain ⟨table, tableUser, page, pageUser⟩ := pageMapped
      constructor
      all_goals rw [sameDirectory]
      · exact table
      · exact tableUser
      · rw [sameTable]
        exact page
      · rw [sameTable]
        exact pageUser
    have sameEntry : pageEntry memory system.machine.cr3 x =
        pageEntry system.machine.memory system.machine.cr3 x := by
      rw [page_entry_page memory, page_entry_page system.machine.memory]
      refine page_entry_congr sameDirectory ?_
      intro table isTable
      rw [entered] at isTable
      obtain rfl := Option.some.inj isTable
      exact sameTable
    have position : x / 4096 * 4096 + x % 4096 = x := Nat.div_add_mod' x 4096
    have stores := stored.inside _ _ owns (x % 4096) (Nat.mod_lt x (by decide))
    rw [position, ← page_entry_page, Option.some.inj reads] at stores
    rw [loadedRead, if_pos ⟨bounded, stillMapped⟩]
    exact congrArg some ((congrArg (fun entry => memory.byte ((entry &&& x86PageFrameMask) + x % 4096))
      sameEntry).trans stores)
  · cases reads

/-- In every run, the bytes that `copy_to_user` has copied are those that `copy_from_user` brings
back, and no other process has changed. -/
theorem user_copy_round_trip {final : MemorySystem}
    (reached : AccessReachable image system) (userAddr size kernelSrc kernelDest : UInt32)
    (notNull : kernelDest.toNat ≠ 0) (positive : 0 < size.toNat) (source : Nat → UInt8)
    (copied : copyToUser userAddr.toNat kernelSrc.toNat size.toNat source system =
      .done usercopyOk final) :
    copyFromUser kernelDest.toNat userAddr.toNat size.toNat final =
        .done (usercopyOk, (List.range size.toNat).map source) final ∧
      ∀ object, system.currentSpace ≠ some object → userByte final object = userByte system object := by
  have guarded := reachable_guarded reached
  obtain ⟨result, memory, ran, effect⟩ := copy_to_user_run guarded kernelSrc.toNat source
    userAddr.toNat_lt size.toNat_lt
  obtain ⟨rfl, rfl⟩ := Outcome.done.inj (ran.symm.trans copied)
  rcases effect with ⟨fault, -⟩ | ⟨-, empty, -⟩ | ⟨-, mapped, object, range, stored⟩
  · exact absurd fault (by decide)
  · omega
  · constructor
    · have reads : ∀ i < size.toNat, loadedRead (system.withMachine
          { system.machine with memory := memory }) (userAddr.toNat + i) = some (source i) := by
        intro i inside
        obtain ⟨byte, before⟩ := Option.isSome_iff_exists.mp
          ((range_mapped_iff guarded _ positive).mp mapped i inside)
        rw [stored_loaded_read guarded range.current stored before, if_pos (by omega),
          Nat.add_sub_cancel_left]
      rcases copy_from_user_exact (guarded.store_user stored) notNull userAddr.toNat_lt
        size.toNat_lt positive with ⟨-, i, inside, unread⟩ | ⟨bytes, read, isBytes⟩
      · rw [reads i inside] at unread
        cases unread
      · have same : bytes.map some = ((List.range size.toNat).map source).map some := by
          rw [isBytes, List.map_map]
          exact List.map_congr_left fun i member => reads i (List.mem_range.mp member)
        rw [read, List.map_injective_iff.mpr (Option.some_injective UInt8) same]
    · intro other notCurrent
      refine (stored_user_byte guarded.toAccounted range.owned stored).2 other ?_
      rintro rfl
      exact notCurrent range.current

set_option maxRecDepth 100000 in
/-- Sixteen bytes are copied to a page and back. -/
theorem sixteen_bytes_round_trip : ∃ final, copyFromUser 1 0x01000FF0 16 final =
    .done (usercopyOk, (List.range 16).map UInt8.ofNat) final := by
  have completed : (smallAccessRun [.memory .create, .memory (.mapUserPage 0xD1000018 0x01000000),
      .memory (.switch (some 0xD1000018))]).map (fun system =>
        (copyToUser 0x01000FF0 1 16 UInt8.ofNat system).result.map Prod.fst) =
      some (some usercopyOk) := by decide +kernel
  obtain ⟨system, reached, copies⟩ := small_access_run_facts completed
  obtain ⟨final, copied⟩ := done_of_value copies
  exact ⟨final, (user_copy_round_trip reached 0x01000FF0 16 1 1 (by decide) (by decide) _ copied).1⟩

/-! ## Running user programs -/

theorem user_bind_done {α β : Type} {program : UserProgram α} {rest : α → UserProgram β} {value : α}
    (ran : program.run run = .done (some value) next) :
    (program >>= rest).run run = (rest value).run next := bind_done ran

theorem user_bind_ended {α β : Type} {program : UserProgram α} {rest : α → UserProgram β}
    (ran : program.run run = .done none next) : (program >>= rest).run run = .done none next :=
  bind_done ran

theorem on_kernel_done {α : Type} {program : KernelProgram α} {value : α} {kernel : Kernel}
    (done : program run.kernel = .done value kernel) :
    onKernel program run = .done value { run with kernel := kernel } := Program.within_done done

/-! ## The kernel's part -/

/-- The bytes of a range that can be read. -/
def rangeBytes (system : MemorySystem) (address count : Nat) : List UInt8 :=
  (List.range count).filterMap fun i => loadedRead system (address + i)

theorem range_bytes_of_map {count : Nat} {bytes : List UInt8}
    (isBytes : bytes.map some = (List.range count).map fun i => loadedRead system (address + i)) :
    rangeBytes system address count = bytes := by
  have mapped : ((List.range count).map fun i => loadedRead system (address + i)).filterMap id =
      rangeBytes system address count := by
    rw [List.filterMap_map]
    rfl
  rw [← mapped, ← isBytes, List.filterMap_map]
  exact List.filterMap_some

theorem range_bytes_length {count : Nat}
    (readable : ∀ i < count, (loadedRead system (address + i)).isSome) :
    (rangeBytes system address count).length = count := by
  induction count with
  | zero => rfl
  | succ count ih =>
    obtain ⟨byte, isByte⟩ := Option.isSome_iff_exists.mp (readable count (Nat.lt_succ_self count))
    have shorter := ih fun i inside => readable i (Nat.lt_succ_of_lt inside)
    rw [rangeBytes] at shorter ⊢
    rw [List.range_succ, List.filterMap_append, List.length_append, shorter]
    simp [isByte]

theorem console_write_n_run (text : List UInt8) :
    consoleRawWriteN text run = .done ⟨⟩ { run with console := run.console ++ text } := by
  induction text generalizing run with
  | nil => simp [consoleRawWriteN]
  | cons ch text ih =>
    rw [consoleRawWriteN, bind_apply, consoleRawPutc, Program.update_apply, andThen_done, ih]
    simp

/-- `syscall_write` of a readable range shows as much of it as the kernel takes at once. -/
theorem syscall_write_run (guarded : Guarded image held run.kernel.memory) {userBuf : Nat}
    (addrBounded : userBuf < 2 ^ 32)
    (readable : ∀ i < min length 256, (loadedRead run.kernel.memory (userBuf + i)).isSome) :
    syscallWrite fdStdout userBuf length run = .done (min length 256)
      { run with console := run.console ++ rangeBytes run.kernel.memory userBuf (min length 256) } := by
  have isMin : (if length > syscallRwMax then syscallRwMax else length) = min length 256 := by
    have isMax : syscallRwMax = 256 := rfl
    by_cases long : length > syscallRwMax
    · rw [if_pos long]
      omega
    · rw [if_neg long]
      omega
  have isOut : ¬ (fdStdout ≠ fdStdout ∧ fdStdout ≠ fdStderr) := fun both => both.1 rfl
  rw [syscallWrite, if_neg isOut]
  dsimp only
  rw [isMin]
  by_cases empty : min length 256 = 0
  · rw [if_pos empty, empty]
    simp [rangeBytes]
  · rw [if_neg empty]
    have notNull : stackVariable ≠ 0 := by decide
    have sizeBounded : min length 256 < 2 ^ 32 := by omega
    rcases copy_from_user_exact guarded notNull addrBounded sizeBounded (by omega) with
      ⟨-, i, inside, hidden⟩ | ⟨bytes, copied, isBytes⟩
    · have shown := readable i inside
      rw [hidden] at shown
      cases shown
    · rw [bind_done (on_kernel_done (on_memory_done copied))]
      dsimp only
      rw [if_neg (fun absurd => absurd rfl), bind_done (console_write_n_run bytes),
        range_bytes_of_map isBytes]
      rfl

/-! ## A whole call -/

theorem finish_or_kill_alive (checked : Checked run.kernel.files.table current)
    (notKilled : (run.kernel.files.table.objects current).killRequested = false) :
    finishOrKill current run = .done false run :=
  on_kernel_done (on_files_done (Checked.finish_or_kill checked notKilled))

theorem finish_or_kill_killed (checked : Checked run.kernel.files.table current)
    (killed : (run.kernel.files.table.objects current).killRequested = true) :
    ∃ kernel, finishOrKill current run = .done true { run with kernel := kernel } := by
  have ends : syscallFinishOrKill current run.kernel.files.table =
      .done true (run.kernel.files.table.ended current processKilledExitCode) := by
    simp only [syscallFinishOrKill, checked.notNull, ↓reduceIte, bind_apply,
      processKillRequested, checked.validate_live_process, andThen_done, readProcess_apply,
      pure_apply, killed, process_exit_run checked.notNull]
  have onTables : Files.onTable (syscallFinishOrKill current) run.kernel.files =
      .done true { run.kernel.files with
        table := run.kernel.files.table.ended current processKilledExitCode } := by
    simp only [Files.onTable, ends]
  exact ⟨_, on_kernel_done (on_files_done onTables)⟩

/-- `toyix_strlen` finds the length of a string, by induction on what is left of it. -/
theorem strlen_from_run (fuel len : Nat)
    (string : StringAt (loadedRead run.kernel.memory) (text + len) length)
    (small : text + len + length < 2 ^ 32) (enough : length < fuel) :
    (strlenFrom text fuel len).run run = .done (some (len + length)) run := by
  induction length generalizing fuel len with
  | zero =>
    cases fuel with
    | zero => exact absurd enough (Nat.not_lt_zero _)
    | succ fuel =>
      have inside : text + len < 2 ^ 32 := small
      have isNul : loadedRead run.kernel.memory (text + len) = some 0 := string.terminator
      simp only [strlenFrom, OptionT.run_mk, bind_apply, current_apply,
        andThen_done, Nat.mod_eq_of_lt inside, isNul, ne_eq, not_true_eq_false,
        ↓reduceIte, pure_apply, Nat.add_zero]
  | succ length ih =>
    cases fuel with
    | zero => exact absurd enough (Nat.not_lt_zero _)
    | succ fuel =>
      obtain ⟨byte, isByte, notNul⟩ := string.before 0 (Nat.succ_pos length)
      rw [Nat.add_zero] at isByte
      have inside : text + len < 2 ^ 32 := by omega
      have later := ih fuel (len + 1) string.tail (by omega) (by omega)
      simp only [strlenFrom, OptionT.run_mk, bind_apply, current_apply, andThen_done,
        Nat.mod_eq_of_lt inside, isByte, ne_eq, notNul, not_false_eq_true, ↓reduceIte]
      rw [later, Nat.add_assoc, Nat.add_comm 1 length]

/-- A string that can be read lies below the kernel. -/
theorem string_below (guarded : Guarded image held system)
    (string : StringAt (loadedRead system) address length) : address + length < 0xC0000000 := by
  obtain ⟨-, -, -, below⟩ := loaded_read_owned guarded string.terminator
  exact below

theorem toyix_strlen_run (guarded : Guarded image held run.kernel.memory)
    (string : StringAt (loadedRead run.kernel.memory) text length) (notNull : text ≠ 0) :
    (toyixStrlen text).run run = .done (some length) run := by
  have below := string_below guarded string
  have ran := strlen_from_run (2 ^ 32) 0 string (by omega) (by omega)
  rw [Nat.zero_add] at ran
  rw [toyixStrlen, if_neg notNull]
  exact ran

/-- Nothing can be read at the null pointer. -/
theorem loaded_read_not_null (guarded : Guarded image held system) {x : Nat}
    (readable : (loadedRead system x).isSome) : x ≠ 0 := by
  obtain ⟨record, -, loaded, isDirectory⟩ := guarded.loaded_directory
  rw [← loaded] at isDirectory
  rintro rfl
  rw [loaded_read_isSome (by decide)] at readable
  obtain ⟨object, -, inRange, -⟩ := guarded.user_mapped_owned isDirectory (by decide) rfl readable
  have low := inRange.2.1
  omega

section Alive

variable (guarded : Guarded image held run.kernel.memory)
  (checked : Checked run.kernel.files.table current)
  (notKilled : (run.kernel.files.table.objects current).killRequested = false)

include guarded checked notKilled

/-- `toyix_write` of a readable range by a process that is not killed. -/
theorem toyix_write_run {buffer : Nat} (addrBounded : buffer < 2 ^ 32)
    (readable : ∀ i < min length 256, (loadedRead run.kernel.memory (buffer + i)).isSome) :
    (toyixWrite current fdStdout buffer length).run run = .done (some (min length 256))
      { run with console := run.console ++ rangeBytes run.kernel.memory buffer (min length 256) } := by
  have wrote := syscall_write_run guarded addrBounded readable
  have before := finish_or_kill_alive checked notKilled
  have after (console : List UInt8) : finishOrKill current { run with console := console } =
      .done false { run with console := console } := finish_or_kill_alive checked notKilled
  simp only [toyixWrite, OptionT.run_mk, bind_apply, before, andThen_done,
    Bool.false_eq_true, ↓reduceIte, wrote, after, pure_apply]

/-- `toyix_write_str` by a process that is not killed shows the start of the string. -/
theorem write_str_run (string : StringAt (loadedRead run.kernel.memory) text length) :
    (toyixWriteStr current text).run run = .done (some ⟨⟩)
      { run with console := run.console ++ rangeBytes run.kernel.memory text (min length 256) } := by
  have notNull : text ≠ 0 := loaded_read_not_null guarded (string.readable (Nat.zero_le length))
  have below := string_below guarded string
  rw [toyixWriteStr, if_neg notNull, user_bind_done (toyix_strlen_run guarded string notNull),
    user_bind_done (toyix_write_run guarded checked notKilled (by omega) ?_)]
  · rfl
  · intro i inside
    exact string.readable (by omega)

/-- `toyix_putchar` by a process that is not killed shows the character. -/
theorem putchar_run {slot : Nat} (readable : (loadedRead run.kernel.memory slot).isSome) (ch : UInt8) :
    ∃ memory, (toyixPutchar current slot ch).run run = .done (some ⟨⟩)
      ⟨{ run.kernel with memory := memory }, run.console ++ [ch]⟩ := by
  obtain ⟨byte, reads⟩ := Option.isSome_iff_exists.mp readable
  obtain ⟨-, -, -, below⟩ := loaded_read_owned guarded reads
  have mapped : RangeMapped run.kernel.memory slot [ch].length := by
    refine (range_mapped_iff guarded slot (Nat.succ_pos 0)).mpr ?_
    intro i inside
    obtain rfl : i = 0 := Nat.lt_one_iff.mp inside
    exact readable
  have addrBounded : slot < 2 ^ 32 := by omega
  have sizeBounded : [ch].length < 2 ^ 32 := by rw [List.length_singleton]; decide
  rcases copy_bytes_exact guarded [ch] addrBounded sizeBounded with
    ⟨closed, -⟩ | ⟨-, memory, copied, stored⟩
  · exact absurd (Or.inr mapped) closed
  · cases stored with
    | nothing empty => cases empty
    | bytes isCurrent stored =>
      rename_i object memory
      have reads' := stored_loaded_read guarded isCurrent stored reads
      rw [if_pos ⟨Nat.le_refl slot, Nat.lt_succ_self slot⟩, Nat.sub_self] at reads'
      have guarded' := guarded.store_user stored
      generalize run.kernel.memory.withMachine { run.kernel.memory.machine with memory := memory } =
        final at *
      have storeRan : (userStore slot ch).run run =
          .done (some ⟨⟩) { run with kernel := { run.kernel with memory := final } } := by
        rw [userStore, OptionT.run_mk, bind_done (on_kernel_done copied)]
        rfl
      have readable' : ∀ i < min 1 256, (loadedRead final (slot + i)).isSome := by
        intro i inside
        obtain rfl : i = 0 := by omega
        rw [Nat.add_zero, reads']
        rfl
      have writeRan : (toyixWrite current fdStdout slot 1).run
          ⟨{ run.kernel with memory := final }, run.console⟩ = .done (some (min 1 256))
            ⟨{ run.kernel with memory := final }, run.console ++ rangeBytes final slot (min 1 256)⟩ :=
        @toyix_write_run image held ⟨{ run.kernel with memory := final }, run.console⟩ current 1 guarded'
          checked notKilled slot addrBounded readable'
      have isText : rangeBytes final slot (min 1 256) = [ch] := by
        simp [rangeBytes, List.range_succ, reads']
      refine ⟨final, ?_⟩
      rw [toyixPutchar, user_bind_done storeRan, user_bind_done writeRan, isText]
      rfl

end Alive

section Killed

variable (checked : Checked run.kernel.files.table current)
  (killed : (run.kernel.files.table.objects current).killRequested = true)

include checked killed

/-- `toyix_write` by a process that is killed. -/
theorem toyix_write_killed (fd buffer length : Nat) :
    ∃ kernel, (toyixWrite current fd buffer length).run run = .done none { run with kernel := kernel } := by
  obtain ⟨kernel, ends⟩ := finish_or_kill_killed checked killed
  refine ⟨kernel, ?_⟩
  simp only [toyixWrite, OptionT.run_mk, bind_apply, ends, andThen_done, ↓reduceIte, pure_apply]

/-- `toyix_write_str` by a process that is killed shows nothing. -/
theorem write_str_killed (guarded : Guarded image held run.kernel.memory)
    (string : StringAt (loadedRead run.kernel.memory) text length) :
    ∃ kernel, (toyixWriteStr current text).run run = .done none { run with kernel := kernel } := by
  have notNull : text ≠ 0 := loaded_read_not_null guarded (string.readable (Nat.zero_le length))
  obtain ⟨kernel, ends⟩ := toyix_write_killed checked killed fdStdout text length
  refine ⟨kernel, ?_⟩
  rw [toyixWriteStr, if_neg notNull, user_bind_done (toyix_strlen_run guarded string notNull),
    user_bind_ended ends]

end Killed

/-! ## Complete output -/

/-- As much of a string as the kernel takes at once is all of it for a string that is short enough. -/
theorem shown_complete_iff (string : StringAt (loadedRead system) address length)
    (before after : List UInt8) :
    before ++ rangeBytes system address (min length 256) ++ after =
      before ++ rangeBytes system address length ++ after ↔ length ≤ 256 := by
  constructor
  · intro same
    have lengths := congrArg List.length same
    simp only [List.length_append] at lengths
    rw [range_bytes_length fun i inside => string.readable (by omega),
      range_bytes_length fun i inside => string.readable (by omega)] at lengths
    omega
  · intro short
    rw [Nat.min_eq_left short]

/-- The `%s` conversion of `toyix_vprintf` is a call of `toyix_write_str`. -/
theorem vprintf_string (current slot nullText : Nat) (format : List UInt8) {text : UInt32}
    (notNull : text ≠ 0) (ap : List UInt32) :
    toyixVprintf current slot nullText (37 :: 115 :: format) (text :: ap) = (do
      toyixWriteStr current text.toNat
      toyixVprintf current slot nullText format ap) := by
  rw [toyixVprintf]
  simp [notNull]

/-- `toyix_write_str`: complete exactly for a short string of a process that is not killed, and for the
empty string. -/
theorem write_str_complete_iff (guarded : Guarded image held run.kernel.memory)
    (checked : Checked run.kernel.files.table current)
    (string : StringAt (loadedRead run.kernel.memory) text length) :
    ∃ result next, (toyixWriteStr current text).run run = .done result next ∧
      (next.console = run.console ++ rangeBytes run.kernel.memory text length ↔
        length = 0 ∨ length ≤ 256 ∧
          (run.kernel.files.table.objects current).killRequested = false) := by
  have readable : ∀ i < length, (loadedRead run.kernel.memory (text + i)).isSome :=
    fun i inside => string.readable (Nat.le_of_lt inside)
  cases killed : (run.kernel.files.table.objects current).killRequested with
  | true =>
    obtain ⟨kernel, ends⟩ := write_str_killed checked killed guarded string
    refine ⟨none, _, ends, ?_⟩
    have isLength := range_bytes_length readable
    constructor
    · intro same
      have nothing := List.self_eq_append_right.mp same
      rw [nothing] at isLength
      exact Or.inl isLength.symm
    · rintro (rfl | ⟨-, absurd⟩)
      · exact (List.append_nil _).symm
      · cases absurd
  | false =>
    refine ⟨some ⟨⟩, _, write_str_run guarded checked killed string, ?_⟩
    have complete := shown_complete_iff string run.console []
    rw [List.append_nil, List.append_nil] at complete
    constructor
    · intro same
      exact Or.inr ⟨complete.mp same, rfl⟩
    · rintro (rfl | ⟨short, -⟩)
      · exact complete.mpr (by decide)
      · exact complete.mpr short

/-- `toyix_puts`: complete exactly for a short string of a process that is not killed. -/
theorem puts_complete_iff {slot : Nat} (guarded : Guarded image held run.kernel.memory)
    (checked : Checked run.kernel.files.table current)
    (string : StringAt (loadedRead run.kernel.memory) text length)
    (stack : (loadedRead run.kernel.memory slot).isSome) :
    ∃ result next, (toyixPuts current slot text).run run = .done result next ∧
      (next.console = run.console ++ rangeBytes run.kernel.memory text length ++ [10] ↔
        length ≤ 256 ∧ (run.kernel.files.table.objects current).killRequested = false) := by
  cases killed : (run.kernel.files.table.objects current).killRequested with
  | true =>
    obtain ⟨kernel, ends⟩ := write_str_killed checked killed guarded string
    refine ⟨none, _, user_bind_ended ends, ?_⟩
    constructor
    · intro same
      have lengths := congrArg List.length same
      simp only [List.length_append, List.length_singleton] at lengths
      omega
    · rintro ⟨-, absurd⟩
      cases absurd
  | false =>
    have wrote := write_str_run guarded checked killed string
    obtain ⟨memory, put⟩ := @putchar_run image held
      { run with console := run.console ++ rangeBytes run.kernel.memory text (min length 256) } current
      guarded checked killed slot stack 10
    refine ⟨some ⟨⟩, _, (user_bind_done wrote).trans put, ?_⟩
    rw [← shown_complete_iff string run.console [10]]
    exact ⟨fun same => ⟨same, rfl⟩, fun both => both.1⟩

/-- For every string in the memory of a process: `toyix_write_str` and the `%s` conversion show all of
it exactly when it has at most 256 characters and the process is not being killed, or is empty;
`toyix_puts` shows all of it and the end of the line exactly when it has at most 256 characters and the
process is not being killed.

Proof: the library finds the length of the string and passes all of it to the kernel, which shows the
first 256 characters. The range it copies can be read, so that the copy succeeds. -/
theorem text_output_complete_iff (image : Image) (run : Session)
    (reached : AccessReachable image run.kernel.memory) (current : Nat)
    (checked : Checked run.kernel.files.table current) (text slot : UInt32) (length : Nat)
    (string : StringAt (loadedRead run.kernel.memory) text.toNat length)
    (stack : (loadedRead run.kernel.memory slot.toNat).isSome) :
    (∃ result next, (toyixWriteStr current text.toNat).run run = .done result next ∧
      (next.console = run.console ++ rangeBytes run.kernel.memory text.toNat length ↔
        length = 0 ∨ length ≤ 256 ∧
          (run.kernel.files.table.objects current).killRequested = false)) ∧
    (∃ result next, (toyixPuts current slot.toNat text.toNat).run run = .done result next ∧
      (next.console = run.console ++ rangeBytes run.kernel.memory text.toNat length ++ [10] ↔
        length ≤ 256 ∧ (run.kernel.files.table.objects current).killRequested = false)) ∧
    (∀ nullText, ∃ result next,
      (toyixVprintf current slot.toNat nullText [37, 115] [text]).run run = .done result next ∧
      (next.console = run.console ++ rangeBytes run.kernel.memory text.toNat length ↔
        length = 0 ∨ length ≤ 256 ∧
          (run.kernel.files.table.objects current).killRequested = false)) := by
  have guarded := reachable_guarded reached
  have wrote := write_str_complete_iff guarded checked string
  refine ⟨wrote, puts_complete_iff guarded checked string stack, ?_⟩
  intro nullText
  have notNull : text ≠ 0 := by
    rintro rfl
    exact loaded_read_not_null guarded (string.readable (Nat.zero_le length)) rfl
  obtain ⟨result, next, ran, complete⟩ := wrote
  refine ⟨result, next, ?_, complete⟩
  rw [vprintf_string current slot.toNat nullText [] notNull []]
  cases result with
  | none => exact user_bind_ended ran
  | some value => exact (user_bind_done ran).trans rfl

/-! ## A process with a string -/

/-- A process has stored a string of the letter `a` at the start of its page. -/
def writerRun (count : UInt32) : Option MemorySystem :=
  smallAccessRun [.memory .create, .memory (.mapUserPage 0xD1000018 0x01000000),
    .memory (.switch (some 0xD1000018)),
    .copyToUser 0x01000000 1 (count + 1) fun i => if i < count.toNat then 97 else 0]

/-- A process that is not killed has a string of a length, and a stack. -/
structure Writer (run : Session) (length : Nat) : Prop where
  memory : AccessReachable smallImage run.kernel.memory
  checked : Checked run.kernel.files.table 0x1000
  notKilled : (run.kernel.files.table.objects 0x1000).killRequested = false
  string : StringAt (loadedRead run.kernel.memory) 0x01000000 length
  stack : (loadedRead run.kernel.memory 0x01000FFC).isSome

theorem writer_exists (count : UInt32) (stored : (writerRun count).map (fun system =>
    ((List.range count.toNat).all fun i => loadedRead system (0x01000000 + i) = some 97,
      loadedRead system (0x01000000 + count.toNat), (loadedRead system 0x01000FFC).isSome)) =
        some (true, some 0, true)) : ∃ run, Writer run count.toNat := by
  obtain ⟨memory, reached, isStored⟩ := small_access_run_facts stored
  obtain ⟨letters, isStored⟩ := Prod.mk.inj isStored
  obtain ⟨terminator, stack⟩ := Prod.mk.inj isStored
  obtain ⟨reader, isReader⟩ := reader_exists
  refine ⟨⟨⟨reader.files, memory⟩, []⟩, ?_⟩
  constructor
  · exact reached
  · exact isReader.files.checked
  · exact isReader.files.notKilled
  · constructor
    · intro i inside
      have isLetter := List.all_eq_true.mp letters i (List.mem_range.mpr inside)
      exact ⟨97, of_decide_eq_true isLetter, by decide⟩
    · exact terminator
  · exact stack

set_option maxRecDepth 100000 in
/-- Two characters are shown. -/
theorem text_output_short : ∃ run result next, Writer run 2 ∧
    (toyixWriteStr 0x1000 0x01000000).run run = .done result next ∧
    next.console = run.console ++ rangeBytes run.kernel.memory 0x01000000 2 := by
  obtain ⟨run, writer⟩ := writer_exists 2 (by decide +kernel)
  obtain ⟨⟨result, next, ran, complete⟩, -⟩ := text_output_complete_iff smallImage run
    writer.memory 0x1000 writer.checked 0x01000000 0x01000FFC 2 writer.string writer.stack
  exact ⟨run, result, next, writer, ran, complete.mpr (Or.inr ⟨by decide, writer.notKilled⟩)⟩

set_option maxRecDepth 100000 in
/-- The last of 257 characters is not shown. -/
theorem long_text_cut : ∃ run next, Writer run 257 ∧
    (toyixWriteStr 0x1000 0x01000000).run run = .done (some ⟨⟩) next ∧
    next.console = run.console ++ rangeBytes run.kernel.memory 0x01000000 256 ∧
    next.console ≠ run.console ++ rangeBytes run.kernel.memory 0x01000000 257 := by
  obtain ⟨run, writer⟩ := writer_exists 257 (by decide +kernel)
  have guarded := reachable_guarded writer.memory
  have ran := write_str_run guarded writer.checked writer.notKilled writer.string
  refine ⟨run, _, writer, ran, rfl, ?_⟩
  intro same
  have complete := shown_complete_iff writer.string run.console []
  rw [List.append_nil, List.append_nil] at complete
  exact absurd (complete.mp same) (by decide)

end Toyix.User
