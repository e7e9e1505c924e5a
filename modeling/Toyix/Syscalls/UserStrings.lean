import Toyix.Library.Strings
import Toyix.Paging.Guards

/-!
# Strings from user memory

`syscall_copy_user_string` of `kernel/syscall.c` brings paths, program names and arguments into a
kernel buffer. `user_string_length` of `kernel/usercopy.c` looks for the terminator one byte at a
time; then the string is copied with its terminator in one piece, after a second check of its range.

What the processor lets user mode read with the loaded directory is a partial memory, and both
functions depend on it alone.
-/

namespace Toyix.Syscalls

open Library Paging Pmm

variable {image : Image} {held : Set Nat} {system : MemorySystem}

/-! ## `usercopy.c` and `syscall.c` -/

def usercopyErrTooLong : Int := -2

/-- The address of a variable on the kernel stack. -/
def stackVariable : Nat := 1

/-- The loop of `user_string_length` from index `i` on. -/
def scanString (userStr : Nat) : Nat → Nat → MemoryProgram (Int × Nat)
  | 0, _ => pure (usercopyErrTooLong, 0)
  | remaining + 1, i => do
    let (code, bytes) ← copyFromUser stackVariable ((userStr + i) % 2 ^ 32) 1
    if code ≠ usercopyOk then pure (usercopyErrFault, 0)
    else if bytes = [0] then pure (usercopyOk, i)
    else scanString userStr remaining (i + 1)

/-- `user_string_length`, with the length. -/
def userStringLength (userStr maxLen : Nat) : MemoryProgram (Int × Nat) :=
  scanString userStr maxLen 0

/-- `syscall_copy_user_string`, with the bytes written to the buffer from its start on. -/
def syscallCopyUserString (userStr kernelBuffer kernelBufferSize : Nat) :
    MemoryProgram (Int × List UInt8) := do
  if userStr = 0 ∨ kernelBuffer = 0 ∨ kernelBufferSize = 0 then pure (-1, [])
  else
    let (code, length) ← userStringLength userStr kernelBufferSize
    if code ≠ usercopyOk then pure (-1, [])
    else if (length + 1) % 2 ^ 32 > kernelBufferSize then pure (-1, [])
    else
      let (code, bytes) ← copyFromUser kernelBuffer userStr ((length + 1) % 2 ^ 32)
      if code ≠ usercopyOk then pure (-1, [])
      else pure (0, bytes)

/-! ## Copies, byte by byte -/

/-- What user mode reads with the loaded directory. -/
def loadedRead (system : MemorySystem) (x : Nat) : Option UInt8 :=
  if x < 2 ^ 32 ∧ UserMapped system.machine.memory system.machine.cr3 x then
    some (system.machine.memory.byte
      ((pageEntry system.machine.memory system.machine.cr3 x &&& x86PageFrameMask) + x % 4096))
  else none

/-- The processor opens whole pages. -/
theorem user_mapped_page (memory : Memory) (directory x : Nat) :
    UserMapped memory directory (x / 4096 * 4096) ↔ UserMapped memory directory x := by
  have sameDirectory : directoryIndex (x / 4096 * 4096) = directoryIndex x := by
    rw [directory_index_eq, directory_index_eq]
    omega
  have sameTable : tableIndex (x / 4096 * 4096) = tableIndex x := by
    rw [table_index_eq, table_index_eq]
    omega
  constructor
  · rintro ⟨table, tableUser, page, pageUser⟩
    rw [sameDirectory] at table tableUser
    rw [sameDirectory, sameTable] at page pageUser
    exact ⟨table, tableUser, page, pageUser⟩
  · rintro ⟨table, tableUser, page, pageUser⟩
    rw [← sameDirectory] at table tableUser
    rw [← sameDirectory, ← sameTable] at page pageUser
    exact ⟨table, tableUser, page, pageUser⟩

/-- What can be read belongs to the current process and lies in the user range. -/
theorem loaded_read_owned (guarded : Guarded image held system) {x : Nat} {byte : UInt8}
    (reads : loadedRead system x = some byte) :
    ∃ object, system.currentSpace = some object ∧ userByte system object x = some byte ∧
      x < 0xC0000000 := by
  obtain ⟨record, -, loaded, isDirectory⟩ := guarded.loaded_directory
  rw [← loaded] at isDirectory
  unfold loadedRead at reads
  split at reads
  · rename_i shown
    obtain ⟨_, mapped⟩ := shown
    obtain ⟨object, isCurrent, inRange, owns⟩ := guarded.user_mapped_owned isDirectory (by omega)
      (Nat.mul_mod_left _ _) ((user_mapped_page _ _ x).mpr mapped)
    refine ⟨object, isCurrent, ?_, ?_⟩
    · rw [userByte, userPages, owns, ← page_entry_page, Option.map_some]
      exact reads
    · obtain ⟨-, -, high⟩ := inRange
      omega
  · cases reads

theorem loaded_read_isSome {x : Nat} (bounded : x < 2 ^ 32) :
    (loadedRead system x).isSome ↔ UserMapped system.machine.memory system.machine.cr3 x := by
  unfold loadedRead
  split
  · rename_i shown
    exact iff_of_true rfl shown.2
  · rename_i hidden
    exact iff_of_false (by decide) fun mapped => hidden ⟨bounded, mapped⟩

section Guarded

variable (guarded : Guarded image held system)

include guarded

/-- A range passes the check of `user_range_accessible` when each of its bytes can be read. -/
theorem range_mapped_iff (userAddr : Nat) {size : Nat} (positive : 0 < size) :
    RangeMapped system userAddr size ↔ ∀ i < size, (loadedRead system (userAddr + i)).isSome := by
  constructor
  · rintro ⟨total, pages⟩ i inside
    rw [loaded_read_isSome (by omega), ← user_mapped_page]
    exact pages _ (Nat.mul_mod_left _ _) (by omega) (by omega)
  · intro shown
    have total : userAddr + size < 2 ^ 32 := by
      obtain ⟨byte, reads⟩ := Option.isSome_iff_exists.mp (shown (size - 1) (by omega))
      obtain ⟨-, -, -, low⟩ := loaded_read_owned guarded reads
      omega
    refine ⟨total, ?_⟩
    intro page aligned low high
    -- A byte of the range that lies in the page.
    obtain ⟨i, inside, isPage⟩ : ∃ i < size, (userAddr + i) / 4096 * 4096 = page := by
      by_cases starts : userAddr ≤ page
      · exact ⟨page - userAddr, by omega, by omega⟩
      · exact ⟨0, positive, by omega⟩
    have reads := (loaded_read_isSome (by omega)).mp (shown i inside)
    rw [← user_mapped_page, isPage] at reads
    exact reads

/-- `copy_from_user` copies a range whose bytes can all be read, and refuses any other. -/
theorem copy_from_user_exact {kernelDest userSrc size : Nat} (notNull : kernelDest ≠ 0)
    (addrBounded : userSrc < 2 ^ 32) (sizeBounded : size < 2 ^ 32) (positive : 0 < size) :
    (copyFromUser kernelDest userSrc size system = .done (usercopyErrFault, []) system ∧
        ∃ i < size, loadedRead system (userSrc + i) = none) ∨
      ∃ bytes, copyFromUser kernelDest userSrc size system = .done (usercopyOk, bytes) system ∧
        bytes.map some = (List.range size).map fun i => loadedRead system (userSrc + i) := by
  have mapped := range_mapped_iff guarded userSrc positive
  obtain ⟨result, bytes, ran, effect⟩ := copy_from_user_run guarded kernelDest addrBounded
    sizeBounded
  rcases effect with ⟨rfl, rfl, closed⟩ | ⟨-, empty, -⟩ | ⟨rfl, isMapped, object, range, isBytes⟩
  · refine .inl ⟨ran, ?_⟩
    by_contra readable
    simp only [not_exists, not_and] at readable
    have all : ∀ i < size, (loadedRead system (userSrc + i)).isSome :=
      fun i inside => Option.isSome_iff_ne_none.mpr (readable i inside)
    exact closed notNull (mapped.mpr all)
  · omega
  · refine .inr ⟨bytes, ran, ?_⟩
    rw [isBytes]
    apply List.map_congr_left
    intro i inside
    obtain ⟨byte, reads⟩ := Option.isSome_iff_exists.mp
      (mapped.mp isMapped i (List.mem_range.mp inside))
    obtain ⟨other, isOther, isByte, -⟩ := loaded_read_owned guarded reads
    obtain rfl : other = object := Option.some.inj (isOther.symm.trans range.current)
    rw [isByte, reads]

/-! ## Strings -/

/-- The scan finds the string that starts where it stands, or there is none that is short enough.

Proof: by induction on the bytes that remain. A byte that can be read lies in the user range, so the
next address does not wrap. -/
theorem scan_string_run (userStr : Nat) (remaining : Nat) : ∀ i, userStr + i < 2 ^ 32 →
      (∃ length < remaining, StringAt (loadedRead system) (userStr + i) length ∧
        scanString userStr remaining i system = .done (usercopyOk, i + length) system) ∨
      (∃ code, code ≠ usercopyOk ∧
        scanString userStr remaining i system = .done (code, 0) system ∧
        ∀ length < remaining, ¬ StringAt (loadedRead system) (userStr + i) length) := by
  induction remaining with
  | zero =>
    intro i _
    refine .inr ⟨usercopyErrTooLong, by decide, rfl, ?_⟩
    intro length absurd
    exact (Nat.not_lt_zero _ absurd).elim
  | succ remaining ih =>
    intro i bounded
    have one : 1 < 2 ^ 32 := by decide
    have notNull : stackVariable ≠ 0 := by decide
    rcases copy_from_user_exact guarded notNull bounded one Nat.one_pos with
      ⟨copied, j, isFirst, hidden⟩ | ⟨bytes, copied, isBytes⟩
    · refine .inr ⟨usercopyErrFault, by decide, ?_, ?_⟩
      · rw [scanString, Nat.mod_eq_of_lt bounded, bind_done copied]
        rfl
      · intro length _ string
        obtain rfl : j = 0 := Nat.lt_one_iff.mp isFirst
        have readable := string.readable (Nat.zero_le length)
        rw [hidden] at readable
        cases readable
    · obtain ⟨byte, rfl⟩ : ∃ byte, bytes = [byte] := by
        have one := congrArg List.length isBytes
        rw [List.length_map, List.length_map, List.length_range] at one
        exact List.length_eq_one_iff.mp one
      have reads : loadedRead system (userStr + i) = some byte := (List.cons.inj isBytes).1.symm
      by_cases isZero : byte = 0
      · subst isZero
        refine .inl ⟨0, Nat.succ_pos _, .nil reads, ?_⟩
        rw [scanString, Nat.mod_eq_of_lt bounded, bind_done copied]
        rfl
      · obtain ⟨-, -, -, low⟩ := loaded_read_owned guarded reads
        have goesOn : scanString userStr (remaining + 1) i system =
            scanString userStr remaining (i + 1) system := by
          have notEnd : ¬ [byte] = [0] := fun same => isZero (List.cons.inj same).1
          rw [scanString, Nat.mod_eq_of_lt bounded, bind_done copied]
          simp only [ne_eq, not_true_eq_false, ↓reduceIte, notEnd]
        rw [goesOn]
        rcases ih (i + 1) (by omega) with
          ⟨length, short, string, ran⟩ | ⟨code, failed, ran, none⟩
        · refine .inl ⟨length + 1, Nat.succ_lt_succ short, string.cons reads isZero, ?_⟩
          rw [ran, Nat.add_assoc, Nat.add_comm 1 length]
        · refine .inr ⟨code, failed, ran, ?_⟩
          intro length short string
          cases length with
          | zero =>
            have isEnd := string.terminator
            rw [Nat.add_zero, reads] at isEnd
            exact isZero (Option.some.inj isEnd)
          | succ length => exact none length (Nat.lt_of_succ_lt_succ short) string.tail

/-- The string at an address is copied, or there is none that fits and nothing is written. -/
theorem copy_user_string_run {userStr kernelBuffer kernelBufferSize : Nat}
    (notNull : kernelBuffer ≠ 0) (addrBounded : userStr < 2 ^ 32)
    (sizeBounded : kernelBufferSize < 2 ^ 32) (positive : 0 < kernelBufferSize) :
    (∃ length < kernelBufferSize, userStr ≠ 0 ∧ StringAt (loadedRead system) userStr length ∧
      ∃ bytes, syscallCopyUserString userStr kernelBuffer kernelBufferSize system =
          .done (0, bytes) system ∧
        bytes.map some = (List.range (length + 1)).map fun i => loadedRead system (userStr + i)) ∨
    (syscallCopyUserString userStr kernelBuffer kernelBufferSize system = .done (-1, []) system ∧
      ¬ (userStr ≠ 0 ∧ ∃ length < kernelBufferSize,
        StringAt (loadedRead system) userStr length)) := by
  unfold syscallCopyUserString
  by_cases isNull : userStr = 0
  · refine .inr ⟨by simp only [isNull, true_or, ↓reduceIte, pure_apply], ?_⟩
    exact fun found => found.1 isNull
  · have proceeds : ¬ (userStr = 0 ∨ kernelBuffer = 0 ∨ kernelBufferSize = 0) := by
      rintro (absurd | absurd | absurd)
      · exact isNull absurd
      · exact notNull absurd
      · omega
    rw [if_neg proceeds]
    rcases scan_string_run guarded userStr kernelBufferSize 0 addrBounded with
      ⟨length, short, string, ran⟩ | ⟨code, failed, ran, none⟩
    · rw [Nat.add_zero] at string
      have scanned : userStringLength userStr kernelBufferSize system =
          .done (usercopyOk, length) system := by
        rw [userStringLength, ran, Nat.zero_add]
      have fits : length + 1 < 2 ^ 32 := by omega
      have enough : ¬ length + 1 > kernelBufferSize := by omega
      rcases copy_from_user_exact guarded notNull addrBounded fits (Nat.succ_pos length) with
        ⟨-, i, inside, hidden⟩ | ⟨bytes, copied, isBytes⟩
      · have readable := string.readable (Nat.le_of_lt_succ inside)
        rw [hidden] at readable
        cases readable
      · refine .inl ⟨length, short, isNull, string, bytes, ?_, isBytes⟩
        rw [bind_done scanned]
        simp only [Nat.mod_eq_of_lt fits, ne_eq, not_true_eq_false, ↓reduceIte, enough]
        rw [bind_done copied]
        rfl
    · have scanned : userStringLength userStr kernelBufferSize system = .done (code, 0) system := ran
      refine .inr ⟨?_, ?_⟩
      · rw [bind_done scanned]
        simp only [ne_eq, failed, not_false_eq_true, ↓reduceIte, pure_apply]
      · rintro ⟨-, length, short, string⟩
        exact none length short string

end Guarded

/-- What a copy of a string does: it succeeds when a string starts at the address that fits with its
terminator, writes this string only, and depends on nothing behind it. -/
structure CopyStringLaw (system : MemorySystem) (userStr kernelBuffer kernelBufferSize : Nat)
    (code : Int) (written : List UInt8) : Prop where
  answer : code = 0 ∨ code = -1
  success : code = 0 ↔ userStr ≠ 0 ∧
    ∃ length < kernelBufferSize, StringAt (loadedRead system) userStr length
  string : ∀ length, code = 0 → StringAt (loadedRead system) userStr length →
    written.map some = (List.range (length + 1)).map fun i => loadedRead system (userStr + i)
  behind : ∀ length, code = 0 → StringAt (loadedRead system) userStr length →
    ∀ (image : Image) (system' : MemorySystem), AccessReachable image system' →
      (∀ i ≤ length, loadedRead system' (userStr + i) = loadedRead system (userStr + i)) →
      syscallCopyUserString userStr kernelBuffer kernelBufferSize system' = .done (code, written) system'
  failure : code = -1 → written = []

/-- The bytes of a range that can be read are determined by what is read. -/
theorem copied_unique {read : Nat → Option UInt8} {first second : List UInt8} {size : Nat}
    (isFirst : first.map some = (List.range size).map read)
    (isSecond : second.map some = (List.range size).map read) : first = second :=
  List.map_injective_iff.mpr (Option.some_injective UInt8) (isFirst.trans isSecond.symm)

/-- In every reachable system the copy of a string returns, changes nothing, and is exact. -/
theorem user_string_copied (image : Image) (system : MemorySystem)
    (reached : AccessReachable image system) (userStr kernelBuffer kernelBufferSize : UInt32)
    (notNull : kernelBuffer ≠ 0) (positive : 0 < kernelBufferSize) :
    ∃ code written, syscallCopyUserString userStr.toNat kernelBuffer.toNat kernelBufferSize.toNat
        system = .done (code, written) system ∧
      CopyStringLaw system userStr.toNat kernelBuffer.toNat kernelBufferSize.toNat code written := by
  have guarded := reachable_guarded reached
  have notNull' : kernelBuffer.toNat ≠ 0 := by
    intro isNull
    exact notNull (UInt32.toNat_inj.mp isNull)
  have positive' : 0 < kernelBufferSize.toNat := UInt32.lt_iff_toNat_lt.mp positive
  rcases copy_user_string_run guarded notNull' userStr.toNat_lt kernelBufferSize.toNat_lt
      positive' with ⟨length, short, isSome, string, bytes, ran, isBytes⟩ | ⟨ran, none⟩
  · refine ⟨0, bytes, ran, .inl rfl, iff_of_true rfl ⟨isSome, length, short, string⟩, ?_, ?_, ?_⟩
    · intro other _ string'
      rw [string'.unique string]
      exact isBytes
    · intro other _ string' image' system' reached' same
      obtain rfl := string'.unique string
      have guarded' := reachable_guarded reached'
      have stays := string.congr same
      rcases copy_user_string_run guarded' notNull' userStr.toNat_lt kernelBufferSize.toNat_lt
          positive' with ⟨length', short', -, again, bytes', ran', isBytes'⟩ | ⟨-, none'⟩
      · obtain rfl := again.unique stays
        have sameBytes : bytes' = bytes := by
          apply copied_unique isBytes'
          rw [isBytes]
          apply List.map_congr_left
          intro i inside
          exact (same i (Nat.le_of_lt_succ (List.mem_range.mp inside))).symm
        rw [ran', sameBytes]
      · exact absurd ⟨isSome, _, short, stays⟩ none'
    · intro absurd
      cases absurd
  · refine ⟨-1, [], ran, .inr rfl, iff_of_false (by decide) none, ?_, ?_, fun _ => rfl⟩
    · intro length absurd
      cases absurd
    · intro length absurd
      cases absurd

set_option maxRecDepth 100000 in
/-- A process stores a string at the end of its only page, and it is copied in full. -/
theorem string_at_page_end : ∃ system, AccessReachable smallImage system ∧
    StringAt (loadedRead system) 0x01000FFD 2 ∧
    syscallCopyUserString 0x01000FFD 0x1000 64 system = .done (0, [104, 105, 0]) system := by
  have completed : (smallAccessRun [.memory .create, .memory (.mapUserPage 0xD1000018 0x01000000),
      .memory (.switch (some 0xD1000018)),
      .copyToUser 0x01000FFD 1 3 fun i => if i = 0 then 104 else if i = 1 then 105 else 0]).map
        (fun system => (syscallCopyUserString 0x01000FFD 0x1000 64 system).result.map Prod.fst) =
          some (some (0, [104, 105, 0])) := by
    decide +kernel
  obtain ⟨system, reached, copied⟩ := small_access_run_facts completed
  obtain ⟨final, returned⟩ := done_of_value copied
  obtain ⟨code, written, exact, law⟩ := user_string_copied smallImage system reached
    0x01000FFD 0x1000 64 (by decide) (by decide)
  obtain ⟨same, rfl⟩ := Outcome.done.inj (returned.symm.trans exact)
  obtain ⟨rfl, rfl⟩ := Prod.mk.inj same
  obtain ⟨-, length, -, string⟩ := law.success.mp rfl
  have bytes := congrArg List.length (law.string length rfl string)
  rw [List.length_map, List.length_map, List.length_range] at bytes
  obtain rfl : length = 2 := (Nat.succ.inj bytes).symm
  exact ⟨final, reached, string, exact⟩

end Toyix.Syscalls
