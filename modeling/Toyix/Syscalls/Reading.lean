import Toyix.Syscalls.Kernel

/-!
# Reading from a file

`SYS_READ` on a file has two parts: `vfs_read` takes bytes from the file and advances its offset, and
`copy_to_user` brings them to the buffer of the process. When the second part fails the first one is
not taken back.
-/

namespace Toyix.Syscalls

open Library Paging Processes Files

variable {image : Image} {held : Set Nat} {state next : Kernel} {current fd userBuf file : Nat}

theorem on_files_done {α : Type} {program : FileProgram α} {value : α} {files : FileRun}
    (done : program state.files = .done value files) :
    onFiles program state = .done value { state with files := files } :=
  Program.within_done done

theorem on_memory_done {α : Type} {program : MemoryProgram α} {value : α} {memory : MemorySystem}
    (done : program state.memory = .done value memory) :
    onMemory program state = .done value { state with memory := memory } :=
  Program.within_done done

/-! ## The buffer of the process -/

/-- Bytes are stored at a user address of the current process, and nothing else is. -/
inductive StoredAt (system : MemorySystem) (userBuf : Nat) (bytes : List UInt8) :
    MemorySystem → Prop where
  | nothing (empty : bytes = []) : StoredAt system userBuf bytes system
  | bytes {object : Nat} {memory : Memory} (isCurrent : system.currentSpace = some object)
      (stored : Stored (userPages system object) userBuf bytes.length (fun i => bytes.getD i 0)
        system.machine.memory memory) :
      StoredAt system userBuf bytes (system.withMachine { system.machine with memory := memory })

/-- Bytes fit a buffer: there are none, or user mode may reach all of it. -/
def BufferFits (system : MemorySystem) (userBuf size : Nat) : Prop :=
  size = 0 ∨ RangeMapped system userBuf size

/-- `copy_to_user` of some bytes stores them all where they fit; otherwise it fails and stores
none. -/
theorem copy_bytes_exact (guarded : Guarded image held state.memory)
    (bytes : List UInt8) (addrBounded : userBuf < 2 ^ 32) (sizeBounded : bytes.length < 2 ^ 32) :
    (¬ BufferFits state.memory userBuf bytes.length ∧
      copyBytesToUser userBuf bytes state = .done usercopyErrFault state) ∨
    (BufferFits state.memory userBuf bytes.length ∧ ∃ memory,
      copyBytesToUser userBuf bytes state = .done usercopyOk { state with memory := memory } ∧
      StoredAt state.memory userBuf bytes memory) := by
  obtain ⟨result, memory, ran, effect⟩ := copy_to_user_run guarded stackVariable
    (fun i => bytes.getD i 0) addrBounded sizeBounded
  have copied := on_memory_done ran
  rcases effect with ⟨rfl, rfl, closed⟩ | ⟨rfl, empty, rfl⟩ | ⟨rfl, mapped, object, range, stored⟩
  · exact .inl ⟨not_or.mpr (closed (by decide)), copied⟩
  · exact .inr ⟨.inl empty, _, copied, .nothing (List.eq_nil_of_length_eq_zero empty)⟩
  · exact .inr ⟨.inr mapped, _, copied, .bytes range.current stored⟩

/-! ## The call -/

/-- The file behind a descriptor of a process. -/
def openFile (state : Kernel) (current fd : Nat) : Option Nat :=
  let slot := (state.files.table.objects current).fds fd
  if 3 ≤ fd ∧ fd < 16 ∧ slot.used = true ∧ slot.file ≠ 0 then some slot.file else none

theorem open_file_eq_some (opened : openFile state current fd = some file) :
    3 ≤ fd ∧ fd < 16 ∧ ((state.files.table.objects current).fds fd).used = true ∧
      ((state.files.table.objects current).fds fd).file = file ∧ file ≠ 0 := by
  unfold openFile at opened
  obtain ⟨⟨low, high, used, notNull⟩, isFile⟩ := Option.ite_none_right_eq_some.mp opened
  obtain rfl := Option.some.inj isFile
  exact ⟨low, high, used, rfl, notNull⟩

/-- A descriptor that is not open has no file. -/
theorem fd_get_closed (checked : Checked state.files.table current)
    (closed : openFile state current fd = none) :
    Files.onTable (processFdGet current fd) state.files = .done 0 state.files := by
  have found : processFdGet current fd state.files.table = .done 0 state.files.table := by
    simp only [processFdGet, bind_apply, checked.validate_live_process, andThen_done,
      ite_run, readProcess_apply, pure_apply]
    by_cases outside : fd < processFirstFileFd ∨ fd ≥ processMaxFds
    · rw [if_pos outside]
    · rw [if_neg outside]
      by_cases used : ((state.files.table.objects current).fds fd).used = true
      · rw [if_pos used]
        have isNull : ((state.files.table.objects current).fds fd).file = 0 := by
          by_contra notNull
          simp only [processFirstFileFd, processMaxFds] at outside
          have inside : 3 ≤ fd ∧ fd < 16 ∧ _ ∧ _ := ⟨by omega, by omega, used, notNull⟩
          simp only [openFile, if_pos inside] at closed
          cases closed
        rw [isNull]
      · rw [if_neg used]
  simp only [Files.onTable, found]

/-- The bytes that a read of an open file gets. -/
def readBytes (fields : VfsFile) (length : Nat) : List UInt8 :=
  Cursor.readAt fields.node.data fields.offset (min length 256)

theorem read_bytes_length (fields : VfsFile) (length : Nat) :
    (readBytes fields length).length = min length (min 256 (fields.node.data.length - fields.offset)) := by
  rw [readBytes, Cursor.readAt_length]
  omega

theorem syscall_read_closed (checked : Checked state.files.table current) (isFile : fd ≠ 0)
    (closed : openFile state current fd = none) (userBuf length : Nat) (typed : List UInt8) :
    ∃ eax, syscallRead current fd userBuf length typed state = .done eax state := by
  have got := on_files_done (fd_get_closed checked closed)
  by_cases nothing : length = 0
  · subst nothing
    exact ⟨0, rfl⟩
  · have some : ¬ (if length > syscallRwMax then syscallRwMax else length) = 0 := by
      split
      · decide
      · exact nothing
    refine ⟨failure, ?_⟩
    simp only [syscallRead, if_neg some, if_neg isFile, if_neg checked.notNull, bind_apply, got,
      andThen_done, ↓reduceIte, pure_apply]

/-- The kernel after the offset of a file has been moved. -/
def Kernel.seekTo (state : Kernel) (file offset : Nat) : Kernel :=
  { state with files := state.files.seekTo file offset }

/-- A read of an open file takes its bytes, and returns their number if they fit the buffer. -/
theorem syscall_read_open (guarded : Guarded image held state.memory)
    (checked : Checked state.files.table current) (opened : openFile state current fd = some file)
    (small : (state.files.files file).Small) (addrBounded : userBuf < 2 ^ 32) (length : Nat)
    (typed : List UInt8) :
    let fields := state.files.files file
    let bytes := readBytes fields length
    let taken := state.seekTo file (fields.offset + bytes.length)
    (¬ BufferFits state.memory userBuf bytes.length ∧
      syscallRead current fd userBuf length typed state = .done failure taken) ∨
    (BufferFits state.memory userBuf bytes.length ∧ ∃ memory,
      syscallRead current fd userBuf length typed state =
        .done bytes.length { taken with memory := memory } ∧
      StoredAt state.memory userBuf bytes memory) := by
  intro fields bytes taken
  obtain ⟨low, high, used, isFile, notNull⟩ := open_file_eq_some opened
  have got := Checked.fd_get checked ⟨low, high⟩ used
  rw [isFile] at got
  have got' := on_files_done got
  have notStdin : fd ≠ 0 := by omega
  by_cases nothing : length = 0
  · have empty : bytes = [] := by
      apply List.eq_nil_of_length_eq_zero
      rw [read_bytes_length, nothing, Nat.zero_min]
    have same : taken = state := by
      simp only [taken, Kernel.seekTo, empty, List.length_nil, Nat.add_zero]
      rw [seek_to_same]
    rw [same, empty, nothing]
    exact .inr ⟨.inl rfl, state.memory, rfl, .nothing rfl⟩
  · have some : ¬ (if length > syscallRwMax then syscallRwMax else length) = 0 := by
      split
      · decide
      · exact nothing
    have shorter : (if length > syscallRwMax then syscallRwMax else length) = min length 256 := by
      unfold syscallRwMax
      split <;> omega
    have read := on_files_done (vfs_read_exact notNull small (min length 256))
    have short : bytes.length < 2 ^ 32 := by
      rw [read_bytes_length]
      omega
    have guarded' : Guarded image held taken.memory := guarded
    have code : usercopyErrFault ≠ usercopyOk := by decide
    have steps : syscallRead current fd userBuf length typed state =
        (copyBytesToUser userBuf bytes taken).andThen fun code =>
          if code ≠ usercopyOk then pure failure else pure bytes.length := by
      rw [shorter] at some
      simp only [syscallRead, shorter, if_neg some, if_neg notStdin, if_neg checked.notNull,
        bind_apply, got', andThen_done, if_neg notNull, read, ne_eq, not_true_eq_false, ↓reduceIte]
      rfl
    rcases copy_bytes_exact guarded' bytes addrBounded short with
      ⟨closed, ran⟩ | ⟨fits, memory, ran, stored⟩
    · refine .inl ⟨closed, ?_⟩
      rw [steps, ran, andThen_done, if_pos code]
      rfl
    · refine .inr ⟨fits, memory, ?_, stored⟩
      rw [steps, ran, andThen_done, if_neg (not_not_intro rfl)]
      rfl

theorem read_bytes_slice (fields : VfsFile) (length : Nat) :
    readBytes fields length =
      Cursor.slice fields.node.data fields.offset (fields.offset + (readBytes fields length).length) := by
  rw [read_bytes_length, readBytes, Cursor.readAt_eq_take, Cursor.slice, List.take_eq_take_iff,
    List.length_drop]
  omega

/-- A read that fails consumes nothing; a read that returns a number has stored that many bytes, the
ones at the old offset, and has moved the offset behind them. -/
structure ReadLaw (state next : Kernel) (current fd userBuf length eax : Nat) : Prop where
  failed : eax = failure →
    (∀ file, (next.files.files file).offset = (state.files.files file).offset) ∧
    next.files.table = state.files.table ∧ next.memory = state.memory
  answered : eax ≠ failure → ∀ file, openFile state current fd = some file →
    let fields := state.files.files file
    eax = min length (min 256 (fields.node.data.length - fields.offset)) ∧
    StoredAt state.memory userBuf
      (Cursor.slice fields.node.data fields.offset (fields.offset + eax)) next.memory ∧
    next.files = state.files.seekTo file (fields.offset + eax)

/-- A call that leaves the table alone returns what its body does. -/
theorem checked_call_done {body : KernelProgram Nat} {eax : Nat}
    (checked : Checked state.files.table current)
    (notKilled : (state.files.table.objects current).killRequested = false)
    (ran : body state = .done eax next) (same : next.files.table = state.files.table) :
    checkedCall current body state = .done (some eax) next := by
  have before := on_files_done (Checked.finish_or_kill checked notKilled)
  have checked' : Checked next.files.table current := same ▸ checked
  have notKilled' : (next.files.table.objects current).killRequested = false := same ▸ notKilled
  have after := on_files_done (Checked.finish_or_kill checked' notKilled')
  simp only [checkedCall, bind_apply, before, andThen_done, Bool.false_eq_true,
    ↓reduceIte, ran, after, pure_apply]

/-- `SYS_READ` on a file returns, and the law holds exactly when the bytes it gets from the file fit the
buffer: otherwise the call fails and they are gone. -/
theorem read_consumes_iff (image : Image) (state : Kernel)
    (reached : AccessReachable image state.memory) (current : Nat) (fd userBuf length : UInt32)
    (checked : Checked state.files.table current)
    (notKilled : (state.files.table.objects current).killRequested = false) (isFile : fd ≠ 0)
    (small : ∀ file, openFile state current fd.toNat = some file → (state.files.files file).Small)
    (typed : List UInt8) :
    ∃ eax next,
      checkedCall current (syscallRead current fd.toNat userBuf.toNat length.toNat typed) state =
        .done (some eax) next ∧
      (ReadLaw state next current fd.toNat userBuf.toNat length.toNat eax ↔
        ∀ file, openFile state current fd.toNat = some file →
          let fields := state.files.files file
          BufferFits state.memory userBuf.toNat
            (min length.toNat (min 256 (fields.node.data.length - fields.offset)))) := by
  have guarded := reachable_guarded reached
  cases opened : openFile state current fd.toNat with
  | none =>
    have notStdin : fd.toNat ≠ 0 := fun isZero => isFile (UInt32.toNat_inj.mp isZero)
    obtain ⟨eax, ran⟩ := syscall_read_closed checked notStdin opened userBuf.toNat length.toNat typed
    refine ⟨eax, state, checked_call_done checked notKilled ran rfl, ?_⟩
    apply iff_of_true
    · refine ⟨fun _ => ⟨fun _ => rfl, rfl, rfl⟩, ?_⟩
      intro _ file isOpen
      rw [opened] at isOpen
      cases isOpen
    · intro file absurd
      cases absurd
  | some file =>
    have count := read_bytes_length (state.files.files file) length.toNat
    rcases syscall_read_open guarded checked opened (small file opened) userBuf.toNat_lt
      length.toNat typed with ⟨closed, ran⟩ | ⟨fits, memory, ran, stored⟩
    · refine ⟨failure, _, checked_call_done checked notKilled ran rfl, ?_⟩
      rw [count] at closed
      apply iff_of_false
      · rintro ⟨failed, -⟩
        obtain ⟨stays, -⟩ := failed rfl
        have moved := stays file
        simp only [Kernel.seekTo, seek_to_self, count] at moved
        exact closed (.inl (by omega))
      · intro fits
        exact closed (fits file rfl)
    · refine ⟨_, _, checked_call_done checked notKilled ran rfl, ?_⟩
      apply iff_of_true
      · constructor
        · intro isFailure
          have large : failure = 0xFFFFFFFF := rfl
          omega
        · intro _ other isOther
          obtain rfl := Option.some.inj (opened.symm.trans isOther)
          rw [read_bytes_slice] at stored
          exact ⟨count, stored, rfl⟩
      · intro other isOther
        obtain rfl := Option.some.inj isOther
        rw [count] at fits
        exact fits

/-! ## A process with a file and a page -/

/-- A process has opened the list of programs, and the page at `0x01000000` is its only one. -/
structure Reader (state : Kernel) : Prop where
  files : Seeking state.files 0
  memory : AccessReachable smallImage state.memory
  mapped : UserMapped state.memory.machine.memory state.memory.machine.cr3 0x01000000
  closed : ¬ UserMapped state.memory.machine.memory state.memory.machine.cr3 0x01001000

theorem Reader.opened (reader : Reader state) : openFile state 0x1000 3 = some 0x4000 := by
  have inside : 3 ≤ 3 ∧ 3 < 16 ∧ ((state.files.table.objects 0x1000).fds 3).used = true ∧
      ((state.files.table.objects 0x1000).fds 3).file ≠ 0 := by
    rw [reader.files.used, reader.files.isFile]
    decide
  rw [openFile, if_pos inside, reader.files.isFile]

theorem Reader.small (reader : Reader state) : (state.files.files 0x4000).Small := by
  have size : programsText.length < 2 ^ 32 := by decide
  rw [reader.files.stands]
  exact ⟨by decide, size⟩

set_option maxRecDepth 100000 in
theorem reader_exists : ∃ state, Reader state := by
  have mapped : (smallAccessRun [.memory .create, .memory (.mapUserPage 0xD1000018 0x01000000),
      .memory (.switch (some 0xD1000018))]).map (fun system =>
        (decide (UserMapped system.machine.memory system.machine.cr3 0x01000000),
          decide (UserMapped system.machine.memory system.machine.cr3 0x01001000))) =
        some (true, false) := by decide +kernel
  obtain ⟨files, seeking⟩ := seek_run_seeking [] 0 (by decide +kernel)
  obtain ⟨memory, reached, bits⟩ := small_access_run_facts mapped
  obtain ⟨isMapped, isClosed⟩ := Prod.mk.inj bits
  exact ⟨⟨files, memory⟩, seeking, reached, of_decide_eq_true isMapped, of_decide_eq_false isClosed⟩

/-- A read of four bytes to the page succeeds. -/
theorem read_into_page : ∃ state eax next, Reader state ∧
    checkedCall 0x1000 (syscallRead 0x1000 3 0x01000FFC 4 []) state = .done (some eax) next ∧
    ReadLaw state next 0x1000 3 0x01000FFC 4 eax := by
  obtain ⟨state, reader⟩ := reader_exists
  have isFile : (3 : UInt32) ≠ 0 := by decide
  have small (file : Nat) (isOpen : openFile state 0x1000 (3 : UInt32).toNat = some file) :
      (state.files.files file).Small := by
    obtain rfl := Option.some.inj (reader.opened.symm.trans isOpen)
    exact reader.small
  obtain ⟨eax, next, done, law⟩ := read_consumes_iff smallImage state reader.memory
    0x1000 3 0x01000FFC 4 reader.files.checked reader.files.notKilled isFile small []
  refine ⟨state, eax, next, reader, done, law.mpr ?_⟩
  intro file isOpen
  obtain rfl := Option.some.inj (reader.opened.symm.trans isOpen)
  rw [reader.files.stands]
  have count : min (4 : UInt32).toNat (min 256 (programsText.length - 0)) = 4 := by decide
  have mapped : RangeMapped state.memory (0x01000FFC : UInt32).toNat 4 := by
    refine ⟨by decide, ?_⟩
    intro page aligned below above
    obtain rfl : page = 0x01000000 := by
      have isAddress : (0x01000FFC : UInt32).toNat = 0x01000FFC := rfl
      omega
    exact reader.mapped
  exact .inr (count ▸ mapped)

/-- A read of four bytes that would cross the end of the page fails, and the four bytes of the file
are consumed. -/
theorem read_across_page_end : ∃ state next, Reader state ∧
    checkedCall 0x1000 (syscallRead 0x1000 3 0x01000FFE 4 []) state = .done (some failure) next ∧
    (state.files.files 0x4000).offset = 0 ∧ (next.files.files 0x4000).offset = 4 ∧
    ¬ ReadLaw state next 0x1000 3 0x01000FFE 4 failure := by
  obtain ⟨state, reader⟩ := reader_exists
  have guarded := reachable_guarded reader.memory
  have count : (readBytes (state.files.files 0x4000) 4).length = 4 := by
    rw [read_bytes_length, reader.files.stands]
    decide
  have closed : ¬ BufferFits state.memory 0x01000FFE 4 := by
    rintro (absurd | ⟨-, mapped⟩)
    · cases absurd
    · exact reader.closed (mapped 0x01001000 (by decide) (by decide) (by decide))
  have offset : (state.files.files 0x4000).offset = 0 := by rw [reader.files.stands]
  have ran : syscallRead 0x1000 3 0x01000FFE 4 [] state = .done failure (state.seekTo 0x4000 4) := by
    rcases syscall_read_open guarded reader.files.checked reader.opened
      reader.small (by decide : 0x01000FFE < 2 ^ 32) 4 [] with ⟨-, ran⟩ | ⟨fits, -⟩
    · rw [count, offset] at ran
      exact ran
    · rw [count] at fits
      exact absurd fits closed
  have done := checked_call_done reader.files.checked reader.files.notKilled ran rfl
  have moved : ((state.seekTo 0x4000 4).files.files 0x4000).offset = 4 := by
    rw [Kernel.seekTo, seek_to_self]
  refine ⟨state, state.seekTo 0x4000 4, reader, done, offset, moved, ?_⟩
  intro law
  have stays := (law.failed rfl).1 0x4000
  rw [moved, offset] at stays
  cases stays

end Toyix.Syscalls
