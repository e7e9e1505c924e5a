import Toyix.Library.Cursor
import Toyix.Library.Words
import Toyix.Files.Lifecycle

/-!
# The position of an open file

`vfs_read` and `vfs_seek` keep the position of an open file in a 32-bit word. Over whole histories
it is the position of `Library.Cursor`, which is computed over the integers: no operation on it
wraps, and a read copies bytes of the file only.

`SYS_SEEK` returns the position in `eax`, and `toyix_seek` of the user library reads it as a signed
number. A position from `2 ^ 31` on is therefore taken for an error.
-/

namespace Toyix.Files

open Library Library.Links Processes Function

variable {run next : FileRun} {file current : Nat}

/-! ## Single calls -/

/-- Store the offset of a file. -/
def FileRun.seekTo (run : FileRun) (file offset : Nat) : FileRun :=
  { run with files := update run.files file { run.files file with offset := offset } }

@[simp] theorem seek_to_self (run : FileRun) (file offset : Nat) :
    (run.seekTo file offset).files file = { run.files file with offset := offset } :=
  update_self file _ run.files

theorem seek_to_same (run : FileRun) (file : Nat) :
    run.seekTo file (run.files file).offset = run := by
  have same : update run.files file (run.files file) = run.files :=
    update_eq_self file run.files
  simp only [FileRun.seekTo, same]

theorem seek_to_twice (run : FileRun) (file first second : Nat) :
    (run.seekTo file first).seekTo file second = run.seekTo file second := by
  simp only [FileRun.seekTo, update_self, update_idem]

theorem to_copy_eq {size offset : Nat} (bounded : size < 2 ^ 32) (before : offset < size)
    (length : Nat) : toCopy size offset length = min length (size - offset) := by
  have difference : (size + 2 ^ 32 - offset) % 2 ^ 32 = size - offset := by omega
  simp only [toCopy, difference]
  split <;> omega

/-- The base that `vfs_seek` takes for a value of `whence`. -/
def originOf (whence : Nat) : Option Cursor.Origin :=
  if whence = 0 then some .start
  else if whence = 1 then some .current
  else if whence = 2 then some .stop
  else none

/-- The position to which a seek goes, over the integers, unless it is refused. -/
def VfsFile.target (fields : VfsFile) (offset : Int) (whence : Nat) : Option Nat :=
  Cursor.target (2 ^ 32) fields.node.data fields.offset (originOf whence) offset

/-- The position is a word, and so is the size of the file. -/
structure VfsFile.Small (fields : VfsFile) : Prop where
  offset : fields.offset < 2 ^ 32
  size : fields.node.data.length < 2 ^ 32

theorem vfs_read_exact (notNull : file ≠ 0) (small : (run.files file).Small) (length : Nat) :
    vfsRead file length run =
      .done (vfsOk, Cursor.readAt (run.files file).node.data (run.files file).offset length)
        (run.seekTo file ((run.files file).offset +
          (Cursor.readAt (run.files file).node.data (run.files file).offset length).length)) := by
  have got := Cursor.readAt_length (run.files file).node.data (run.files file).offset length
  have stays : (run.files file).offset +
      (Cursor.readAt (run.files file).node.data (run.files file).offset length).length < 2 ^ 32 := by
    have below := small.offset
    have short := small.size
    omega
  rw [Cursor.readAt_eq_take] at stays got ⊢
  unfold vfsRead
  rw [if_neg notNull, ite_run]
  split
  · rename_i nothing
    subst nothing
    rw [List.take_zero, List.length_nil, Nat.add_zero, seek_to_same]
    rfl
  · simp only [bind_apply, current_apply, andThen_done, ite_run]
    split
    · rename_i behind
      rw [List.drop_eq_nil_of_le behind, List.take_nil, List.length_nil, Nat.add_zero, seek_to_same]
      rfl
    · rename_i before
      have count : toCopy (run.files file).node.data.length (run.files file).offset length =
          (((run.files file).node.data.drop (run.files file).offset).take length).length := by
        rw [to_copy_eq small.size (Nat.lt_of_not_le before), List.length_take, List.length_drop]
      rw [count, Nat.mod_eq_of_lt stays, List.length_take, ← List.take_eq_take_min]
      rfl

theorem vfs_seek_exact (notNull : file ≠ 0) (offset : Int) (whence : Nat) :
    vfsSeek file offset whence run =
      match (run.files file).target offset whence with
      | some position => .done (vfsOk, position) (run.seekTo file position)
      | none => .done (vfsErrInvalid, 0) run := by
  have fits (target : Int) : (0 ≤ target ∧ target < (2 ^ 32 : Nat)) ↔
      ¬ (target < 0 ∨ target > 0xFFFFFFFF) := by
    omega
  have moves (base : Int) : (if base + offset < 0 ∨ base + offset > 0xFFFFFFFF then
        pure (vfsErrInvalid, 0)
      else do
        setOffset file (base + offset).toNat
        pure (vfsOk, (base + offset).toNat) : FileProgram (Int × Nat)) run =
      match (if 0 ≤ base + offset ∧ base + offset < (2 ^ 32 : Nat) then some (base + offset).toNat
        else none) with
      | some position => .done (vfsOk, position) (run.seekTo file position)
      | none => .done (vfsErrInvalid, 0) run := by
    rw [ite_run]
    by_cases outside : base + offset < 0 ∨ base + offset > 0xFFFFFFFF
    · rw [if_pos outside, if_neg (fun inside => (fits _).mp inside outside)]
      rfl
    · rw [if_neg outside, if_pos ((fits _).mpr outside)]
      rfl
  unfold vfsSeek VfsFile.target originOf
  rw [if_neg notNull]
  simp only [bind_apply, current_apply, andThen_done]
  by_cases isStart : whence = 0
  · simp only [if_pos isStart]
    exact moves 0
  · by_cases isCurrent : whence = 1
    · simp only [if_neg isStart, if_pos isCurrent]
      exact moves _
    · by_cases isStop : whence = 2
      · simp only [if_neg isStart, if_neg isCurrent, if_pos isStop]
        exact moves _
      · simp only [if_neg isStart, if_neg isCurrent, if_neg isStop]
        rfl

/-! ## Histories -/

/-- A call on one open file. -/
inductive PositionCall where
  | read (length : UInt32)
  | seek (offset whence : UInt32)

def positionCall (file : Nat) : PositionCall → FileProgram (Cursor.Answer UInt8)
  | .read length => do
    let (code, got) ← vfsRead file length.toNat
    pure (if code = vfsOk then .elements got else .refused)
  | .seek offset whence => do
    let (code, position) ← vfsSeek file offset.toInt32.toInt whence.toNat
    pure (if code = vfsOk then .moved position else .refused)

def positionCalls (file : Nat) : List PositionCall → FileProgram (List (Cursor.Answer UInt8))
  | [] => pure []
  | call :: rest => do
    let answer ← positionCall file call
    let answers ← positionCalls file rest
    pure (answer :: answers)

/-- The call over the integers. -/
def PositionCall.meant : PositionCall → Cursor.Call
  | .read length => .read length.toNat
  | .seek offset whence => .seek (originOf whence.toNat) offset.toInt32.toInt

theorem position_call_exact (notNull : file ≠ 0) (small : (run.files file).Small)
    (call : PositionCall) :
    positionCall file call run =
      .done (Cursor.step (2 ^ 32) (run.files file).node.data (run.files file).offset call.meant).1
        (run.seekTo file
          (Cursor.step (2 ^ 32) (run.files file).node.data (run.files file).offset call.meant).2) := by
  cases call with
  | read length =>
    simp only [positionCall, bind_apply, vfs_read_exact notNull small, andThen_done]
    rfl
  | seek offset whence =>
    simp only [positionCall, bind_apply, vfs_seek_exact notNull, PositionCall.meant,
      Cursor.step, VfsFile.target]
    cases Cursor.target (2 ^ 32) (run.files file).node.data (run.files file).offset
        (originOf whence.toNat) offset.toInt32.toInt with
    | none =>
      rw [seek_to_same]
      rfl
    | some position => rfl

theorem Small.step (small : (run.files file).Small) (call : Cursor.Call) :
    ((run.seekTo file (Cursor.step (2 ^ 32) (run.files file).node.data (run.files file).offset
      call).2).files file).Small := by
  rw [seek_to_self]
  exact ⟨Cursor.step_lt small.size small.offset call, small.size⟩

/-- A history of calls gives the answers of the reference, and ends at its position.

Proof: by induction on the calls; the position stays a word, so that the next call is exact. -/
theorem position_calls_exact (notNull : file ≠ 0) (calls : List PositionCall) (run : FileRun)
    (small : (run.files file).Small) :
    positionCalls file calls run =
      .done (Cursor.steps (2 ^ 32) (run.files file).node.data (run.files file).offset
          (calls.map PositionCall.meant)).1
        (run.seekTo file (Cursor.steps (2 ^ 32) (run.files file).node.data (run.files file).offset
          (calls.map PositionCall.meant)).2) := by
  induction calls generalizing run with
  | nil =>
    simp only [List.map_nil, Cursor.steps]
    rw [seek_to_same]
    rfl
  | cons call rest ih =>
    have next := ih _ (Small.step small call.meant)
    simp only [positionCalls, bind_apply, position_call_exact notNull small, andThen_done]
    rw [next]
    simp only [andThen_done, seek_to_self, seek_to_twice, List.map_cons, Cursor.steps]
    rfl

/-- A read from a position does nothing outside the words and the file: the difference and the sum
are exact, the bytes copied are in the file, and they are the ones returned. -/
structure ReadInside (data : List UInt8) (offset length : Nat) : Prop where
  difference : (data.length + 2 ^ 32 - offset) % 2 ^ 32 = data.length - offset
  sum : offset + toCopy data.length offset length < 2 ^ 32
  inside : ∀ i < toCopy data.length offset length, offset + i < data.length
  count : (Cursor.readAt data offset length).length = toCopy data.length offset length
  bytes : ∀ i < toCopy data.length offset length,
    (Cursor.readAt data offset length)[i]? = data[offset + i]?

theorem read_inside {data : List UInt8} {offset length : Nat} (size : data.length < 2 ^ 32)
    (before : offset < data.length) : ReadInside data offset length := by
  have copies := to_copy_eq size before length
  constructor
  · omega
  · rw [copies]
    omega
  · rw [copies]
    intro i isCopied
    omega
  · rw [copies, Cursor.readAt_length]
  · intro i isCopied
    rw [copies] at isCopied
    rw [Cursor.readAt_eq_take, List.getElem?_take_of_lt (by omega), List.getElem?_drop]

/-- The position of an open file over whole histories: the answers and the position are those of the
reference, reads after a seek return one piece of the file, and no read leaves the file or wraps. -/
structure PositionLaw (data : List UInt8) (file : Nat) (run : FileRun) (calls : List PositionCall) :
    Prop where
  reference : ∃ after, positionCalls file calls run =
      .done (Cursor.steps (2 ^ 32) data 0 (calls.map PositionCall.meant)).1 after ∧
    after.files file =
      { run.files file with
        offset := (Cursor.steps (2 ^ 32) data 0 (calls.map PositionCall.meant)).2 } ∧
    ∀ other, other ≠ file → after.files other = run.files other
  consecutive : ∀ answers after, positionCalls file calls run = .done answers after →
    ∀ (offset whence : UInt32) (position : Nat) (sought : FileRun),
      vfsSeek file offset.toInt32.toInt whence.toNat after = .done (vfsOk, position) sought →
      ∀ lengths : List UInt32, ∃ pieces last,
        positionCalls file (lengths.map .read) sought = .done pieces last ∧
        (pieces.map Cursor.Answer.got).flatten =
          Cursor.slice data position
            (min (position + (lengths.map UInt32.toNat).sum) data.length)
  inside : ∀ answers after, positionCalls file calls run = .done answers after →
    ∀ length : UInt32, (after.files file).offset < data.length →
      ReadInside data (after.files file).offset length.toNat
  small : ∀ answers after, positionCalls file calls run = .done answers after →
    (after.files file).offset < 2 ^ 32

/-- A seek that succeeds moves the position and does nothing else. -/
theorem vfs_seek_moved (notNull : file ≠ 0) {offset : Int} {whence position : Nat}
    (done : vfsSeek file offset whence run = .done (vfsOk, position) next) :
    position < 2 ^ 32 ∧ next = run.seekTo file position := by
  rw [vfs_seek_exact notNull] at done
  cases found : (run.files file).target offset whence with
  | none =>
    rw [found] at done
    have refused : vfsErrInvalid = vfsOk := congrArg Prod.fst (Outcome.done.inj done).1
    exact absurd refused (by decide)
  | some target =>
    rw [found] at done
    cases done
    exact ⟨Cursor.target_lt found, rfl⟩

/-- Consecutive reads return one piece of the file. -/
theorem consecutive_reads (notNull : file ≠ 0) (small : (run.files file).Small)
    (lengths : List UInt32) :
    ∃ pieces last, positionCalls file (lengths.map .read) run = .done pieces last ∧
      (pieces.map Cursor.Answer.got).flatten =
        Cursor.readAt (run.files file).node.data (run.files file).offset
          (lengths.map UInt32.toNat).sum := by
  have meant : (lengths.map PositionCall.read).map PositionCall.meant =
      (lengths.map UInt32.toNat).map .read := by
    rw [List.map_map, List.map_map]
    rfl
  refine ⟨_, _, position_calls_exact notNull _ run small, ?_⟩
  rw [meant, Cursor.steps_reads]

/-- The law of the position holds for every file and every history of calls on it. -/
theorem file_position_law (data : List UInt8) (size : data.length < 2 ^ 32) (file : Nat)
    (notNull : file ≠ 0) (run : FileRun) (contents : (run.files file).node.data = data)
    (opened : (run.files file).offset = 0) (calls : List PositionCall) :
    PositionLaw data file run calls := by
  have small : (run.files file).Small := by
    constructor
    · rw [opened]
      decide
    · rw [contents]
      exact size
  have exact := position_calls_exact notNull calls run small
  rw [contents, opened] at exact
  set answers := Cursor.steps (2 ^ 32) data 0 (calls.map PositionCall.meant) with isAnswers
  have below : answers.2 < 2 ^ 32 := by
    rw [isAnswers]
    exact Cursor.steps_lt size (by decide) _
  have after (given : List (Cursor.Answer UInt8)) (final : FileRun)
      (done : positionCalls file calls run = .done given final) : final = run.seekTo file answers.2 := by
    rw [exact] at done
    cases done
    rfl
  constructor
  · refine ⟨run.seekTo file answers.2, exact, seek_to_self run file answers.2, ?_⟩
    intro other different
    exact update_of_ne different _ run.files
  · intro given final done offset whence position sought seeks lengths
    obtain ⟨bounded, isSought⟩ := vfs_seek_moved notNull seeks
    have stands : sought.files file = { run.files file with offset := position } := by
      rw [isSought, after given final done, seek_to_twice, seek_to_self]
    have small' : (sought.files file).Small := by
      rw [stands]
      exact ⟨bounded, small.size⟩
    obtain ⟨pieces, last, reads, joined⟩ := consecutive_reads notNull small' lengths
    refine ⟨pieces, last, reads, ?_⟩
    rw [joined, stands, contents, Cursor.readAt_eq_slice]
  · intro given final done length before
    rw [after given final done, seek_to_self] at before ⊢
    exact read_inside size before
  · intro given final done
    rw [after given final done, seek_to_self]
    exact below

/-- A file with the list of programs that has just been opened. -/
def openedPrograms : FileRun :=
  filesStart (fun _ => Process.cleared) ⟨fun _ => 0, fun _ => 0⟩
    (fun _ => ⟨⟨"/programs".toList, vfsNodeRegular, programsText⟩, 0⟩) (fun _ => 0) (fun _ => 0)

/-- The first word of the file, a seek back from its end, and more than the rest. -/
theorem programs_read_twice : ∃ after,
    positionCalls 0x4000 [.read 4, .seek 0xFFFFFFFA 2, .read 9] openedPrograms =
      .done [.elements (bytesOf "demo"), .moved 13, .elements (bytesOf "shell\n")] after ∧
    (after.files 0x4000).offset = 19 := by
  have size : programsText.length < 2 ^ 32 := by decide
  have notNull : 0x4000 ≠ 0 := by decide
  obtain ⟨after, answers, stands, -⟩ :=
    (file_position_law programsText size 0x4000 notNull openedPrograms rfl rfl
      [.read 4, .seek 0xFFFFFFFA 2, .read 9]).reference
  refine ⟨after, answers, ?_⟩
  rw [stands]
  decide

/-! ## What `SYS_SEEK` returns -/

/-- `vfs_seek` fails. -/
def SeekFails (run : FileRun) (file : Nat) (offset whence : UInt32) : Prop :=
  ∃ code position next,
    vfsSeek file offset.toInt32.toInt whence.toNat run = .done (code, position) next ∧ code ≠ vfsOk

/-- The answer is negative exactly when the seek failed, which then leaves the offset alone; it is
the new position otherwise. -/
structure SeekAnswerLaw (run next : FileRun) (file : Nat) (offset whence : UInt32) (eax : Nat) :
    Prop where
  negative : int32 eax < 0 ↔ SeekFails run file offset whence
  unchanged : SeekFails run file offset whence →
    (next.files file).offset = (run.files file).offset
  position : ¬ SeekFails run file offset whence → int32 eax = (next.files file).offset

theorem Checked.finish_or_kill (checked : Checked run.table current)
    (notKilled : (run.table.objects current).killRequested = false) :
    onTable (syscallFinishOrKill current) run = .done false run := by
  have stays : syscallFinishOrKill current run.table = .done false run.table := by
    simp only [syscallFinishOrKill, checked.notNull, ↓reduceIte, bind_apply,
      processKillRequested, checked.validate_live_process, andThen_done, readProcess_apply,
      pure_apply, notKilled, Bool.false_eq_true]
  simp only [onTable, stays]

theorem Checked.fd_get (checked : Checked run.table current) {fd : Nat} (inside : 3 ≤ fd ∧ fd < 16)
    (used : ((run.table.objects current).fds fd).used = true) :
    onTable (processFdGet current fd) run = .done ((run.table.objects current).fds fd).file run := by
  have notOutside : ¬ (fd < processFirstFileFd ∨ fd ≥ processMaxFds) := by
    simp only [processFirstFileFd, processMaxFds]
    omega
  have found : processFdGet current fd run.table =
      .done ((run.table.objects current).fds fd).file run.table := by
    simp only [processFdGet, bind_apply, checked.validate_live_process, andThen_done,
      notOutside, ↓reduceIte, readProcess_apply, pure_apply, used]
  simp only [onTable, found]

theorem seek_fails_iff (notNull : file ≠ 0) (offset whence : UInt32) :
    SeekFails run file offset whence ↔
      (run.files file).target offset.toInt32.toInt whence.toNat = none := by
  unfold SeekFails
  rw [vfs_seek_exact notNull]
  cases (run.files file).target offset.toInt32.toInt whence.toNat with
  | none =>
    have code : vfsErrInvalid ≠ vfsOk := by decide
    exact ⟨fun _ => rfl, fun _ => ⟨_, _, _, rfl, code⟩⟩
  | some position =>
    constructor
    · rintro ⟨code, moved, next, done, failed⟩
      cases done
      exact absurd rfl failed
    · intro absurd
      cases absurd

/-- What `SYS_SEEK` answers, and the run after it. -/
theorem seek_call_exact (checked : Checked run.table current) (fd offset whence : UInt32)
    (notKilled : (run.table.objects current).killRequested = false)
    (inside : 3 ≤ fd.toNat ∧ fd.toNat < 16)
    (used : ((run.table.objects current).fds fd.toNat).used = true)
    (isFile : ((run.table.objects current).fds fd.toNat).file = file) (notNull : file ≠ 0) :
    syscallHandler current (.seek fd offset whence) run =
      match (run.files file).target offset.toInt32.toInt whence.toNat with
      | some position => .done (some position) (run.seekTo file position)
      | none => .done (some failure) run := by
  have found := Checked.fd_get checked inside used
  rw [isFile] at found
  simp only [syscallHandler, FileRequest.body, syscallSeek, bind_apply,
    Checked.finish_or_kill checked notKilled, andThen_done, Bool.false_eq_true, ↓reduceIte,
    checked.notNull, found, notNull, vfs_seek_exact notNull]
  cases (run.files file).target offset.toInt32.toInt whence.toNat with
  | none =>
    have after := Checked.finish_or_kill checked notKilled
    have code : vfsErrInvalid ≠ vfsOk := by decide
    simp only [andThen_done, pure_apply, code, ne_eq, not_false_eq_true, ↓reduceIte,
      bind_apply, after, Bool.false_eq_true]
  | some position =>
    have after : onTable (syscallFinishOrKill current) (run.seekTo file position) =
        .done false (run.seekTo file position) := Checked.finish_or_kill checked notKilled
    simp only [andThen_done, pure_apply, ne_eq, not_true_eq_false, ↓reduceIte,
      bind_apply, after, Bool.false_eq_true]

/-- `SYS_SEEK` on an open file returns, and its answer can be trusted exactly when the seek does not
go to a position from `2 ^ 31` on. -/
theorem seek_answer_iff (run : FileRun) (current file : Nat) (fd offset whence : UInt32)
    (checked : Checked run.table current)
    (notKilled : (run.table.objects current).killRequested = false)
    (inside : 3 ≤ fd.toNat ∧ fd.toNat < 16)
    (used : ((run.table.objects current).fds fd.toNat).used = true)
    (isFile : ((run.table.objects current).fds fd.toNat).file = file) (notNull : file ≠ 0) :
    ∃ eax next, syscallHandler current (.seek fd offset whence) run = .done (some eax) next ∧
      (SeekAnswerLaw run next file offset whence eax ↔
        ∀ position, (run.files file).target offset.toInt32.toInt whence.toNat = some position →
          position < 2 ^ 31) := by
  have exact := seek_call_exact checked fd offset whence notKilled inside used isFile notNull
  have fails : SeekFails run file offset whence ↔ _ := seek_fails_iff notNull offset whence
  cases found : (run.files file).target offset.toInt32.toInt whence.toNat with
  | none =>
    rw [found] at exact fails
    have failed : SeekFails run file offset whence := fails.mpr rfl
    have answer : int32 failure < 0 := by decide
    refine ⟨failure, run, exact, ?_⟩
    constructor
    · intro _ position absurd
      cases absurd
    · intro _
      exact ⟨iff_of_true answer failed, fun _ => rfl, fun succeeds => absurd failed succeeds⟩
  | some position =>
    rw [found] at exact fails
    have succeeds : ¬ SeekFails run file offset whence := fun failed => by cases fails.mp failed
    have bounded : position < 2 ^ 32 := Cursor.target_lt found
    have stands : ((run.seekTo file position).files file).offset = position := by rw [seek_to_self]
    refine ⟨position, run.seekTo file position, exact, ?_⟩
    constructor
    · rintro ⟨negative, -, -⟩ other isOther
      obtain rfl := Option.some.inj isOther
      have positive : ¬ int32 position < 0 := fun isNegative => succeeds (negative.mp isNegative)
      by_contra high
      exact positive (int32_high (Nat.le_of_not_lt high) bounded)
    · intro small
      have same := int32_of_range (by omega) (Int.ofNat_lt.mpr (small position rfl))
      refine ⟨?_, fun failed => absurd failed succeeds, fun _ => by rw [same, stands]⟩
      rw [same]
      exact iff_of_false (by omega) succeeds

/-- A process opens a file and makes seeks. -/
def seekCalls (seeks : List FileOp) : List FileOp :=
  .createProgram 0 0x1000 0x2000 0x1000000 0x6FFFF000 0x70000000 0x6FFFFFE0 0x3000 ::
    .call 0x1000 (.openFile (some "/programs".toList) 0x4000) :: seeks

/-- What the process needs for a call on its file. -/
def seekFacts (run : FileRun) : Nat × ProcessState × Bool × Descriptor × VfsFile :=
  ((run.table.objects 0x1000).magic, (run.table.objects 0x1000).state,
    (run.table.objects 0x1000).killRequested, (run.table.objects 0x1000).fds 3, run.files 0x4000)

/-- The process may make a call on its file, which is at the given position. -/
structure Seeking (run : FileRun) (offset : Nat) : Prop where
  reached : FilesReachable run
  checked : Checked run.table 0x1000
  notKilled : (run.table.objects 0x1000).killRequested = false
  used : ((run.table.objects 0x1000).fds 3).used = true
  isFile : ((run.table.objects 0x1000).fds 3).file = 0x4000
  stands : run.files 0x4000 = ⟨⟨"/programs".toList, vfsNodeRegular, programsText⟩, offset⟩

theorem seek_run_seeking (seeks : List FileOp) (offset : Nat)
    (ran : (filesRun (seekCalls seeks)).map seekFacts = some (processMagic, .running, false, ⟨true, 0x4000⟩,
      ⟨⟨"/programs".toList, vfsNodeRegular, programsText⟩, offset⟩)) :
    ∃ run, Seeking run offset := by
  obtain ⟨run, reached, shape⟩ := files_run_facts ran
  simp only [seekFacts, Prod.mk.injEq] at shape
  obtain ⟨magic, state, notKilled, slot, stands⟩ := shape
  have notNull : 0x1000 ≠ 0 := by decide
  have present : (run.table.objects 0x1000).state ≠ .destroyed := by
    rw [state]
    decide
  refine ⟨run, reached, ⟨notNull, magic, present⟩, notKilled, ?_, ?_, stands⟩
  · rw [slot]
  · rw [slot]

set_option maxRecDepth 100000 in
/-- A seek inside the file returns its position. -/
theorem short_seek_answered : ∃ run eax next, FilesReachable run ∧
    syscallHandler 0x1000 (.seek 3 6 0) run = .done (some eax) next ∧
    SeekAnswerLaw run next 0x4000 6 0 eax := by
  obtain ⟨run, seeking⟩ := seek_run_seeking [] 0 (by decide +kernel)
  have inside : 3 ≤ (3 : UInt32).toNat ∧ (3 : UInt32).toNat < 16 := by decide
  have notNull : 0x4000 ≠ 0 := by decide
  obtain ⟨eax, next, done, law⟩ := seek_answer_iff run 0x1000 0x4000 3 6 0 seeking.checked
    seeking.notKilled inside seeking.used seeking.isFile notNull
  refine ⟨run, eax, next, seeking.reached, done, law.mpr ?_⟩
  intro position found
  rw [seeking.stands] at found
  have isSix : some 6 = some position := found
  cases isSix
  decide

set_option maxRecDepth 100000 in
/-- A seek to `2 ^ 31` succeeds and is taken for an error. -/
theorem far_seek_negative : ∃ run eax next, FilesReachable run ∧
    syscallHandler 0x1000 (.seek 3 1 1) run = .done (some eax) next ∧
    int32 eax < 0 ∧ (next.files 0x4000).offset = 2 ^ 31 ∧
    ¬ SeekAnswerLaw run next 0x4000 1 1 eax := by
  obtain ⟨run, seeking⟩ := seek_run_seeking [.call 0x1000 (.seek 3 0x7FFFFFFF 0)] 0x7FFFFFFF
    (by decide +kernel)
  have inside : 3 ≤ (3 : UInt32).toNat ∧ (3 : UInt32).toNat < 16 := by decide
  have notNull : 0x4000 ≠ 0 := by decide
  have found : (run.files 0x4000).target (1 : UInt32).toInt32.toInt (1 : UInt32).toNat =
      some (2 ^ 31) := by
    rw [seeking.stands]
    rfl
  have done := seek_call_exact seeking.checked 3 1 1 seeking.notKilled inside seeking.used
    seeking.isFile notNull
  rw [found] at done
  have negative : int32 (2 ^ 31) < 0 := int32_high (Nat.le_refl _) (by decide)
  refine ⟨run, 2 ^ 31, run.seekTo 0x4000 (2 ^ 31), seeking.reached, done, negative, ?_, ?_⟩
  · rw [seek_to_self]
  · intro law
    have failed := (seek_fails_iff notNull 1 1).mp (law.negative.mp negative)
    rw [found] at failed
    cases failed

end Toyix.Files
