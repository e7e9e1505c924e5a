import Toyix.Files.Slots

/-!
# The life of open files

Every call keeps the accounts of the open files. A run therefore never loses a file, never has it
in two slots and never closes it twice, and when a process has been destroyed each file it opened
has been closed.
-/

namespace Toyix.Files

open Library Library.Links Processes Function

variable {run next : FileRun} {loose : List Nat} {current process : Nat} {eax fd : Nat}
  {request : FileRequest}

/-- The descriptors of all processes are the same. -/
def SameSlots (run next : FileRun) : Prop :=
  ∀ process, (next.table.objects process).fds = (run.table.objects process).fds

theorem SameSlots.trans {between : FileRun} (first : SameSlots run between)
    (second : SameSlots between next) : SameSlots run next :=
  fun process => (second process).trans (first process)

/-- The lowest free descriptor from 3 on gets a file; no other slot changes. -/
structure OpensLowest (run next : FileRun) (process fd file : Nat) : Prop where
  above : 3 ≤ fd
  below : fd < processMaxFds
  free : ((run.table.objects process).fds fd).used = false
  lowest : ∀ lower, 3 ≤ lower → lower < fd →
    ((run.table.objects process).fds lower).used = true
  stored : (next.table.objects process).fds =
    update (run.table.objects process).fds fd ⟨true, file⟩
  others : ∀ other, other ≠ process →
    (next.table.objects other).fds = (run.table.objects other).fds

/-- What a call does to the slots, besides keeping the accounts. -/
structure Answered (run next : FileRun) : Prop where
  filed : Filed next []
  processes : next.processes = run.processes

/-! ## System calls -/

/-- `vfs_open` fails and changes nothing, or makes a loose file. -/
theorem vfs_open_cases (filed : Filed run loose) {opener block : Nat} {path : List Char}
    {answer : Int × Nat} (fresh : block ∉ run.live)
    (done : vfsOpen opener path block run = .done answer next) :
    (answer.1 ≠ vfsOk ∧ next = run) ∨
    (answer = (vfsOk, block) ∧ block ≠ 0 ∧ Filed next (block :: loose) ∧ next.table = run.table ∧
      next.processes = run.processes ∧ next.birth = run.birth ∧
      next.opened[next.serial block]? = some opener) := by
  unfold vfsOpen at done
  cases found : ramfsFind path with
  | none =>
    rw [found] at done
    cases done
    exact Or.inl ⟨by decide, rfl⟩
  | some node =>
    rw [found] at done
    simp only [ite_run] at done
    split at done
    · cases done
      exact Or.inl ⟨by decide, rfl⟩
    · rename_i notNull
      cases done
      refine Or.inr ⟨rfl, notNull, ?_, rfl, rfl, rfl, ?_⟩
      · refine ⟨filed.sound.openNew fresh opener, filed.inside, filed.free, ?_, filed.nodup,
          filed.born, filed.births⟩
        intro isNull
        rcases List.mem_cons.mp isNull with same | old
        · exact notNull same.symm
        · exact filed.notNull old
      · simp

/-- `syscall_open`. -/
theorem syscall_open_run (filed : Filed run []) {path : Option (List Char)} {block : Nat}
    (isCurrent : current = 0 ∨ current ∈ run.processes) (fresh : block ∉ run.live)
    (done : syscallOpen current path block run = .done eax next) :
    Answered run next ∧
      ((eax = failure ∧ SameSlots run next) ∨ OpensLowest run next current eax block) := by
  have unchanged : Answered run run ∧ ((failure = failure ∧ SameSlots run run) ∨
      OpensLowest run run current failure block) :=
    ⟨⟨filed, rfl⟩, Or.inl ⟨rfl, fun _ => rfl⟩⟩
  unfold syscallOpen at done
  rw [ite_run] at done
  split at done
  · cases done
    exact unchanged
  · rename_i notNull
    have member := isCurrent.resolve_left notNull
    split at done
    · cases done
      exact unchanged
    · simp only [bind_apply, current_apply, andThen_done] at done
      obtain ⟨answer, opened, isOpened, installs⟩ := bind_eq_done.mp done
      rcases vfs_open_cases filed fresh isOpened with ⟨failed, rfl⟩ | facts
      · simp only [failed, ne_eq, not_false_eq_true, true_or, ↓reduceIte] at installs
        cases installs
        exact unchanged
      · obtain ⟨rfl, isBlock, filed', sameTable, sameProcesses, sameBirth, opener⟩ := facts
        simp only [ne_eq, not_true_eq_false, isBlock, or_self, ↓reduceIte] at installs
        obtain ⟨fd, installed, isInstalled, answers⟩ := bind_eq_done.mp installs
        obtain ⟨table, isTable, rfl⟩ := on_table_eq_done isInstalled
        rcases fd_install_cases isTable with ⟨rfl, rfl⟩ | stored
        · simp only [Int.reduceNeg, Int.reduceLT, ↓reduceIte] at answers
          obtain ⟨_, closed, isClosed, returns⟩ := bind_eq_done.mp answers
          cases returns
          obtain ⟨final, finalTable, finalProcesses⟩ := filed'.close isClosed
          refine ⟨⟨final, finalProcesses.trans sameProcesses⟩, Or.inl ⟨rfl, ?_⟩⟩
          intro other
          rw [finalTable, sameTable]
        · obtain ⟨slot, rfl, above, below, unused, lowest, rfl⟩ := stored
          have nonneg : ¬ ((slot : Int) < 0) := by omega
          rw [ite_run, if_neg nonneg] at answers
          cases answers
          have member' : current ∈ opened.processes := sameProcesses ▸ member
          have opener' : opened.opened[opened.serial block]? = some (opened.birth current) := by
            rw [opener, sameBirth]
          have final := filed'.store member' above below unused opener'
          refine ⟨⟨final, sameProcesses⟩, Or.inr ?_⟩
          rw [sameTable] at unused lowest
          refine ⟨above, below, unused, lowest, ?_, ?_⟩
          · rw [← sameTable]
            exact refit_self opened current fun fds => update fds slot ⟨true, block⟩
          · intro other different
            rw [← sameTable]
            exact refit_other opened (fun fds => update fds slot ⟨true, block⟩) different

/-- `syscall_close`. -/
theorem syscall_close_run (filed : Filed run []) (isCurrent : current = 0 ∨ current ∈ run.processes)
    (done : syscallClose current fd run = .done eax next) :
    Answered run next ∧ (eax = failure → SameSlots run next) := by
  unfold syscallClose at done
  rw [ite_run] at done
  split at done
  · cases done
    exact ⟨⟨filed, rfl⟩, fun _ _ => rfl⟩
  · rename_i passes
    rw [not_or] at passes
    have member := isCurrent.resolve_left passes.1
    obtain ⟨answer, emptied, isEmptied, closes⟩ := bind_eq_done.mp done
    obtain ⟨table, isTable, rfl⟩ := on_table_eq_done isEmptied
    rcases fd_close_cases isTable with ⟨rfl, rfl, -⟩ | ⟨above, below, used, isAnswer, isChange⟩
    · cases closes
      exact ⟨⟨filed, rfl⟩, fun _ _ => rfl⟩
    · have notNull := filed.file_ne_zero member used
      rw [if_neg notNull] at isAnswer
      subst isAnswer
      obtain ⟨_, closed, isClosed, returns⟩ := bind_eq_done.mp closes
      cases returns
      have cleared := filed.clear member (fun fds => update fds fd ⟨false, 0⟩)
        (List.nodup_singleton fd) (by
          intro fd'
          by_cases isFd : fd' = fd
          · simp [isFd, used]
          · simp [isFd])
      have held := held_of_used member used
      simp only [List.map_cons, List.map_nil, List.filterMap_cons, held, List.filterMap_nil] at cleared
      subst isChange
      obtain ⟨final, -, finalProcesses⟩ := cleared.close isClosed
      refine ⟨⟨final, finalProcesses⟩, ?_⟩
      intro absurd
      cases absurd

/-- The program keeps the accounts and changes no descriptor. -/
def KeepsSlots {α : Type} (program : FileProgram α) : Prop :=
  ∀ run value next, Filed run [] → program run = .done value next →
    Answered run next ∧ SameSlots run next

namespace KeepsSlots

variable {α β : Type}

/-- A program that changes nothing but offsets. -/
theorem of_offsets {program : FileProgram α}
    (same : ∀ run value next, program run = .done value next → ∃ files, next = { run with files := files }) :
    KeepsSlots program := by
  intro run value next filed done
  obtain ⟨files, rfl⟩ := same run value next done
  exact ⟨⟨filed.congr rfl (fun _ _ => rfl) rfl rfl rfl rfl rfl rfl, rfl⟩, fun _ => rfl⟩

theorem pure (value : α) : KeepsSlots (Pure.pure value) := by
  apply of_offsets
  intro run value next done
  cases done
  exact ⟨run.files, rfl⟩

theorem now : KeepsSlots (Program.current : FileProgram FileRun) := by
  apply of_offsets
  intro run value next done
  cases done
  exact ⟨run.files, rfl⟩

theorem setOffset (file offset : Nat) : KeepsSlots (setOffset file offset) := by
  apply of_offsets
  intro run value next done
  cases done
  exact ⟨_, rfl⟩

/-- A program on the table that changes no descriptor. -/
theorem onTable {program : TableProgram α} (kept : KeepsFds program) : KeepsSlots (onTable program) := by
  intro run value next filed done
  obtain ⟨table, isDone, rfl⟩ := on_table_eq_done done
  exact ⟨⟨filed.on_table kept done, rfl⟩, kept _ _ _ isDone⟩

theorem bind {first : FileProgram α} {rest : α → FileProgram β} (isFirst : KeepsSlots first)
    (isRest : ∀ value, KeepsSlots (rest value)) : KeepsSlots (first >>= rest) := by
  intro run value next filed done
  obtain ⟨middle, between, firstDone, restDone⟩ := bind_eq_done.mp done
  obtain ⟨answered, same⟩ := isFirst _ _ _ filed firstDone
  obtain ⟨answered', same'⟩ := isRest _ _ _ _ answered.filed restDone
  exact ⟨⟨answered'.filed, answered'.processes.trans answered.processes⟩, same.trans same'⟩

theorem ite {condition : Prop} [Decidable condition] {yes no : FileProgram α}
    (isYes : KeepsSlots yes) (isNo : KeepsSlots no) :
    KeepsSlots (if condition then yes else no) := by
  split
  · exact isYes
  · exact isNo

/-- Reading moves the offset. -/
theorem vfsRead (file length : Nat) : KeepsSlots (vfsRead file length) := by
  apply ite (pure _)
  apply ite (pure _)
  apply bind now
  intro run
  apply ite (pure _)
  exact bind (setOffset _ _) fun _ => pure _

/-- And so does seeking. -/
theorem vfsSeek (file : Nat) (offset : Int) (whence : Nat) : KeepsSlots (vfsSeek file offset whence) := by
  apply ite (pure _)
  apply bind now
  intro run
  dsimp only
  split
  · exact pure _
  · apply ite (pure _)
    exact bind (setOffset _ _) fun _ => pure _

theorem syscallRead (current fd length typed : Nat) (copied : Bool) :
    KeepsSlots (syscallRead current fd length typed copied) := by
  apply ite (pure _)
  apply ite (pure _)
  apply ite (pure _)
  apply bind (onTable (KeepsFds.processFdGet current fd))
  intro file
  apply ite (pure _)
  apply bind (vfsRead _ _)
  intro answer
  exact ite (pure _) (pure _)

theorem syscallSeek (current fd : Nat) (offset : Int) (whence : Nat) :
    KeepsSlots (syscallSeek current fd offset whence) := by
  apply ite (pure _)
  apply bind (onTable (KeepsFds.processFdGet current fd))
  intro file
  apply ite (pure _)
  exact bind (vfsSeek _ _ _) fun _ => pure _

end KeepsSlots

/-! ## The handler -/

/-- What a call returns to its process, in the words of the slots. -/
def FileRequest.Law (run next : FileRun) (current : Nat) (eax : Nat) : FileRequest → Prop
  | .openFile _ block => (eax = failure ∧ SameSlots run next) ∨ OpensLowest run next current eax block
  | .close _ => eax = failure → SameSlots run next
  | _ => SameSlots run next

/-- The slots and processes before and after a call may be looked at through equal descriptors. -/
theorem FileRequest.Law.congr {run' next' : FileRun} (law : request.Law run next current eax)
    (before : SameSlots run' run) (after : SameSlots next next') :
    request.Law run' next' current eax := by
  have compose : SameSlots run next → SameSlots run' next' :=
    fun same => (before.trans same).trans after
  cases request with
  | openFile path block =>
    rcases law with ⟨failed, same⟩ | opens
    · exact Or.inl ⟨failed, compose same⟩
    · refine Or.inr ⟨opens.above, opens.below, ?_, ?_, ?_, ?_⟩
      · rw [← before]
        exact opens.free
      · intro lower above below
        rw [← before]
        exact opens.lowest lower above below
      · rw [after, opens.stored, before]
      · intro other different
        rw [after, opens.others other different, before]
  | close fd => exact fun failed => compose (law failed)
  | read fd length typed copied => exact compose law
  | seek fd offset whence => exact compose law
  | exit exitCode => exact compose law

theorem body_run (filed : Filed run []) (isCurrent : current = 0 ∨ current ∈ run.processes)
    (fresh : request.Fresh run) (done : request.body current run = .done eax next) :
    Answered run next ∧ request.Law run next current eax := by
  cases request with
  | openFile path block => exact syscall_open_run filed isCurrent fresh done
  | close fd => exact syscall_close_run filed isCurrent done
  | read fd length typed copied => exact KeepsSlots.syscallRead _ _ _ _ _ _ _ _ filed done
  | seek fd offset whence => exact KeepsSlots.syscallSeek _ _ _ _ _ _ _ filed done
  | exit exitCode =>
    cases done
    exact ⟨⟨filed, rfl⟩, fun _ => rfl⟩

/-- `syscall_handler`. -/
theorem syscall_handler_run (filed : Filed run []) {answer : Option Nat}
    (isCurrent : current = 0 ∨ current ∈ run.processes) (fresh : request.Fresh run)
    (done : syscallHandler current request run = .done answer next) :
    Answered run next ∧ ∀ eax, answer = some eax → request.Law run next current eax := by
  by_cases isExit : ∃ exitCode, request = .exit exitCode
  · obtain ⟨exitCode, rfl⟩ := isExit
    obtain ⟨_, exited, isExited, returns⟩ := bind_eq_done.mp done
    cases returns
    have kept := KeepsSlots.onTable (KeepsFds.processExitCurrent current exitCode.toNat)
    exact ⟨(kept _ _ _ filed isExited).1, fun _ absurd => by cases absurd⟩
  · have unfolded : syscallHandler current request = (do
        let killed ← onTable (syscallFinishOrKill current)
        if killed then pure none
        else do
          let eax ← request.body current
          let killed ← onTable (syscallFinishOrKill current)
          pure (if killed then none else some eax) : FileProgram (Option Nat)) := by
      cases request with
      | exit exitCode => exact absurd ⟨exitCode, rfl⟩ isExit
      | openFile path block => rfl
      | close fd => rfl
      | read fd length typed copied => rfl
      | seek fd offset whence => rfl
    rw [unfolded] at done
    obtain ⟨killed, checked, isChecked, rest⟩ := bind_eq_done.mp done
    have kept := KeepsSlots.onTable (KeepsFds.syscallFinishOrKill current)
    obtain ⟨asked, same⟩ := kept _ _ _ filed isChecked
    have live : checked.live = run.live := by
      obtain ⟨table, -, rfl⟩ := on_table_eq_done isChecked
      rfl
    rw [ite_run] at rest
    split at rest
    · cases rest
      exact ⟨asked, fun _ absurd => by cases absurd⟩
    · obtain ⟨eax, worked, isWorked, rest'⟩ := bind_eq_done.mp rest
      have fresh' : request.Fresh checked := by
        cases request with
        | openFile path block =>
          show block ∉ checked.live
          rw [live]
          exact fresh
        | _ => trivial
      obtain ⟨answered, law⟩ := body_run asked.filed (asked.processes ▸ isCurrent) fresh' isWorked
      obtain ⟨killed', final, isFinal, returns⟩ := bind_eq_done.mp rest'
      cases returns
      obtain ⟨ended, same'⟩ := kept _ _ _ answered.filed isFinal
      refine ⟨⟨ended.filed, (ended.processes.trans answered.processes).trans asked.processes⟩, ?_⟩
      intro value isValue
      split at isValue
      · cases isValue
      · cases isValue
        exact law.congr same same'

/-! ## Processes come and go -/

/-- A process that has just been created has no open files. -/
theorem Filed.create (filed : Filed run []) {object : Nat} {program : TableProgram Nat}
    {result : PUnit} (fresh : object ∉ run.processes)
    (creates : ∀ table value after, program table = .done value after →
      value = object ∧ (after.objects object).fds = Process.cleared.fds ∧
        ∀ other, other ≠ object → (after.objects other).fds = (table.objects other).fds)
    (done : (do
      let object ← onTable program
      recordCreation object : FileProgram PUnit) run = .done result next) : Filed next [] := by
  obtain ⟨value, created, isCreated, records⟩ := bind_eq_done.mp done
  obtain ⟨table, isTable, rfl⟩ := on_table_eq_done isCreated
  obtain ⟨rfl, cleared, others⟩ := creates _ _ _ isTable
  cases records
  have old : ∀ process ∈ run.processes, process ≠ value := fun process member same =>
    fresh (same ▸ member)
  have unused : ∀ fd, ((table.objects value).fds fd) = ⟨false, 0⟩ := by
    intro fd
    rw [cleared]
    rfl
  have handles : FileRun.handles { run with
      table := table
      processes := run.processes ++ [value]
      created := run.created + 1
      birth := update run.birth value run.created } = run.handles := by
    unfold FileRun.handles
    congr 1
    funext key
    by_cases isNew : key.1 = value
    · simp only [isNew, unused, fresh, Bool.false_eq_true, and_false, false_and, ↓reduceIte]
    · simp only [List.mem_append, List.mem_singleton, isNew, or_false, others _ isNew]
  have members : ∀ process, process ∈ run.processes ++ [value] →
      process ∈ run.processes ∨ process = value := by
    intro process member
    rcases List.mem_append.mp member with before | new
    · exact Or.inl before
    · exact Or.inr (List.mem_singleton.mp new)
  have birthOld : ∀ process ∈ run.processes,
      update run.birth value run.created process = run.birth process :=
    fun process member => update_of_ne (old process member) _ _
  constructor
  · rw [handles]
    apply filed.sound.reown
    intro key isHeld
    apply birthOld
    by_contra absent
    exact isHeld (if_neg fun both => absent both.1)
  · intro process member fd used
    rcases members process member with before | rfl
    · simp only [others process (old process before)] at used
      exact filed.inside process before fd used
    · simp only [unused fd] at used
      cases used
  · intro process member fd isFree
    rcases members process member with before | rfl
    · simp only [others process (old process before)] at isFree ⊢
      exact filed.free process before fd isFree
    · simp only [unused fd]
  · exact filed.notNull
  · rw [List.nodup_append]
    refine ⟨filed.nodup, List.nodup_singleton _, ?_⟩
    intro process member process' isNew same
    rw [List.mem_singleton] at isNew
    exact fresh (isNew ▸ same ▸ member)
  · intro process member
    rcases members process member with before | rfl
    · simp only [birthOld process before]
      exact Nat.lt_succ_of_lt (filed.born process before)
    · simp only [update_self]
      exact Nat.lt_succ_self _
  · intro process member process' member' same
    rcases members process member with before | rfl <;>
      rcases members process' member' with before' | rfl
    · simp only [birthOld process before, birthOld process' before'] at same
      exact filed.births process before process' before' same
    · simp only [birthOld process before, update_self] at same
      exact absurd same (Nat.ne_of_lt (filed.born process before))
    · simp only [birthOld process' before', update_self] at same
      exact absurd same.symm (Nat.ne_of_lt (filed.born process' before'))
    · rfl

/-- The files in the slots of a process are those that `process_close_all_files` closes. -/
theorem Filed.files_of (filed : Filed run loose) (member : process ∈ run.processes) :
    (fileFds.map fun fd => (process, fd)).filterMap run.handles.held =
      filesOf (run.table.objects process).fds := by
  have used : ∀ fd, ((run.table.objects process).fds fd).used = true →
      ((run.table.objects process).fds fd).file ≠ 0 := fun fd => filed.file_ne_zero member
  unfold filesOf
  induction fileFds with
  | nil => rfl
  | cons fd rest ih =>
    cases isUsed : ((run.table.objects process).fds fd).used with
    | true =>
      have held := held_of_used member isUsed
      simp only [List.map_cons, List.filterMap_cons, held, List.filter_cons, isUsed, used fd isUsed,
        ne_eq, not_false_eq_true, decide_true, Bool.and_self, ↓reduceIte, ih]
    | false =>
      have held : run.handles.held (process, fd) = none := by
        simp only [FileRun.handles, isUsed, Bool.false_eq_true, and_false, ↓reduceIte]
      simp only [List.map_cons, List.filterMap_cons, held, List.filter_cons, isUsed, Bool.false_and,
        Bool.false_eq_true, ↓reduceIte, ih]

/-- A process without open files goes. -/
theorem Filed.erase (filed : Filed run [])
    (unused : ∀ fd, ((run.table.objects process).fds fd).used = false) :
    Filed { run with processes := run.processes.erase process } [] := by
  have remains : ∀ other, other ∈ run.processes.erase process →
      other ∈ run.processes := fun other => List.mem_of_mem_erase
  have handles : FileRun.handles { run with processes := run.processes.erase process } =
      run.handles := by
    unfold FileRun.handles
    congr 1
    funext key
    by_cases isProcess : key.1 = process
    · simp only [isProcess, unused, Bool.false_eq_true, and_false, ↓reduceIte]
    · simp only [List.mem_erase_of_ne isProcess]
  constructor
  · rw [handles]
    exact filed.sound
  · intro other member
    exact filed.inside other (remains other member)
  · intro other member
    exact filed.free other (remains other member)
  · exact filed.notNull
  · exact filed.nodup.erase process
  · intro other member
    exact filed.born other (remains other member)
  · intro other member other' member'
    exact filed.births other (remains other member) other' (remains other' member')

/-- `process_destroy` closes the files of the process. -/
theorem Filed.destroy (filed : Filed run []) {result : PUnit} (member : process ∈ run.processes)
    (done : destroyProcess process run = .done result next) : Filed next [] := by
  obtain ⟨⟨released, space⟩, detached, isDetached, closes⟩ := bind_eq_done.mp done
  obtain ⟨table, isTable, isNext⟩ := on_table_eq_done isDetached
  obtain ⟨files, cleared, others⟩ := detach_fds isTable
  have emptied := filed.clear member closedFds (show fileFds.Nodup by decide) (by
    intro fd
    simp only [closedFds, mem_fileFds, processFirstFileFd, processMaxFds, and_assoc]
    rfl)
  rw [filed.files_of member] at emptied
  have filed' : Filed detached (filesOf (run.table.objects process).fds ++ []) := by
    subst isNext
    refine emptied.congr rfl ?_ rfl rfl rfl rfl rfl rfl
    intro other _
    by_cases isProcess : other = process
    · rw [isProcess, refit_self]
      exact cleared
    · rw [refit_other run closedFds isProcess]
      exact others other isProcess
  simp only at files closes
  rw [files] at closes
  obtain ⟨_, closed, isClosed, rest⟩ := bind_eq_done.mp closes
  obtain ⟨filed'', sameTable, sameProcesses⟩ := filed'.close_files isClosed
  obtain ⟨_, discarded, isDiscarded, removes⟩ := bind_eq_done.mp rest
  have kept : KeepsFds (processDiscard process) := KeepsFds.changeProcess fun _ => rfl
  obtain ⟨answered, same⟩ := KeepsSlots.onTable kept _ _ _ filed'' isDiscarded
  cases removes
  refine answered.filed.erase ?_
  intro fd
  rw [same, sameTable, isNext, cleared]
  unfold closedFds
  split
  · rfl
  · rename_i isOutside
    cases isUsed : ((run.table.objects process).fds fd).used with
    | false => rfl
    | true =>
      have inside := filed.inside process member fd isUsed
      exact absurd ⟨inside.1, inside.2, isUsed⟩ isOutside

/-! ## Runs -/

/-- One call keeps the accounts. -/
theorem Filed.step (filed : Filed run []) {op : FileOp} (call : FileCall run op)
    (taken : fileStep op run = some next) : Filed next [] := by
  obtain ⟨result, final, done, rfl⟩ := done_of_map taken
  cases op with
  | createEmpty object addressSpace =>
    exact filed.create call (fun _ _ _ => create_empty_fds) done
  | createProgram current object addressSpace entry stackBase stackTop initialEsp thread =>
    exact filed.create call.1 (fun _ _ _ => create_program_fds) done
  | startUser process thread =>
    exact filed.on_table (KeepsFds.processStartUser process thread) done
  | requestKillChild parentPid childPid =>
    obtain ⟨_, killed, isKilled, returns⟩ := bind_eq_done.mp done
    cases returns
    exact filed.on_table (KeepsFds.processRequestKillChild _ _) isKilled
  | call current request =>
    obtain ⟨_, answered, isAnswered, returns⟩ := bind_eq_done.mp done
    cases returns
    exact (syscall_handler_run filed call.1 call.2 isAnswered).1.filed
  | destroy process => exact filed.destroy call done

/-- Runs from `process_init_system`. -/
def FilesReachable (run : FileRun) : Prop :=
  ∃ objects links files birth serial,
    Reaches fileStep FileCall (filesStart objects links files birth serial) run

theorem reachable_filed (reached : FilesReachable run) : Filed run [] := by
  obtain ⟨objects, links, files, birth, serial, reaches⟩ := reached
  apply reaches.invariant fun run => Filed run []
  · constructor
    · apply Handles.empty_sound
      intro key
      simp [filesStart]
    all_goals simp [filesStart]
  · intro run op next filed call taken
    exact filed.step call taken

/-- The law of open files in one state: the live files are those in used slots of the processes
that have not been destroyed; a live file is in one slot; the slots below 3 are not used and a free
slot is null; `SYS_OPEN` returns the lowest free descriptor or fails without a change; a failing
`SYS_CLOSE` changes nothing; a file has been closed at most once, and exactly once when its
process is gone. -/
structure FileLaw (run : FileRun) : Prop where
  live : ∀ file, file ∈ run.live ↔ ∃ process ∈ run.processes, ∃ fd < processMaxFds,
    (run.table.objects process).fds fd = ⟨true, file⟩
  once : ∀ file, ∀ process ∈ run.processes, ∀ process' ∈ run.processes, ∀ fd fd',
    (run.table.objects process).fds fd = ⟨true, file⟩ →
    (run.table.objects process').fds fd' = ⟨true, file⟩ → process = process' ∧ fd = fd'
  standard : ∀ process ∈ run.processes, ∀ fd < 3,
    ((run.table.objects process).fds fd).used = false
  free : ∀ process ∈ run.processes, ∀ fd, ((run.table.objects process).fds fd).used = false →
    ((run.table.objects process).fds fd).file = 0
  opens : ∀ current path block eax next, current = 0 ∨ current ∈ run.processes →
    block ∉ run.live →
    syscallHandler current (.openFile path block) run = .done (some eax) next →
    (eax = failure ∧ SameSlots run next) ∨ OpensLowest run next current eax block
  closes : ∀ current fd next, current = 0 ∨ current ∈ run.processes →
    syscallHandler current (.close fd) run = .done (some failure) next → SameSlots run next
  closedOnce : ∀ number opener, run.opened[number]? = some opener →
    run.closed.count number ≤ 1 ∧
      ((∀ process ∈ run.processes, run.birth process ≠ opener) → run.closed.count number = 1)

/-- In every state that calls by any processes reach, open files are neither leaked nor shared nor
closed twice.

Proof: the accounts of `Filed` hold at the start and survive every call. A file that is open is
held by a slot of the process that opened it, so nothing of a process that is gone is open. -/
theorem files_accounted (run : FileRun) (reached : FilesReachable run) : FileLaw run := by
  have filed := reachable_filed reached
  have held : ∀ {process fd file}, process ∈ run.processes →
      (run.table.objects process).fds fd = ⟨true, file⟩ →
      run.handles.held (process, fd) = some file := by
    intro process fd file member slot
    have used : ((run.table.objects process).fds fd).used = true := by rw [slot]
    have isHeld := held_of_used member used
    rw [slot] at isHeld
    exact isHeld
  constructor
  · intro file
    constructor
    · intro isLive
      obtain ⟨⟨process, fd⟩, isHeld⟩ := filed.sound.accounted file isLive List.not_mem_nil
      obtain ⟨member, used, isFile⟩ := used_of_held isHeld
      refine ⟨process, member, fd, (filed.inside process member fd used).2, ?_⟩
      rw [← used, ← isFile]
    · rintro ⟨process, member, fd, -, slot⟩
      exact (filed.sound.heldLive _ _ (held member slot)).1
  · intro file process member process' member' fd fd' slot slot'
    have same := filed.sound.apart _ _ _ (held member slot) (held member' slot')
    exact Prod.mk.inj same
  · intro process member fd low
    cases used : ((run.table.objects process).fds fd).used with
    | false => rfl
    | true =>
      have inside := filed.inside process member fd used
      omega
  · exact filed.free
  · intro current path block eax next isCurrent fresh done
    have isFresh : (FileRequest.openFile path block).Fresh run := fresh
    exact (syscall_handler_run filed isCurrent isFresh done).2 eax rfl
  · intro current fd next isCurrent done
    have isFresh : (FileRequest.close fd).Fresh run := trivial
    exact (syscall_handler_run filed isCurrent isFresh done).2 failure rfl rfl
  · intro number opener isOpener
    refine ⟨List.nodup_iff_count_le_one.mp filed.sound.closedNodup number, ?_⟩
    intro gone
    have below : number < run.opened.length := (List.getElem?_eq_some_iff.mp isOpener).1
    apply List.count_eq_one_of_mem filed.sound.closedNodup
    refine (filed.sound.closedIff number below).mpr ?_
    intro file isLive isNumber
    obtain ⟨⟨process, fd⟩, isHeld⟩ := filed.sound.accounted file isLive List.not_mem_nil
    have owned := filed.sound.owned _ _ isHeld
    have isNumber' : run.handles.serial file = number := isNumber
    rw [isNumber'] at owned
    have same := owned.symm.trans isOpener
    exact gone process (used_of_held isHeld).1 (Option.some.inj same)

/-- A process reads a file, leaves it open and exits. -/
def readAndExit : List FileOp :=
  [.createProgram 0 0x1000 0x2000 0x1000000 0x6FFFF000 0x70000000 0x6FFFFFE0 0x3000,
    .call 0x1000 (.openFile (some "/README".toList) 0x4000),
    .call 0x1000 (.read 3 8 0 true),
    .call 0x1000 (.openFile (some "/missing".toList) 0x5000),
    .call 0x1000 (.exit 0),
    .destroy 0x1000]

instance (run : FileRun) (request : FileRequest) : Decidable (request.Fresh run) :=
  match request with
  | .openFile _ _ => inferInstanceAs (Decidable (_ ∉ _))
  | .close _ | .read _ _ _ _ | .seek _ _ _ | .exit _ => isTrue trivial

instance (run : FileRun) (op : FileOp) : Decidable (FileCall run op) :=
  match op with
  | .createEmpty _ _ => inferInstanceAs (Decidable (_ ∉ _))
  | .createProgram _ _ _ _ _ _ _ _ | .call _ _ => inferInstanceAs (Decidable (_ ∧ _))
  | .startUser _ _ | .destroy _ => inferInstanceAs (Decidable (_ ∈ _))
  | .requestKillChild _ _ => isTrue trivial

/-- Calls made after boot. -/
def filesRun (ops : List FileOp) : Option FileRun :=
  runAll fileStep FileCall ops (filesStart (fun _ => Process.cleared) ⟨fun _ => 0, fun _ => 0⟩
    (fun _ => ⟨⟨[], 0, []⟩, 0⟩) (fun _ => 0) (fun _ => 0))

theorem files_run_facts {β : Type} {facts : FileRun → β} {values : β} {ops : List FileOp}
    (completed : (filesRun ops).map facts = some values) :
    ∃ run, FilesReachable run ∧ facts run = values := by
  obtain ⟨run, reached, seen⟩ := Reaches.of_facts completed
  exact ⟨run, ⟨_, _, _, _, _, reached⟩, seen⟩

set_option maxRecDepth 100000 in
/-- The file that the process left open has been closed once. -/
theorem left_open_closed_once : ∃ run, FileLaw run ∧ run.opened = [0] ∧ run.closed = [0] ∧
    run.live = [] := by
  have completed : ((filesRun readAndExit).map fun run => (run.opened, run.closed, run.live)) =
      some ([0], [0], []) := by decide +kernel
  obtain ⟨run, reached, shape⟩ := files_run_facts completed
  simp only [Prod.mk.injEq] at shape
  exact ⟨run, files_accounted run reached, shape.1, shape.2.1, shape.2.2⟩

end Toyix.Files
