import Toyix.Files.Vfs
import Toyix.Library.Handles

/-!
# Every open file in one slot

The descriptor slots of the processes in the table hold the open files: a slot is a key in the
sense of `Library.Handles`, with the process as its owner. `vfs_open` makes a file that is loose
until `process_fd_install` stores it; `process_fd_close` and `process_close_all_files` empty slots
first and close afterwards. All other calls leave the slots alone.
-/

namespace Toyix.Files

open Library Library.Links Processes

variable {α β : Type} {run next : FileRun} {table after : ProcessTable} {fd : Nat} {process : Nat}

/-! ## Slots that are left alone -/

/-- The program changes no descriptor. -/
def KeepsFds (program : TableProgram α) : Prop :=
  ∀ table value after, program table = .done value after →
    ∀ process, (after.objects process).fds = (table.objects process).fds

namespace KeepsFds

/-- Nothing is done. -/
theorem pure (value : α) : KeepsFds (Pure.pure value) := by
  intro table value after done process
  cases done
  rfl

/-- A stop does not return. -/
theorem panic (message : String) : KeepsFds (Program.panic message : TableProgram α) := by
  intro table value after done
  cases done

/-- Reading the table, -/
theorem current : KeepsFds (Program.current : TableProgram ProcessTable) := by
  intro table value after done process
  cases done
  rfl

/-- or a process of it. -/
theorem readProcess (process : Nat) : KeepsFds (readProcess process) := by
  intro table value after done process
  cases done
  rfl

/-- Both parts keep them. -/
theorem bind {first : TableProgram α} {rest : α → TableProgram β} (isFirst : KeepsFds first)
    (isRest : ∀ value, KeepsFds (rest value)) : KeepsFds (first >>= rest) := by
  intro table value after done process
  obtain ⟨middle, between, firstDone, restDone⟩ := bind_eq_done.mp done
  rw [isRest middle between value after restDone process,
    isFirst table middle between firstDone process]

/-- Both branches keep them. -/
theorem ite {condition : Prop} [Decidable condition] {yes no : TableProgram α}
    (isYes : KeepsFds yes) (isNo : KeepsFds no) : KeepsFds (if condition then yes else no) := by
  split
  · exact isYes
  · exact isNo

/-- The processes are not changed, -/
theorem update {change : ProcessTable → ProcessTable}
    (kept : ∀ table, (change table).objects = table.objects) :
    KeepsFds (Program.update change) := by
  intro table value after done process
  cases done
  rw [kept]

/-- or not in this field. -/
theorem changeProcess {change : Process → Process}
    (kept : ∀ fields, (change fields).fds = fields.fds) :
    KeepsFds (changeProcess process change) := by
  intro table value after done other
  cases done
  exact change_field table Process.fds (kept _) other

/-- A search changes nothing. -/
theorem tableFind (test : Process → Bool) : KeepsFds (tableFind test) := by
  apply bind current
  intro table
  split
  · exact pure _
  · intro table value after done
    cases done

/-- `validate_process`. -/
theorem validateProcess (process : Nat) : KeepsFds (validateProcess process) := by
  apply ite (panic _)
  apply bind (readProcess _)
  intro fields
  exact ite (panic _) (pure _)

/-- A program that looks at the magic number first. -/
theorem validated {program : TableProgram α} (kept : KeepsFds program) :
    KeepsFds (Processes.validateProcess process >>= fun _ => program) :=
  bind (validateProcess _) fun _ => kept

/-- `validate_live_process`. -/
theorem validateLiveProcess (process : Nat) : KeepsFds (validateLiveProcess process) := by
  apply validated
  apply bind (readProcess _)
  intro fields
  exact ite (panic _) (pure _)

/-- `process_exit_current`: the slots are closed later. -/
theorem processExitCurrent (current exitCode : Nat) :
    KeepsFds (processExitCurrent current exitCode) := by
  apply ite
  · exact update fun _ => rfl
  · apply bind
    · exact changeProcess fun _ => rfl
    · intro _
      exact update fun _ => rfl

/-- `syscall_finish_or_kill`. -/
theorem syscallFinishOrKill (current : Nat) : KeepsFds (syscallFinishOrKill current) := by
  apply ite (pure _)
  apply bind
  · apply bind (validateLiveProcess _)
    intro _
    apply bind (readProcess _)
    intro fields
    exact pure _
  · intro requested
    apply ite
    · apply bind (processExitCurrent _ _)
      intro _
      exact pure _
    · exact pure _

/-- `process_start_user`. -/
theorem processStartUser (process thread : Nat) : KeepsFds (processStartUser process thread) := by
  apply validated
  apply bind (readProcess _)
  intro fields
  exact ite (panic _) (changeProcess fun _ => rfl)

/-- `process_request_kill_child`. -/
theorem processRequestKillChild (parentPid childPid : Nat) :
    KeepsFds (processRequestKillChild parentPid childPid) := by
  apply bind (tableFind _)
  intro child
  apply ite (pure _)
  apply bind (readProcess _)
  intro fields
  apply ite
  · apply bind
    · exact changeProcess fun _ => rfl
    · intro _
      exact pure _
  · exact pure _

/-- `process_fd_get`. -/
theorem processFdGet (process fd : Nat) : KeepsFds (processFdGet process fd) := by
  apply bind (validateLiveProcess _)
  intro _
  apply ite (pure _)
  apply bind (readProcess _)
  intro fields
  exact pure _

/-- `process_table_insert`. -/
theorem processTableInsert (process : Nat) : KeepsFds (processTableInsert process) :=
  validated (update fun _ => rfl)

/-- `process_table_remove`. -/
theorem processTableRemove (process : Nat) : KeepsFds (processTableRemove process) :=
  validated (update fun _ => rfl)

/-- Taking the parent from children keeps their descriptors. -/
theorem orphanChildren (pid : Nat) : KeepsFds (orphanChildren pid) := by
  intro table value after done process
  have visited : ∀ (fuel node : Nat) (objects objects' : Nat → Process),
      visit 0 table.links.next
        (fun process objects => Function.update objects process ((objects process).orphaned pid))
        fuel node objects = some objects' → (objects' process).fds = (objects process).fds := by
    intro fuel
    induction fuel with
    | zero =>
      intro node objects objects' result
      cases result
    | succ fuel ih =>
      intro node objects objects' result
      unfold visit at result
      split at result
      · cases result
        rfl
      · rw [ih _ _ _ result]
        by_cases isNode : process = node
        · rw [isNode, Function.update_self, Process.orphaned]
          split <;> rfl
        · rw [Function.update_of_ne isNode]
  simp only [Processes.orphanChildren, bind_apply, current_apply, andThen_done] at done
  cases result : visit 0 table.links.next
      (fun process objects => Function.update objects process ((objects process).orphaned pid))
      walkBound table.ends.first table.objects with
  | none =>
    rw [result] at done
    cases done
  | some objects =>
    rw [result] at done
    cases done
    exact visited _ _ _ _ result

end KeepsFds

/-! ## Programs on the slots -/

/-- A check changes nothing, -/
theorem validate_same {value : Unit} (done : validateProcess process table = .done value after) :
    after = table := by
  unfold validateProcess at done
  rw [ite_run] at done
  split at done
  · cases done
  · simp only [bind_apply, readProcess_apply, andThen_done, ite_run] at done
    split at done
    · cases done
    · cases done
      rfl

/-- and nor does this one. -/
theorem validate_live_same {value : Unit}
    (done : validateLiveProcess process table = .done value after) : after = table := by
  obtain ⟨_, checked, isChecked, rest⟩ := bind_eq_done.mp done
  rw [validate_same isChecked] at rest
  simp only [bind_apply, readProcess_apply, andThen_done, ite_run] at rest
  split at rest
  · cases rest
  · cases rest
    rfl

/-- An object from `process_create_empty` has no open files. -/
theorem create_empty_fds {object addressSpace value : Nat}
    (done : processCreateEmpty object addressSpace table = .done value after) :
    value = object ∧ (after.objects object).fds = Process.cleared.fds ∧
      ∀ other, other ≠ object → (after.objects other).fds = (table.objects other).fds := by
  unfold processCreateEmpty at done
  rw [ite_run] at done
  split at done
  · cases done
  · obtain ⟨_, _, current, done⟩ := bind_eq_done.mp done
    cases current
    obtain ⟨_, _, counted, done⟩ := bind_eq_done.mp done
    cases counted
    obtain ⟨_, filled, isFilled, done⟩ := bind_eq_done.mp done
    obtain ⟨_, inserted, isInserted, done⟩ := bind_eq_done.mp done
    cases done
    have kept := KeepsFds.processTableInsert _ _ _ _ isInserted
    cases isFilled
    refine ⟨rfl, ?_, ?_⟩
    · rw [kept, change_self]
    · intro other different
      rw [kept, change_other _ _ different]

/-- The rest of `program_create_process` does not open files. -/
theorem create_program_fds {current object addressSpace entry stackBase stackTop initialEsp thread
    value : Nat} (done : programCreateProcess current object addressSpace entry stackBase stackTop
      initialEsp thread table = .done value after) :
    value = object ∧ (after.objects object).fds = Process.cleared.fds ∧
      ∀ other, other ≠ object → (after.objects other).fds = (table.objects other).fds := by
  obtain ⟨process, created, isCreated, rest⟩ := bind_eq_done.mp done
  obtain ⟨isObject, fresh, others⟩ := create_empty_fds isCreated
  rw [isObject] at rest
  have finished : ∀ between, (do
      changeProcess object fun fields => { fields with userInitialEsp := initialEsp }
      processStartUser object thread
      pure object : TableProgram Nat) between = .done value after →
        value = object ∧ ∀ other, (after.objects other).fds = (between.objects other).fds := by
    intro between finish
    obtain ⟨_, pointed, isPointed, finish'⟩ := bind_eq_done.mp finish
    obtain ⟨_, started, isStarted, returns⟩ := bind_eq_done.mp finish'
    cases returns
    refine ⟨rfl, fun other => ?_⟩
    rw [KeepsFds.processStartUser _ _ _ _ _ isStarted]
    have kept : KeepsFds (changeProcess object fun fields =>
        { fields with userInitialEsp := initialEsp }) := KeepsFds.changeProcess fun _ => rfl
    exact kept _ _ _ isPointed other
  obtain ⟨_, stacked, isStacked, rest'⟩ := bind_eq_done.mp rest
  have keptStack : KeepsFds (processSetUserStack object stackBase stackTop) :=
    KeepsFds.validated (KeepsFds.changeProcess fun _ => rfl)
  obtain ⟨_, entered, isEntered, linked⟩ := bind_eq_done.mp rest'
  have keptEntry : KeepsFds (processSetUserEntry object entry) :=
    KeepsFds.validated (KeepsFds.changeProcess fun _ => rfl)
  have kept : value = object ∧
      ∀ other, (after.objects other).fds = (entered.objects other).fds := by
    simp only [ite_run] at linked
    split at linked
    · obtain ⟨parent, _, isRead, adopts⟩ := bind_eq_done.mp linked
      cases isRead
      obtain ⟨_, adopted, isAdopted, finish⟩ := bind_eq_done.mp adopts
      have keptParent : ∀ parentPid, KeepsFds (processSetParent object parentPid) := by
        intro parentPid
        apply KeepsFds.bind (KeepsFds.validateLiveProcess _)
        intro _
        exact KeepsFds.changeProcess fun _ => rfl
      obtain ⟨isValue, same⟩ := finished _ finish
      exact ⟨isValue, fun other => (same other).trans (keptParent _ _ _ _ isAdopted other)⟩
    · exact finished _ linked
  have same : ∀ other, (after.objects other).fds = (created.objects other).fds := by
    intro other
    rw [kept.2, keptEntry _ _ _ isEntered, keptStack _ _ _ isStacked]
  refine ⟨kept.1, ?_, ?_⟩
  · rw [same, fresh]
  · intro other different
    rw [same, others other different]

/-- The descriptors that `process_fd_install` looks at. -/
theorem first_free_fd (fds : Nat → Descriptor) {remaining first : Nat}
    (found : firstFreeFd fds remaining first = some fd) :
    first ≤ fd ∧ fd < first + remaining ∧ (fds fd).used = false ∧
      ∀ lower, first ≤ lower → lower < fd → (fds lower).used = true := by
  induction remaining generalizing first with
  | zero => cases found
  | succ remaining ih =>
    unfold firstFreeFd at found
    split at found
    · rename_i free
      cases found
      refine ⟨Nat.le_refl _, by omega, free, ?_⟩
      intro lower above below
      omega
    · rename_i used
      obtain ⟨above, below, free, lowest⟩ := ih found
      refine ⟨by omega, by omega, free, ?_⟩
      intro lower isAbove isBelow
      by_cases isFirst : lower = first
      · rw [isFirst]
        simpa using used
      · exact lowest lower (by omega) isBelow

/-- `process_fd_install` fills the lowest free slot or changes nothing. -/
theorem fd_install_cases {file : Nat} {fd : Int}
    (done : processFdInstall process file table = .done fd after) :
    (fd = -1 ∧ after = table) ∨ ∃ slot : Nat, fd = slot ∧ 3 ≤ slot ∧ slot < 16 ∧
      ((table.objects process).fds slot).used = false ∧
      (∀ lower, 3 ≤ lower → lower < slot → ((table.objects process).fds lower).used = true) ∧
      after = table.change process fun fields =>
        { fields with fds := Function.update fields.fds slot ⟨true, file⟩ } := by
  obtain ⟨_, checked, isChecked, rest⟩ := bind_eq_done.mp done
  rw [validate_live_same isChecked, ite_run] at rest
  split at rest
  · cases rest
    exact Or.inl ⟨rfl, rfl⟩
  · simp only [bind_apply, readProcess_apply, andThen_done] at rest
    cases found : firstFreeFd (table.objects process).fds (processMaxFds - processFirstFileFd)
        processFirstFileFd with
    | some slot =>
      rw [found] at rest
      obtain ⟨above, below, free, lowest⟩ := first_free_fd _ found
      cases rest
      exact Or.inr ⟨slot, rfl, above, below, free, lowest, rfl⟩
    | none =>
      rw [found] at rest
      cases rest
      exact Or.inl ⟨rfl, rfl⟩

/-- `process_fd_close` empties a slot that is in use, or changes nothing. -/
theorem fd_close_cases {answer : Int × Nat}
    (done : processFdClose process fd table = .done answer after) :
    (answer = (-1, 0) ∧ after = table ∧
      (3 ≤ fd → fd < 16 → ((table.objects process).fds fd).used = false)) ∨
    (3 ≤ fd ∧ fd < 16 ∧ ((table.objects process).fds fd).used = true ∧
      answer = (if ((table.objects process).fds fd).file = 0 then (-1, 0)
        else (0, ((table.objects process).fds fd).file)) ∧
      after = table.change process fun fields =>
        { fields with fds := Function.update fields.fds fd ⟨false, 0⟩ }) := by
  obtain ⟨_, checked, isChecked, rest⟩ := bind_eq_done.mp done
  rw [validate_live_same isChecked, ite_run] at rest
  split at rest
  · rename_i outside
    cases rest
    simp only [processFirstFileFd, processMaxFds] at outside
    exact Or.inl ⟨rfl, rfl, fun above below => by omega⟩
  · rename_i inside
    simp only [processFirstFileFd, processMaxFds] at inside
    simp only [bind_apply, readProcess_apply, andThen_done, ite_run] at rest
    split at rest
    · rename_i used
      cases rest
      exact Or.inr ⟨by omega, by omega, used, rfl, rfl⟩
    · rename_i unused
      cases rest
      exact Or.inl ⟨rfl, rfl, fun _ _ => by simpa using unused⟩

/-- The descriptors of one process that files can be behind. -/
def fileFds : List Nat := (List.range processMaxFds).drop processFirstFileFd

/-- Slots 3 to 15. -/
theorem mem_fileFds : fd ∈ fileFds ↔ 3 ≤ fd ∧ fd < 16 := by
  have listed : fileFds = List.range' 3 13 := by decide
  rw [listed, List.mem_range'_1]

/-- The files that `process_close_all_files` closes. -/
def filesOf (fds : Nat → Descriptor) : List Nat :=
  (fileFds.filter fun fd => (fds fd).used && decide ((fds fd).file ≠ 0)).map fun fd => (fds fd).file

/-- `process_destroy` up to the release of the space empties the slots of the process. -/
theorem detach_fds {answer : List Nat × Nat}
    (done : processDetach process table = .done answer after) :
    answer.1 = filesOf (table.objects process).fds ∧
      (after.objects process).fds = closedFds (table.objects process).fds ∧
      ∀ other, other ≠ process → (after.objects other).fds = (table.objects other).fds := by
  obtain ⟨_, checked, isChecked, rest⟩ := bind_eq_done.mp done
  rw [validate_live_same isChecked] at rest
  simp only [bind_apply, readProcess_apply, andThen_done, ite_run] at rest
  split at rest
  · cases rest
  · obtain ⟨_, orphaned, isOrphaned, rest'⟩ := bind_eq_done.mp rest
    obtain ⟨_, removed, isRemoved, closes⟩ := bind_eq_done.mp rest'
    have kept : ∀ other, (removed.objects other).fds = (table.objects other).fds := by
      intro other
      rw [KeepsFds.processTableRemove _ _ _ _ isRemoved, KeepsFds.orphanChildren _ _ _ _ isOrphaned]
    obtain ⟨files, closed, isClosed, returns⟩ := bind_eq_done.mp closes
    obtain ⟨_, valid, isValid, stores⟩ := bind_eq_done.mp isClosed
    rw [validate_live_same isValid] at stores
    simp only [bind_apply, readProcess_apply, andThen_done, changeProcess_apply] at stores
    cases stores
    cases returns
    refine ⟨?_, ?_, ?_⟩
    · simp only [filesOf, ← kept process]
      rfl
    · rw [change_self, ← kept process]
    · intro other different
      rw [change_other _ _ different, kept]

/-- A return of a table program. -/
theorem on_table_eq_done {program : TableProgram α} {value : α}
    (done : onTable program run = .done value next) :
    ∃ table, program run.table = .done value table ∧ next = { run with table := table } := by
  unfold onTable at done
  split at done
  · rename_i value table isDone
    cases done
    exact ⟨table, isDone, rfl⟩
  · cases done
  · cases done

/-! ## The invariant -/

/-- The slots of the processes in the table as keys. -/
def FileRun.handles (run : FileRun) : Handles (Nat × Nat) Nat Nat where
  held key :=
    if key.1 ∈ run.processes ∧ ((run.table.objects key.1).fds key.2).used = true then
      some ((run.table.objects key.1).fds key.2).file
    else none
  live := run.live
  opened := run.opened
  serial := run.serial
  closed := run.closed

/-- The number of the process that a slot belongs to. -/
def FileRun.owner (run : FileRun) (key : Nat × Nat) : Nat := run.birth key.1

/-- Open files are in slots, apart from the loose ones; slots below 3 are not used, and free slots
are null. -/
structure Filed (run : FileRun) (loose : List Nat) : Prop where
  sound : run.handles.Sound run.owner loose
  inside : ∀ process ∈ run.processes, ∀ fd,
    ((run.table.objects process).fds fd).used = true → 3 ≤ fd ∧ fd < 16
  free : ∀ process ∈ run.processes, ∀ fd,
    ((run.table.objects process).fds fd).used = false →
      ((run.table.objects process).fds fd).file = 0
  notNull : 0 ∉ run.live
  nodup : run.processes.Nodup
  born : ∀ process ∈ run.processes, run.birth process < run.created
  births : ∀ process ∈ run.processes, ∀ process' ∈ run.processes,
    run.birth process = run.birth process' → process = process'

variable {loose : List Nat}

/-- What a slot in use holds. -/
theorem held_of_used (member : process ∈ run.processes)
    (used : ((run.table.objects process).fds fd).used = true) :
    run.handles.held (process, fd) = some ((run.table.objects process).fds fd).file :=
  if_pos ⟨member, used⟩

/-- A key that is held is a slot in use. -/
theorem used_of_held {file : Nat} (isHeld : run.handles.held (process, fd) = some file) :
    process ∈ run.processes ∧ ((run.table.objects process).fds fd).used = true ∧
      ((run.table.objects process).fds fd).file = file := by
  simp only [FileRun.handles] at isHeld
  split at isHeld
  · rename_i used
    exact ⟨used.1, used.2, Option.some.inj isHeld⟩
  · cases isHeld

/-- A slot in use holds a file. -/
theorem Filed.file_ne_zero (filed : Filed run loose) (member : process ∈ run.processes)
    (used : ((run.table.objects process).fds fd).used = true) :
    ((run.table.objects process).fds fd).file ≠ 0 := by
  intro isNull
  have isHeld := held_of_used member used
  rw [isNull] at isHeld
  exact filed.notNull (filed.sound.heldLive _ _ isHeld).1

/-- Only the slots and the records matter. -/
theorem Filed.congr (filed : Filed run loose) (processes : next.processes = run.processes)
    (fds : ∀ process ∈ run.processes,
      (next.table.objects process).fds = (run.table.objects process).fds)
    (live : next.live = run.live) (opened : next.opened = run.opened)
    (serial : next.serial = run.serial) (closed : next.closed = run.closed)
    (created : next.created = run.created) (birth : next.birth = run.birth) : Filed next loose := by
  have handles : next.handles = run.handles := by
    unfold FileRun.handles
    congr 1
    funext key
    by_cases member : key.1 ∈ run.processes
    · simp only [processes, fds key.1 member]
    · rw [if_neg, if_neg]
      · exact fun both => member both.1
      · exact fun both => member (processes ▸ both.1)
  have owner : next.owner = run.owner := by
    funext key
    simp only [FileRun.owner, birth]
  constructor
  · rw [handles, owner]
    exact filed.sound
  · intro process member fd
    rw [processes] at member
    rw [fds process member]
    exact filed.inside process member fd
  · intro process member fd
    rw [processes] at member
    rw [fds process member]
    exact filed.free process member fd
  · rw [live]
    exact filed.notNull
  · rw [processes]
    exact filed.nodup
  · rw [processes, birth, created]
    exact filed.born
  · rw [processes, birth]
    exact filed.births

/-- A part of `process.c` that keeps the descriptors keeps the invariant. -/
theorem Filed.on_table (filed : Filed run loose) {program : TableProgram α} {value : α}
    (kept : KeepsFds program) (done : onTable program run = .done value next) :
    Filed next loose := by
  obtain ⟨table, isDone, rfl⟩ := on_table_eq_done done
  exact filed.congr rfl (fun process _ => kept _ _ _ isDone process) rfl rfl rfl rfl rfl rfl

/-! ## Slots that change -/

/-- The run after the descriptors of one process have changed. -/
def FileRun.refit (run : FileRun) (process : Nat) (update : (Nat → Descriptor) → Nat → Descriptor) :
    FileRun :=
  { run with
    table := run.table.change process fun fields => { fields with fds := update fields.fds } }

variable {process file : Nat} {update : (Nat → Descriptor) → Nat → Descriptor}

/-- The descriptors of the process, -/
theorem refit_self (run : FileRun) (process : Nat)
    (update : (Nat → Descriptor) → Nat → Descriptor) :
    ((run.refit process update).table.objects process).fds =
      update (run.table.objects process).fds := by
  simp only [FileRun.refit, change_self]

/-- and of any other. -/
theorem refit_other (run : FileRun) {other : Nat} (update : (Nat → Descriptor) → Nat → Descriptor)
    (different : other ≠ process) :
    ((run.refit process update).table.objects other).fds = (run.table.objects other).fds := by
  simp only [FileRun.refit, change_other _ _ different]

/-- Other descriptors in one process, when the slots in use account for the files. -/
theorem Filed.refit {loose' : List Nat} (filed : Filed run loose)
    (sound : (run.refit process update).handles.Sound run.owner loose')
    (inside : ∀ fd, (update (run.table.objects process).fds fd).used = true → 3 ≤ fd ∧ fd < 16)
    (free : process ∈ run.processes → ∀ fd, (update (run.table.objects process).fds fd).used = false →
      (update (run.table.objects process).fds fd).file = 0) :
    Filed (run.refit process update) loose' := by
  constructor
  · exact sound
  · intro other member fd
    by_cases isProcess : other = process
    · rw [isProcess, refit_self]
      exact inside fd
    · rw [refit_other run update isProcess]
      exact filed.inside other member fd
  · intro other member fd
    by_cases isProcess : other = process
    · subst isProcess
      rw [refit_self]
      exact free member fd
    · rw [refit_other run update isProcess]
      exact filed.free other member fd
  · exact filed.notNull
  · exact filed.nodup
  · exact filed.born
  · exact filed.births

/-- A loose file of the process is stored in a free slot. -/
theorem Filed.store (filed : Filed run (file :: loose)) (member : process ∈ run.processes)
    {slot : Nat} (above : 3 ≤ slot) (below : slot < 16)
    (unused : ((run.table.objects process).fds slot).used = false)
    (opener : run.opened[run.serial file]? = some (run.birth process)) :
    Filed (run.refit process fun fds => Function.update fds slot ⟨true, file⟩) loose := by
  have put : (run.refit process fun fds => Function.update fds slot ⟨true, file⟩).handles =
      run.handles.put (process, slot) file := by
    unfold Handles.put
    unfold FileRun.handles
    congr 1
    funext key
    obtain ⟨other, fd⟩ := key
    by_cases isProcess : other = process
    · subst isProcess
      by_cases isSlot : fd = slot
      · subst isSlot
        rw [Function.update_self]
        simp only [refit_self, Function.update_self]
        exact if_pos ⟨member, trivial⟩
      · have different : (other, fd) ≠ (other, slot) := fun same => isSlot (Prod.mk.inj same).2
        rw [Function.update_of_ne different]
        simp only [refit_self, Function.update_of_ne isSlot]
        rfl
    · have different : (other, fd) ≠ (process, slot) := fun same => isProcess (Prod.mk.inj same).1
      rw [Function.update_of_ne different]
      simp only [refit_other run _ isProcess]
      rfl
  apply filed.refit
  · rw [put]
    have empty : run.handles.held (process, slot) = none := by
      simp only [FileRun.handles, unused, Bool.false_eq_true, and_false, ↓reduceIte]
    exact filed.sound.put empty opener
  · intro fd used
    by_cases isSlot : fd = slot
    · exact isSlot ▸ ⟨above, below⟩
    · rw [Function.update_of_ne isSlot] at used
      exact filed.inside process member fd used
  · intro _ fd isFree
    by_cases isSlot : fd = slot
    · rw [isSlot, Function.update_self] at isFree
      cases isFree
    · rw [Function.update_of_ne isSlot] at isFree ⊢
      exact filed.free process member fd isFree

/-- A set of slots of one process is emptied. -/
theorem Filed.clear (filed : Filed run loose) (member : process ∈ run.processes)
    (update : (Nat → Descriptor) → Nat → Descriptor) {fds : List Nat} (nodup : fds.Nodup)
    (cleared : ∀ fd, update (run.table.objects process).fds fd =
      if fd ∈ fds ∧ ((run.table.objects process).fds fd).used = true then ⟨false, 0⟩
      else (run.table.objects process).fds fd) :
    Filed (run.refit process update)
      ((fds.map fun fd => (process, fd)).filterMap run.handles.held ++ loose) := by
  have taken : (run.refit process update).handles =
      run.handles.takeAll (fds.map fun fd => (process, fd)) := by
    have records : ∀ keys : List (Nat × Nat), (run.handles.takeAll keys) =
        { run.handles with held := (run.handles.takeAll keys).held } := by
      intro keys
      generalize run.handles = handles
      induction keys generalizing handles with
      | nil => rfl
      | cons key rest ih => exact ih (handles.take key)
    rw [records]
    have same : (run.refit process update).handles.held =
        (run.handles.takeAll (fds.map fun fd => (process, fd))).held := by
      funext key
      obtain ⟨other, fd⟩ := key
      rw [Handles.takeAll_held]
      by_cases isProcess : other = process
      · subst isProcess
        have isKey : (other, fd) ∈ fds.map (fun fd => (other, fd)) ↔ fd ∈ fds := by simp
        simp only [FileRun.handles, refit_self, cleared, isKey]
        by_cases isFd : fd ∈ fds
        · by_cases used : ((run.table.objects other).fds fd).used = true
          · simp [isFd, used]
          · simp [isFd, used]
        · simp only [isFd, false_and, ↓reduceIte]
          rfl
      · have isKey : (other, fd) ∉ fds.map (fun fd => (process, fd)) := by
          simp only [List.mem_map, Prod.mk.injEq, not_exists, not_and]
          intro _ _ same
          exact absurd same.symm isProcess
        rw [if_neg isKey]
        simp only [FileRun.handles, refit_other run update isProcess]
        rfl
    rw [← same]
    rfl
  apply filed.refit
  · rw [taken]
    apply filed.sound.takeAll
    exact nodup.map fun left right same => (Prod.mk.inj same).2
  · intro fd used
    rw [cleared] at used
    split at used
    · cases used
    · exact filed.inside process member fd used
  · intro _ fd isFree
    rw [cleared] at isFree ⊢
    split at isFree
    · rename_i emptied
      rw [if_pos emptied]
    · rename_i kept
      rw [if_neg kept]
      exact filed.free process member fd isFree

/-- A loose file is closed. -/
theorem Filed.close {value : PUnit} (filed : Filed run (file :: loose))
    (done : vfsClose file run = .done value next) :
    Filed next loose ∧ next.table = run.table ∧ next.processes = run.processes := by
  have isLive : file ∈ run.live := filed.sound.looseLive file List.mem_cons_self
  have notNull : file ≠ 0 := fun isNull => filed.notNull (isNull ▸ isLive)
  unfold vfsClose at done
  rw [if_neg notNull] at done
  cases done
  refine ⟨⟨filed.sound.close, filed.inside, filed.free, ?_, filed.nodup, filed.born, filed.births⟩,
    rfl, rfl⟩
  intro isNull
  exact filed.notNull (List.mem_of_mem_erase isNull)

/-- Loose files are closed one after the other. -/
theorem Filed.close_files {files : List Nat} {value : PUnit} (filed : Filed run (files ++ loose))
    (done : closeFiles files run = .done value next) :
    Filed next loose ∧ next.table = run.table ∧ next.processes = run.processes := by
  induction files generalizing run with
  | nil =>
    cases done
    exact ⟨filed, rfl, rfl⟩
  | cons file rest ih =>
    obtain ⟨_, between, isClosed, closes⟩ := bind_eq_done.mp done
    obtain ⟨filed', sameTable, sameProcesses⟩ := filed.close isClosed
    obtain ⟨final, sameTable', sameProcesses'⟩ := ih filed' closes
    exact ⟨final, sameTable'.trans sameTable, sameProcesses'.trans sameProcesses⟩

end Toyix.Files
