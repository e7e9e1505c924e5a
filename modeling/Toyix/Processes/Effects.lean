import Toyix.Processes.Collection

/-!
# What the pieces of code do

Every piece of code of a thread has one of a few effects on the processes: the thread
goes on to another place, its process ends, a child is marked to be killed, descriptors
change, a process is launched, taken out of the table, or given up. The laws about
waiters are proved for these effects.

`Tidy` is what all of them rely on: running threads belong to listed processes that have
not exited, one thread to a process, and whoever holds a process holds one that is
still there, alone.
-/

namespace Toyix.Processes

open Library Library.Links

variable {table : ProcessTable} {live detached : List Nat} {process current pid : Nat} {phase : Phase}

/-! ## The parts of the calls -/

/-- The table after `process_exit_current`. -/
def ProcessTable.ended (table : ProcessTable) (process exitCode : Nat) : ProcessTable :=
  { table.change process fun fields =>
      { fields with exitCode := exitCode, exited := true, state := .zombie, killRequested := false } with
    lastExitCode := exitCode
    lastExitSeen := true }

theorem process_exit_run (notNull : process ≠ 0) (exitCode : Nat) (table : ProcessTable) :
    processExitCurrent process exitCode table = .done ⟨⟩ (table.ended process exitCode) := by
  simp only [processExitCurrent, notNull, ↓reduceIte, bind_apply, changeProcess_apply,
    andThen_done, Program.update_apply]
  rfl

theorem ended_self (table : ProcessTable) (process exitCode : Nat) :
    (table.ended process exitCode).objects process = { table.objects process with
      exitCode := exitCode, exited := true, state := .zombie, killRequested := false } := by
  simp [ProcessTable.ended, ProcessTable.change]

theorem ended_other (table : ProcessTable) {other : Nat} (exitCode : Nat)
    (different : other ≠ process) :
    (table.ended process exitCode).objects other = table.objects other := by
  simp [ProcessTable.ended, ProcessTable.change, different]

theorem Listed.ended (listed : Listed table live) (member : process ∈ live) (exitCode : Nat) :
    Listed (table.ended process exitCode) live :=
  (process_exit_listed listed (Or.inr member) exitCode).of_done
    (process_exit_run (listed.ne_zero member) exitCode table)

/-- A call asks whether its process has to end. -/
theorem finish_or_kill_run (listed : Listed table live) (isCurrent : current = 0 ∨ current ∈ live) :
    (syscallFinishOrKill current table = .done false table ∧
        (current ≠ 0 → (table.objects current).killRequested = false)) ∨
      (current ≠ 0 ∧ (table.objects current).killRequested = true ∧
        syscallFinishOrKill current table =
          .done true (table.ended current processKilledExitCode)) := by
  by_cases kernel : current = 0
  · refine Or.inl ⟨?_, fun absurd => (absurd kernel).elim⟩
    simp [syscallFinishOrKill, kernel]
  · have checked := listed.checked (isCurrent.resolve_left kernel)
    simp only [syscallFinishOrKill, kernel, ↓reduceIte, bind_apply, processKillRequested,
      checked.validate_live_process, andThen_done, readProcess_apply, pure_apply]
    cases requested : (table.objects current).killRequested with
    | false => simp
    | true => simp [kernel, process_exit_run kernel]

/-- The table after a kill request. -/
def ProcessTable.marked (table : ProcessTable) (child : Nat) : ProcessTable :=
  table.change child fun fields => { fields with killRequested := true }

/-- `SYS_KILL` marks a child that has not exited, or does nothing. -/
theorem syscall_kill_run (listed : Listed table live) (isCurrent : current = 0 ∨ current ∈ live)
    (targetPid : Nat) :
    (syscallKill current targetPid table = .done failure table ∧
        ∀ child ∈ live, (table.objects child).pid = targetPid → current ∈ live →
          (table.objects child).parentPid = (table.objects current).pid →
          targetPid ≠ (table.objects current).pid → (table.objects child).exited = true) ∨
      ∃ child ∈ live, current ∈ live ∧ (table.objects child).pid = targetPid ∧
        (table.objects child).parentPid = (table.objects current).pid ∧
        (table.objects child).killable = true ∧
        syscallKill current targetPid table = .done 0 (table.marked child) := by
  by_cases kernel : current = 0
  · refine Or.inl ⟨?_, ?_⟩
    · simp [syscallKill, kernel]
    · intro child _ _ isLive
      exact absurd kernel (listed.ne_zero isLive)
  · have isLive := isCurrent.resolve_left kernel
    simp only [syscallKill, kernel, ↓reduceIte, bind_apply, readProcess_apply, andThen_done, ite_run]
    split
    · rename_i refused
      refine Or.inl ⟨rfl, ?_⟩
      intro child member isTarget _ _ notSelf
      rcases refused with zero | self
      · have positive := (listed.sound child member).positive
        omega
      · exact absurd self notSelf
    · simp only [bind_apply, processRequestKillChild, table_find_run listed, andThen_done, ite_run]
      cases search : live.find? fun process =>
          decide ((table.objects process).pid = targetPid) &&
            decide ((table.objects process).parentPid = (table.objects current).pid) with
      | none =>
        refine Or.inl ⟨?_, ?_⟩
        · simp
        · intro child member isTarget _ isChild _
          have misses := List.find?_eq_none.mp search child member
          simp [isTarget, isChild] at misses
      | some child =>
        have member := List.mem_of_find?_eq_some search
        have passes := List.find?_some search
        simp only [Bool.and_eq_true, decide_eq_true_eq] at passes
        simp only [Option.getD_some, listed.ne_zero member, ↓reduceIte, readProcess_apply,
          andThen_done]
        cases killable : (table.objects child).killable with
        | true =>
          refine Or.inr ⟨child, member, isLive, passes.1, passes.2, killable, ?_⟩
          simp [ProcessTable.marked]
        | false =>
          refine Or.inl ⟨by simp, ?_⟩
          intro other isOther isTarget _ _ _
          have same : other = child :=
            listed.pid_injective isOther member (isTarget.trans passes.1.symm)
          have sound := listed.sound child member
          rw [same, sound.exits]
          by_contra alive
          have notExited : (table.objects child).exited = false := by
            rw [Bool.eq_false_iff, Ne, sound.exits]
            exact alive
          simp [Process.killable, notExited, alive, sound.present] at killable

/-- `SYS_WAITPID` finds a child of the caller, or nothing. -/
theorem waitpid_find_run (listed : Listed table live) (isCurrent : current ∈ live) (pid : Nat) :
    (syscallWaitpidFind current pid table = .done 0 table) ∨
      ∃ child ∈ live, child ≠ current ∧ (table.objects child).pid = pid ∧
        (table.objects child).parentPid = (table.objects current).pid ∧
        syscallWaitpidFind current pid table = .done child table := by
  obtain ⟨found, lookup, isFound, -⟩ := process_find_run listed pid
  have kernel := listed.ne_zero isCurrent
  simp only [syscallWaitpidFind, kernel, ↓reduceIte, bind_apply, lookup, andThen_done, ite_run]
  split
  · exact Or.inl rfl
  · rename_i usable
    have notNull : found ≠ 0 := fun null => usable (Or.inl null)
    have other : found ≠ current := fun same => usable (Or.inr same)
    obtain ⟨member, isPid⟩ := isFound notNull
    simp only [bind_apply, readProcess_apply, andThen_done, processIsChildOf,
      (listed.checked member).validate_live_process, pure_apply]
    by_cases isChild : (table.objects found).parentPid = (table.objects current).pid
    · refine Or.inr ⟨found, member, other, isPid, isChild, ?_⟩
      simp [isChild]
    · refine Or.inl ?_
      simp [isChild]

/-- `process_destroy` accepts a process that has exited. -/
theorem destroy_enter_run (listed : Listed table live) (member : process ∈ live)
    (exited : (table.objects process).exited = true) :
    processDestroyEnter process table = .done (table.objects process).pid table := by
  simp [processDestroyEnter, bind_apply, (listed.checked member).validate_live_process, exited]

/-- The table after the section of `process_destroy`. -/
theorem destroy_remove_run (listed : Listed table live) (member : process ∈ live) :
    ∃ next, processDestroyRemove process (table.objects process).pid table = .done ⟨⟩ next ∧
      Listed next (live.erase process) ∧ next.nextPid = table.nextPid ∧
      ∀ other, next.objects other =
        if other ∈ live then (table.objects other).orphaned (table.objects process).pid
        else table.objects other := by
  obtain ⟨objects, orphaned, effect⟩ := orphan_children_run listed (table.objects process).pid
  have checked := listed.checked_orphaned member effect
  refine ⟨({ table with objects := objects } : ProcessTable).removed process, ?_, ?_, rfl, effect⟩
  · simp only [processDestroyRemove, bind_apply, orphaned, andThen_done, checked.table_remove]
  · apply listed.erase member
    · rfl
    · rfl
    · rfl
    · rfl
    · intro other isLive _
      exact (effect other).trans (if_pos isLive)

/-! ## Threads -/

/-- A thread that can still make calls or wait. -/
def Stage.active : Stage → Bool
  | .user => true
  | .resting => true
  | .holding _ _ _ => true
  | .exiting => false
  | .gone => false
  | .reaped => false

/-- The process is still in the table. -/
def Phase.listed : Phase → Bool
  | .removed => false
  | .closed => false
  | _ => true

/-- The waiter has seen that the process has exited. -/
def Phase.isOver : Phase → Bool
  | .found => false
  | .waiting => false
  | _ => true

/-- The thread has found the process with a pid and has not given it up. -/
def UserThread.holds (record : UserThread) (pid : Nat) : Bool :=
  match record.stage with
  | .holding _ _ held => decide (held = pid)
  | _ => false

theorem holds_of_stage {record : UserThread} (stage : record.stage = .holding phase process pid) :
    record.holds pid = true := by
  simp [UserThread.holds, stage]

theorem stage_of_holds {record : UserThread} (holds : record.holds pid = true) :
    ∃ phase process, record.stage = .holding phase process pid := by
  unfold UserThread.holds at holds
  split at holds
  · rename_i phase process held isStage
    exact ⟨phase, process, by rw [isStage, of_decide_eq_true holds]⟩
  · simp at holds

/-- A thread and the processes it knows. -/
structure Fits (table : ProcessTable) (live detached : List Nat) (record : UserThread) : Prop where
  given : record.pid < table.nextPid
  alive : record.process ≠ 0 → record.stage.active = true → record.process ∈ live ∧
    (table.objects record.process).pid = record.pid ∧
    (table.objects record.process).exited = false
  held : ∀ phase process pid, record.stage = .holding phase process pid →
    (table.objects process).pid = pid ∧ (phase.listed = true → process ∈ live) ∧
    (phase.listed = false → process ∈ detached) ∧
    (phase.isOver = true → (table.objects process).exited = true)

/-- The process a waiter holds is an object. -/
theorem Fits.object {record : UserThread}
    (fits : Fits table live detached record) (stage : record.stage = .holding phase process pid) :
    process ∈ live ∨ process ∈ detached := by
  obtain ⟨-, isLive, isDetached, -⟩ := fits.held phase process pid stage
  cases listed : phase.listed with
  | true => exact Or.inl (isLive listed)
  | false => exact Or.inr (isDetached listed)

/-- A process that is out of the table and still an object. -/
structure Detached (table : ProcessTable) (live : List Nat) (process : Nat) : Prop where
  checked : Checked table process
  unlisted : process ∉ live
  given : (table.objects process).pid < table.nextPid
  unlike : ∀ other ∈ live, (table.objects other).pid ≠ (table.objects process).pid

/-- What every piece of code relies on and keeps. -/
structure Tidy (state : Collection) : Prop where
  listed : Listed state.table state.live
  nodup : state.detached.Nodup
  detached : ∀ process ∈ state.detached, Detached state.table state.live process
  fits : ∀ (thread : Nat) record, state.threads[thread]? = some record →
    Fits state.table state.live state.detached record
  distinct : ∀ (thread thread' : Nat) record record', state.threads[thread]? = some record →
    state.threads[thread']? = some record' → record.process ≠ 0 → record'.process ≠ 0 →
    record.pid = record'.pid → thread = thread'
  single : ∀ (thread thread' : Nat) record record' pid, state.threads[thread]? = some record →
    state.threads[thread']? = some record' → record.holds pid = true → record'.holds pid = true →
    thread = thread'
  owned : ∀ process, process ∈ state.live ∨ process ∈ state.detached →
    ∃ record, state.threads[(state.table.objects process).mainThread]? = some record ∧
      record.process = process ∧ record.pid = (state.table.objects process).pid

theorem Tidy.checked {state : Collection} (tidy : Tidy state)
    (isObject : process ∈ state.live ∨ process ∈ state.detached) : Checked state.table process :=
  isObject.elim tidy.listed.checked fun isDetached => (tidy.detached process isDetached).checked

/-- The pid that a piece of code looks up in order to wait for its process. -/
def Piece.seeks : Piece → Option Nat
  | .waitpid _ pid _ => some pid.toNat
  | .monitorWait _ pid => some pid.toNat
  | _ => none

/-- The monitor may wait for every process, a user thread for the children of its process. -/
def MayWait (state : Collection) (record : UserThread) (piece : Piece) (process : Nat) : Prop :=
  record.process = 0 ∧ (∃ thread number, piece = .monitorWait thread number) ∨
    record.process ≠ 0 ∧ process ≠ record.process ∧
      (state.table.objects process).parentPid = (state.table.objects record.process).pid

/-! ## Effects -/

/-- What a piece of code does to the record of a thread and to the processes. -/
inductive Effect (state : Collection) (thread : Nat) (record : UserThread) (piece : Piece) :
    Collection → Prop
  | answers (eax : Nat) (stage : record.stage = .user) :
    Effect state thread record piece (state.setThread thread { record with eax := eax })
  | rests (stage : record.stage = .user) :
    Effect state thread record piece (state.setThread thread { record with stage := .resting })
  | wakes (eax : Nat) (stage : record.stage = .resting) :
    Effect state thread record piece
      (state.setThread thread { record with stage := .user, eax := eax })
  | finishes (stage : record.stage = .exiting) :
    Effect state thread record piece (state.setThread thread { record with stage := .gone })
  | reaps (stage : record.stage = .gone) :
    Effect state thread record piece (state.setThread thread { record with stage := .reaped })
  | ends (exitCode eax : Nat) (final : Stage) (notKernel : record.process ≠ 0)
      (stage : record.stage = .user ∧ final = .gone ∨ record.stage = .resting ∧ final = .exiting)
      (cause : (state.table.objects record.process).killRequested = true ∧
          exitCode = processKilledExitCode ∨
        ∃ code : UInt32, piece = .exit thread code ∧ exitCode = code.toNat) :
    Effect state thread record piece
      ({ state with table := state.table.ended record.process exitCode }.setThread thread
        { record with stage := final, eax := eax })
  | marks (child eax : Nat) (stage : record.stage = .user) (notKernel : record.process ≠ 0)
      (member : child ∈ state.live)
      (isChild : (state.table.objects child).parentPid =
        (state.table.objects record.process).pid)
      (killable : (state.table.objects child).killable = true) :
    Effect state thread record piece
      ({ state with table := state.table.marked child }.setThread thread { record with eax := eax })
  | files (eax : Nat) (fds : Nat → Descriptor) (stage : record.stage = .user)
      (notKernel : record.process ≠ 0) :
    Effect state thread record piece
      ({ state with table := state.table.change record.process fun fields =>
        { fields with fds := fds } }.setThread thread { record with eax := eax })
  | launches (object eax : Nat) (table : ProcessTable) (stage : record.stage = .user)
      (fresh : object ∉ state.live ∧ object ∉ state.detached)
      (launched : Launched state.table state.live object
        (if record.process = 0 then 0 else (state.table.objects record.process).pid)
        state.threads.length table) :
    Effect state thread record piece
      { state with
        table := table
        live := state.live ++ [object]
        threads := (state.threads.set thread { record with eax := eax }) ++
          [⟨object, state.table.nextPid, .user, 0, 0, 0⟩] }
  | finds (process pid userStatus : Nat) (stage : record.stage = .user)
      (seeks : piece.seeks = some pid) (member : process ∈ state.live)
      (isPid : (state.table.objects process).pid = pid)
      (caller : MayWait state record piece process) :
    Effect state thread record piece (state.setThread thread
      { record with stage := .holding .found process pid, userStatus := userStatus })
  | enters (process pid : Nat) (stage : record.stage = .holding .found process pid) :
    Effect state thread record piece
      (state.setThread thread { record with stage := .holding .waiting process pid })
  | tests (process pid : Nat) (stage : record.stage = .holding .waiting process pid) :
    Effect state thread record piece state
  | sees (process pid : Nat) (stage : record.stage = .holding .waiting process pid)
      (exited : (state.table.objects process).exited = true) :
    Effect state thread record piece
      (state.setThread thread { record with stage := .holding .exited process pid })
  | collects (process pid : Nat) (stored : List Delivery)
      (stage : record.stage = .holding .exited process pid)
      (copied : stored = state.stored ∧ (record.process = 0 ∨ record.userStatus = 0) ∨
        stored = ⟨pid, (state.table.objects process).exitCode⟩ :: state.stored) :
    Effect state thread record piece ({ state with stored := stored }.setThread thread
      { record with
        status := (state.table.objects process).exitCode
        stage := .holding .collected process pid })
  | refuses (process pid : Nat) (stage : record.stage = .holding .exited process pid) :
    Effect state thread record piece (state.setThread thread
      { record with status := (state.table.objects process).exitCode, stage := .user, eax := failure })
  | destroys (process pid : Nat) (stage : record.stage = .holding .collected process pid)
      (isPiece : piece = .destroy thread) :
    Effect state thread record piece
      ({ state with destroys := Function.update state.destroys pid (state.destroys pid + 1)
        }.setThread thread { record with stage := .holding .destroying process pid })
  | removes (process pid : Nat) (table : ProcessTable)
      (stage : record.stage = .holding .destroying process pid)
      (listed : Listed table (state.live.erase process))
      (nextPid : table.nextPid = state.table.nextPid)
      (objects : ∀ other, table.objects other =
        if other ∈ state.live then (state.table.objects other).orphaned pid
        else state.table.objects other) :
    Effect state thread record piece
      ({ state with
        table := table
        live := state.live.erase process
        detached := process :: state.detached }.setThread thread
          { record with stage := .holding .removed process pid })
  | closes (process pid : Nat) (stage : record.stage = .holding .removed process pid) :
    Effect state thread record piece
      ({ state with table := state.table.filesClosed process }.setThread thread
        { record with stage := .holding .closed process pid })
  | discards (process pid : Nat) (stage : record.stage = .holding .closed process pid) :
    Effect state thread record piece
      ({ state with
        table := state.table.discarded process
        detached := state.detached.erase process
        delivered := if record.process = 0 then state.delivered
          else ⟨pid, record.status⟩ :: state.delivered }.setThread thread
            { record with stage := .user, eax := 0 })

variable {state next : Collection} {thread : Nat} {record : UserThread} {piece : Piece}

theorem user_active (user : record.stage = .user) : record.stage.active = true := by
  rw [user]
  rfl

theorem Fits.known (fits : Fits table live detached record) (active : record.stage.active = true) :
    record.process = 0 ∨ record.process ∈ live := by
  by_cases kernel : record.process = 0
  · exact Or.inl kernel
  · exact Or.inr (fits.alive kernel active).1

/-- A program on the table that returns. -/
theorem on_table_done {α : Type} {program : TableProgram α}
    {proceed : α → Collection → Collection} {value : α} {table : ProcessTable}
    (run : program state.table = .done value table)
    (taken : state.onTable program proceed = some next) :
    next = proceed value { state with table := table } := by
  simp only [Collection.onTable, run, Outcome.result, Option.map_some, Option.some.injEq] at taken
  exact taken.symm

/-- A call that first asks whether the process has to end. -/
theorem checked_call_effect (tidy : Tidy state) (found : state.threads[thread]? = some record)
    (user : record.stage = .user) {proceed : Collection → Option Collection}
    (taken : state.checkedCall thread record proceed = some next) :
    Effect state thread record piece next ∨ proceed state = some next := by
  rcases finish_or_kill_run tidy.listed ((tidy.fits thread record found).known (user_active user)) with
    ⟨run, -⟩ | ⟨notKernel, requested, run⟩
  · right
    simpa [Collection.checkedCall, run, Outcome.result] using taken
  · left
    simp only [Collection.checkedCall, run, Outcome.result, Option.bind_some, ↓reduceIte,
      Option.some.injEq] at taken
    rw [← taken]
    exact .ends _ record.eax .gone notKernel (Or.inl ⟨user, rfl⟩) (Or.inl ⟨requested, rfl⟩)

/-- A waiter that holds a process touches the process it found. -/
theorem touch_held (fits : Fits state.table state.live state.detached record)
    (stage : record.stage = .holding phase process pid) : state.touch process pid = state := by
  have intact : state.Intact process pid := ⟨fits.object stage, (fits.held phase process pid stage).1⟩
  simp [Collection.touch, intact]

theorem set_thread_self (found : state.threads[thread]? = some record) :
    state.setThread thread record = state := by
  obtain ⟨inside, isRecord⟩ := List.getElem?_eq_some_iff.mp found
  subst isRecord
  simp [Collection.setThread]

/-- A call, or a piece of a kernel thread. -/
theorem call_effect (tidy : Tidy state) (fresh : FreshObject state piece)
    (found : state.threads[piece.thread]? = some record) (user : record.stage = .user)
    (notReap : ∀ thread zombie, piece ≠ .reap thread zombie)
    (taken : state.runStage record piece .user = some next) :
    Effect state piece.thread record piece next := by
  have fits := tidy.fits piece.thread record found
  have active := user_active user
  cases piece with
  | exec thread object addressSpace entry stackBase stackTop initialEsp =>
    simp only [Collection.runStage] at taken
    rcases checked_call_effect tidy found user taken with ended | launch
    · exact ended
    · obtain ⟨created, table, returned, rfl⟩ := done_of_map launch
      obtain ⟨isObject, launched⟩ := (program_create_launched tidy.listed fresh.1 fresh.2.2
        (fits.known active)).of_done returned
      subst isObject
      dsimp only
      rw [launched.pid]
      exact .launches created _ table user ⟨fresh.1, fresh.2.1⟩ launched
  | rest thread =>
    simp only [Collection.runStage] at taken
    split at taken
    · cases taken
    · rcases checked_call_effect tidy found user taken with ended | rests
      · exact ended
      · cases rests
        exact .rests user
  | exit thread exitCode =>
    simp only [Collection.runStage] at taken
    split at taken
    · cases taken
    · rename_i notKernel
      rw [on_table_done (process_exit_run notKernel _ _) taken]
      exact .ends _ record.eax .gone notKernel (Or.inl ⟨user, rfl⟩) (Or.inr ⟨exitCode, rfl, rfl⟩)
  | kill thread targetPid =>
    simp only [Collection.runStage] at taken
    rcases syscall_kill_run tidy.listed (fits.known active) targetPid.toNat with
      ⟨run, -⟩ | ⟨child, member, isCurrent, -, isChild, killable, run⟩
    · rw [on_table_done run taken]
      exact .answers failure user
    · rw [on_table_done run taken]
      exact .marks child 0 user (tidy.listed.ne_zero isCurrent) member isChild killable
  | call thread answer fds =>
    simp only [Collection.runStage] at taken
    split at taken
    · cases taken
    · rename_i notKernel
      rcases checked_call_effect tidy found user taken with ended | call
      · exact ended
      · cases call
        exact .files answer.toNat fds user notKernel
  | waitpid thread pid userStatus =>
    simp only [Collection.runStage] at taken
    split at taken
    · cases taken
    · rename_i notKernel
      rcases waitpid_find_run tidy.listed (fits.alive notKernel active).1 pid.toNat with
        run | ⟨child, member, other, isPid, isChild, run⟩
      · rw [on_table_done run taken]
        exact .answers failure user
      · rw [on_table_done run taken, if_neg (tidy.listed.ne_zero member)]
        exact .finds child _ _ user rfl member isPid (Or.inr ⟨notKernel, other, isChild⟩)
  | monitorWait thread pid =>
    simp only [Collection.runStage] at taken
    split at taken
    · cases taken
    · rename_i kernel
      obtain ⟨process, run, isFound, -⟩ := process_find_run tidy.listed pid.toNat
      rw [on_table_done run taken]
      split
      · have answered : Effect state thread record (.monitorWait thread pid)
            (state.setThread thread record) := .answers record.eax user
        have self : state.setThread thread record = state := set_thread_self found
        rwa [self] at answered
      · rename_i notNull
        obtain ⟨member, isPid⟩ := isFound notNull
        exact .finds process _ _ user rfl member isPid (Or.inl ⟨not_not.mp kernel, thread, pid, rfl⟩)
  | reap thread zombie => exact absurd rfl (notReap thread zombie)
  | _ => cases taken

/-- A piece of a waiter. -/
theorem wait_effect (tidy : Tidy state) (found : state.threads[piece.thread]? = some record)
    (stage : record.stage = .holding phase process pid)
    (notReap : ∀ thread zombie, piece ≠ .reap thread zombie)
    (taken : state.runStage record piece (.holding phase process pid) = some next) :
    Effect state piece.thread record piece next := by
  have fits := tidy.fits piece.thread record found
  obtain ⟨isPid, isLive, isDetached, exited⟩ := fits.held _ _ _ stage
  have touched := touch_held fits stage
  cases piece with
  | enter thread =>
    cases phase with
    | found =>
      simp only [Collection.runStage, touched] at taken
      split at taken
      · cases taken
      · rw [on_table_done (tidy.listed.checked (isLive rfl)).validate_live_process taken]
        exact .enters process pid stage
    | _ => cases taken
  | test thread =>
    cases phase with
    | waiting =>
      simp only [Collection.runStage, touched] at taken
      rw [on_table_done (readProcess_apply _ _) taken]
      split
      · rename_i isExited
        exact .sees process pid stage isExited
      · exact .tests process pid stage
    | _ => cases taken
  | collect thread copied =>
    cases phase with
    | exited =>
      simp only [Collection.runStage, touched] at taken
      rw [on_table_done (readProcess_apply _ _) taken]
      dsimp only
      split
      · rename_i silent
        exact .collects process pid state.stored stage (Or.inl ⟨rfl, silent⟩)
      · split
        · exact .collects process pid _ stage (Or.inr rfl)
        · exact .refuses process pid stage
    | _ => cases taken
  | destroy thread =>
    cases phase with
    | collected =>
      simp only [Collection.runStage, touched] at taken
      rw [on_table_done (destroy_enter_run tidy.listed (isLive rfl) (exited rfl)) taken]
      exact .destroys process pid stage rfl
    | _ => cases taken
  | remove thread =>
    cases phase with
    | destroying =>
      subst isPid
      simp only [Collection.runStage, touched] at taken
      obtain ⟨table, run, listed, nextPid, objects⟩ := destroy_remove_run tidy.listed (isLive rfl)
      rw [on_table_done run taken]
      exact .removes process _ table stage listed nextPid objects
    | _ => cases taken
  | close thread =>
    cases phase with
    | removed =>
      simp only [Collection.runStage, touched] at taken
      obtain ⟨files, run⟩ := (tidy.detached process (isDetached rfl)).checked.close_all_files
      rw [on_table_done run taken]
      exact .closes process pid stage
    | _ => cases taken
  | discard thread =>
    cases phase with
    | closed =>
      simp only [Collection.runStage, touched] at taken
      rw [on_table_done (changeProcess_apply _ _ _) taken]
      exact .discards process pid stage
    | _ => cases taken
  | reap thread zombie => exact absurd rfl (notReap thread zombie)
  | _ => cases taken

/-- Every piece of code has one of the effects, on the thread that runs or on a zombie. -/
theorem step_effect (tidy : Tidy state) (fresh : FreshObject state piece)
    (taken : Collection.step piece state = some next) :
    ∃ thread record, state.threads[thread]? = some record ∧
      (piece.thread = thread ∨ record.stage = .gone) ∧ Effect state thread record piece next := by
  unfold Collection.step at taken
  split at taken
  case h_2 => cases taken
  case h_1 record found =>
    by_cases isReap : ∃ thread zombie, piece = .reap thread zombie
    · obtain ⟨thread, zombie, rfl⟩ := isReap
      simp only [Collection.runStage] at taken
      split at taken
      · rename_i record' found'
        split at taken
        · rename_i gone
          cases taken
          exact ⟨zombie, record', found', Or.inr gone, .reaps gone⟩
        · cases taken
      · cases taken
    · have notReap : ∀ thread zombie, piece ≠ .reap thread zombie :=
        fun thread zombie same => isReap ⟨thread, zombie, same⟩
      refine ⟨piece.thread, record, found, Or.inl rfl, ?_⟩
      cases isStage : record.stage with
      | user => exact call_effect tidy fresh found isStage notReap (isStage ▸ taken)
      | holding phase process pid => exact wait_effect tidy found isStage notReap (isStage ▸ taken)
      | resting =>
        rw [isStage] at taken
        cases piece with
        | wake thread answer =>
          simp only [Collection.runStage] at taken
          rcases finish_or_kill_run tidy.listed ((tidy.fits thread record found).known
            (by rw [isStage]; rfl)) with ⟨run, -⟩ | ⟨notKernel, requested, run⟩
          · rw [on_table_done run taken]
            exact .wakes _ isStage
          · rw [on_table_done run taken]
            exact .ends _ _ .exiting notKernel (Or.inr ⟨isStage, rfl⟩) (Or.inl ⟨requested, rfl⟩)
        | reap thread zombie => exact absurd rfl (notReap thread zombie)
        | _ => cases taken
      | exiting =>
        rw [isStage] at taken
        cases piece with
        | finish thread =>
          cases taken
          exact .finishes isStage
        | reap thread zombie => exact absurd rfl (notReap thread zombie)
        | _ => cases taken
      | gone | reaped =>
        rw [isStage] at taken
        cases piece with
        | reap thread zombie => exact absurd rfl (notReap thread zombie)
        | _ => cases taken

end Toyix.Processes
