import Toyix.Processes.Listing

/-!
# Processes and those who wait for them

The threads of user processes and of the kernel, one atomic piece of code at a time.
The gate of a system call enters with interrupts disabled, so most calls run as one
piece. `SYS_SLEEP`, `SYS_READ` of standard input and `SYS_WAITPID` enable interrupts; from
there on, as in the code of the kernel's monitor, any other thread may run between two
pieces. Which thread runs next is left open.

A waiter finds a process, tests `exited` until it is set, reads the exit code and
destroys the process. It keeps the pointer it has found for the whole time, and nothing
marks the process as being waited for.

Next to the state of the kernel, a run records the objects taken out of the table and
not yet returned to the heap, how often `process_destroy` was entered for a pid, whether a
waiter has touched an object that is no longer the process it found, and the statuses
that `SYS_WAITPID` has delivered.
-/

namespace Toyix.Processes

open Library Library.Links

/-- How far a waiter is with a process: it has been found; it is valid and `exited` is being
tested; it has exited; its exit code has been read and copied; `process_destroy` has been
entered; it is out of the table; its files and its address space are gone. -/
inductive Phase where
  | found
  | waiting
  | exited
  | collected
  | destroying
  | removed
  | closed
  deriving DecidableEq

/-- Where a thread stands. `user` is user mode, or the code of a kernel thread between two
calls; `resting` is inside `SYS_SLEEP` or `SYS_READ` of standard input; `exiting` is between
the stores of `process_exit_current` and `thread_exit`, with interrupts enabled. -/
inductive Stage where
  | user
  | resting
  | exiting
  | gone
  | reaped
  | holding (phase : Phase) (process pid : Nat)
  deriving DecidableEq

/-- A thread with the process it belongs to, null for a kernel thread. `eax` is what its
last system call returned; `userStatus` and `status` are the variables of `syscall_waitpid`. -/
structure UserThread where
  process : Nat
  pid : Nat
  stage : Stage
  eax : Nat
  userStatus : Nat
  status : Nat
  deriving DecidableEq

/-- A status of the process with a pid, as it was stored for the caller of `SYS_WAITPID` or
delivered by a call that returned 0. -/
structure Delivery where
  pid : Nat
  status : Nat
  deriving DecidableEq

/-- The processes, the threads by number, and the records of the run. -/
structure Collection where
  table : ProcessTable
  live : List Nat
  detached : List Nat
  threads : List UserThread
  destroys : Nat → Nat
  stale : Bool
  stored : List Delivery
  delivered : List Delivery

/-- The value of `eax` for `-1`. -/
def failure : Nat := 0xFFFFFFFF

/-- One piece of code of one thread. -/
inductive Piece where
  | exec (thread object addressSpace : Nat) (entry stackBase stackTop initialEsp : UInt32)
  | rest (thread : Nat)
  | wake (thread : Nat) (answer : UInt32)
  | finish (thread : Nat)
  | exit (thread : Nat) (exitCode : UInt32)
  | kill (thread : Nat) (targetPid : UInt32)
  | call (thread : Nat) (answer : UInt32) (fds : Nat → Descriptor)
  | waitpid (thread : Nat) (pid userStatus : UInt32)
  | monitorWait (thread : Nat) (pid : UInt32)
  | enter (thread : Nat)
  | test (thread : Nat)
  | collect (thread : Nat) (copied : Bool)
  | destroy (thread : Nat)
  | remove (thread : Nat)
  | close (thread : Nat)
  | discard (thread : Nat)
  | reap (thread zombie : Nat)

/-- The thread that runs. -/
def Piece.thread : Piece → Nat
  | .exec thread _ _ _ _ _ _ | .rest thread | .wake thread _ | .finish thread | .exit thread _
  | .kill thread _ | .call thread _ _ | .waitpid thread _ _ | .monitorWait thread _ | .enter thread
  | .test thread | .collect thread _ | .destroy thread | .remove thread | .close thread
  | .discard thread | .reap thread _ => thread

/-! ## Parts of the system calls -/

/-- `syscall_finish_or_kill` up to `thread_exit`; true when the process has to end. -/
def syscallFinishOrKill (current : Nat) : TableProgram Bool := do
  if current = 0 then pure false
  else
    let requested ← processKillRequested current
    if requested then do
      processExitCurrent current processKilledExitCode
      pure true
    else pure false

/-- `syscall_kill`. -/
def syscallKill (current targetPid : Nat) : TableProgram Nat := do
  if current = 0 then pure failure
  else
    let self ← readProcess current
    if targetPid = 0 ∨ targetPid = self.pid then pure failure
    else
      let answer ← processRequestKillChild self.pid targetPid
      pure (if answer = 0 then 0 else failure)

/-- `syscall_waitpid` up to `interrupts_enable`: the child to wait for, or null. -/
def syscallWaitpidFind (current pid : Nat) : TableProgram Nat := do
  if current = 0 then pure 0
  else
    let process ← processFind pid
    if process = 0 ∨ process = current then pure 0
    else
      let self ← readProcess current
      let child ← processIsChildOf process self.pid
      pure (if child then process else 0)

/-- The start of `process_destroy`: the checks and the pid. -/
def processDestroyEnter (process : Nat) : TableProgram Nat := do
  validateLiveProcess process
  let fields ← readProcess process
  if fields.exited = false ∧ fields.state ≠ .zombie then
    Program.panic "process_destroy called on running process"
  else pure fields.pid

/-- The section of `process_destroy` with interrupts disabled. -/
def processDestroyRemove (process pid : Nat) : TableProgram Unit := do
  orphanChildren pid
  processTableRemove process

/-! ## Steps -/

namespace Collection

/-- Replace a thread. -/
def setThread (state : Collection) (thread : Nat) (record : UserThread) : Collection :=
  { state with threads := state.threads.set thread record }

/-- The object is still the process that was found under the pid. -/
def Intact (state : Collection) (process pid : Nat) : Prop :=
  (process ∈ state.live ∨ process ∈ state.detached) ∧ (state.table.objects process).pid = pid

instance (state : Collection) (process pid : Nat) : Decidable (state.Intact process pid) :=
  inferInstanceAs (Decidable (_ ∧ _))

/-- A waiter touches the object it holds. -/
def touch (state : Collection) (process pid : Nat) : Collection :=
  { state with stale := state.stale || !decide (state.Intact process pid) }

/-- Run a program on the table and go on with its value. -/
def onTable {α : Type} (state : Collection) (program : TableProgram α)
    (proceed : α → Collection → Collection) : Option Collection :=
  (program state.table).result.map fun (value, table) => proceed value { state with table := table }

/-- A call that first asks whether the process has to end. -/
def checkedCall (state : Collection) (thread : Nat) (record : UserThread)
    (proceed : Collection → Option Collection) : Option Collection :=
  (syscallFinishOrKill record.process state.table).result.bind fun (ends, table) =>
    if ends then some ({ state with table := table }.setThread thread { record with stage := .gone })
    else proceed { state with table := table }

/-- A new process is created with its thread. -/
def launch (state : Collection) (thread : Nat) (record : UserThread)
    (object addressSpace entry stackBase stackTop initialEsp : Nat) : Option Collection :=
  (programCreateProcess record.process object addressSpace entry stackBase stackTop initialEsp
    state.threads.length state.table).result.map fun (process, table) =>
      { state with
        table := table
        live := state.live ++ [object]
        threads := (state.threads.set thread { record with eax := (table.objects process).pid }) ++
          [⟨object, (table.objects process).pid, .user, 0, 0, 0⟩] }

/-- The pieces of a thread at a given stage. -/
def runStage (state : Collection) (record : UserThread) : Piece → Stage → Option Collection
  | .exec thread object addressSpace entry stackBase stackTop initialEsp, .user =>
    state.checkedCall thread record fun state =>
      state.launch thread record object addressSpace entry.toNat stackBase.toNat stackTop.toNat
        initialEsp.toNat
  | .rest thread, .user =>
    if record.process = 0 then none
    else state.checkedCall thread record fun state =>
      some (state.setThread thread { record with stage := .resting })
  | .wake thread answer, .resting =>
    state.onTable (syscallFinishOrKill record.process) fun ends state =>
      state.setThread thread
        { record with stage := if ends then .exiting else .user, eax := answer.toNat }
  | .finish thread, .exiting => some (state.setThread thread { record with stage := .gone })
  | .exit thread exitCode, .user =>
    if record.process = 0 then none
    else state.onTable (processExitCurrent record.process exitCode.toNat) fun _ state =>
      state.setThread thread { record with stage := .gone }
  | .kill thread targetPid, .user =>
    state.onTable (syscallKill record.process targetPid.toNat) fun answer state =>
      state.setThread thread { record with eax := answer }
  | .call thread answer fds, .user =>
    if record.process = 0 then none
    else state.checkedCall thread record fun state =>
      some ({ state with table := state.table.change record.process fun fields =>
        { fields with fds := fds } }.setThread thread { record with eax := answer.toNat })
  | .waitpid thread pid userStatus, .user =>
    if record.process = 0 then none
    else state.onTable (syscallWaitpidFind record.process pid.toNat) fun process state =>
      state.setThread thread
        (if process = 0 then { record with eax := failure }
        else { record with
          stage := .holding .found process pid.toNat
          userStatus := userStatus.toNat })
  | .monitorWait thread pid, .user =>
    if record.process ≠ 0 then none
    else state.onTable (processFind pid.toNat) fun process state =>
      if process = 0 then state
      else state.setThread thread { record with stage := .holding .found process pid.toNat }
  | .enter thread, .holding .found process pid =>
    if record.process = process then none
    else (state.touch process pid).onTable (validateLiveProcess process) fun _ state =>
      state.setThread thread { record with stage := .holding .waiting process pid }
  | .test thread, .holding .waiting process pid =>
    (state.touch process pid).onTable (readProcess process) fun fields state =>
      if fields.exited then
        state.setThread thread { record with stage := .holding .exited process pid }
      else state
  | .collect thread copied, .holding .exited process pid =>
    (state.touch process pid).onTable (readProcess process) fun fields state =>
      let record := { record with status := fields.exitCode }
      if record.process = 0 ∨ record.userStatus = 0 then
        state.setThread thread { record with stage := .holding .collected process pid }
      else if copied then
        { state with stored := ⟨pid, fields.exitCode⟩ :: state.stored }.setThread thread
          { record with stage := .holding .collected process pid }
      else state.setThread thread { record with stage := .user, eax := failure }
  | .destroy thread, .holding .collected process pid =>
    (state.touch process pid).onTable (processDestroyEnter process) fun _ state =>
      { state with destroys := Function.update state.destroys pid (state.destroys pid + 1) }.setThread
        thread { record with stage := .holding .destroying process pid }
  | .remove thread, .holding .destroying process pid =>
    (state.touch process pid).onTable (processDestroyRemove process pid) fun _ state =>
      { state with
        live := state.live.erase process
        detached := process :: state.detached }.setThread
          thread { record with stage := .holding .removed process pid }
  | .close thread, .holding .removed process pid =>
    (state.touch process pid).onTable (processCloseAllFiles process) fun _ state =>
      state.setThread thread { record with stage := .holding .closed process pid }
  | .discard thread, .holding .closed process pid =>
    (state.touch process pid).onTable (processDiscard process) fun _ state =>
      { state with
        detached := state.detached.erase process
        delivered := if record.process = 0 then state.delivered
          else ⟨pid, record.status⟩ :: state.delivered }.setThread
            thread { record with stage := .user, eax := 0 }
  | .reap _ zombie, _ =>
    match state.threads[zombie]? with
    | some record =>
      if record.stage = .gone then some (state.setThread zombie { record with stage := .reaped })
      else none
    | none => none
  | _, _ => none

/-- One step. -/
def step (piece : Piece) (state : Collection) : Option Collection :=
  match state.threads[piece.thread]? with
  | some record => state.runStage record piece record.stage
  | none => none

end Collection

/-- Kernel threads before there is any process. -/
def Collection.boot (objects : Nat → Process) (links : Fields Nat) (kernelThreads : Nat) :
    Collection where
  table := processInitSystem objects links
  live := []
  detached := []
  threads := List.replicate kernelThreads ⟨0, 0, .user, 0, 0, 0⟩
  destroys := fun _ => 0
  stale := false
  stored := []
  delivered := []

/-- `kcalloc` gives out a block that is not in use, and fewer than `2 ^ 32 - 1` processes are
created. -/
def FreshObject (state : Collection) : Piece → Prop
  | .exec _ object _ _ _ _ _ =>
    object ∉ state.live ∧ object ∉ state.detached ∧ state.table.nextPid + 1 < 2 ^ 32
  | _ => True

end Toyix.Processes
