import Toyix.Library.Chains
import Toyix.Library.Outcome
import Mathlib.Algebra.Group.Nat.Defs

/-!
# The process table

A model of the process table of `kernel/process.c`. Process objects are kept by
address; their link fields are kept apart from their other fields, and the table is
known by `process_head` and `process_tail`. What other parts of the kernel answer is an
argument: the object given out by `kcalloc`, the address space and the thread.

Not modelled are the fields `name` and `user_code_base`, which no function of the table
reads, and what is written on the console.
-/

namespace Toyix.Processes

open Library Library.Links

inductive ProcessState where
  | new
  | running
  | zombie
  | destroyed
  deriving DecidableEq

/-- An entry of the file descriptor table. -/
structure Descriptor where
  used : Bool
  file : Nat
  deriving DecidableEq

/-- The fields of `process_t` besides its links. -/
structure Process where
  magic : Nat
  pid : Nat
  parentPid : Nat
  state : ProcessState
  addressSpace : Nat
  mainThread : Nat
  exitCode : Nat
  exited : Bool
  killRequested : Bool
  fds : Nat → Descriptor
  userEntry : Nat
  userStackBase : Nat
  userStackTop : Nat
  userInitialEsp : Nat

/-- The process objects and the variables of `process.c`. -/
structure ProcessTable where
  objects : Nat → Process
  links : Fields Nat
  ends : Ends Nat
  processCount : Nat
  nextPid : Nat
  lastExitCode : Nat
  lastExitSeen : Bool

abbrev TableProgram := Program ProcessTable

def processMagic : Nat := 0x50524F43
def processMaxFds : Nat := 16
def processFirstFileFd : Nat := 3
def processKilledExitCode : Nat := 128

/-- A bound for walks along the table; there are fewer objects than addresses. -/
def walkBound : Nat := 2 ^ 32

/-- An object that `kcalloc` has cleared. -/
def Process.cleared : Process :=
  ⟨0, 0, 0, .new, 0, 0, 0, false, false, fun _ => ⟨false, 0⟩, 0, 0, 0, 0⟩

/-- `process_init_system`. -/
def processInitSystem (objects : Nat → Process) (links : Fields Nat) : ProcessTable where
  objects := objects
  links := links
  ends := ⟨0, 0⟩
  processCount := 0
  nextPid := 1
  lastExitCode := 0xFFFFFFFF
  lastExitSeen := false

/-- Change the fields of one object. -/
def ProcessTable.change (table : ProcessTable) (process : Nat) (update : Process → Process) :
    ProcessTable :=
  { table with objects := Function.update table.objects process (update (table.objects process)) }

/-- Assign to fields of a process. -/
def changeProcess (process : Nat) (update : Process → Process) : TableProgram Unit :=
  Program.update fun table => table.change process update

/-- The fields of a process. -/
def readProcess (process : Nat) : TableProgram Process := do
  let table ← Program.current
  pure (table.objects process)

/-! ## Checks -/

/-- Stops on null and on a wrong magic number. -/
def validateProcess (process : Nat) : TableProgram Unit := do
  if process = 0 then Program.panic "process: null process"
  else
    let fields ← readProcess process
    if fields.magic ≠ processMagic then Program.panic "process: magic mismatch"
    else pure ()

/-- Stops on a destroyed process too. -/
def validateLiveProcess (process : Nat) : TableProgram Unit := do
  validateProcess process
  let fields ← readProcess process
  if fields.state = .destroyed then Program.panic "process: operation on destroyed process"
  else pure ()

/-! ## The list -/

/-- New processes are last. -/
def processTableInsert (process : Nat) : TableProgram Unit := do
  validateProcess process
  Program.update fun table =>
    let (links, ends) := pushBack 0 process table.links table.ends
    { table with links := links, ends := ends, processCount := (table.processCount + 1) % 2 ^ 32 }

/-- The count does not go below zero. -/
def processTableRemove (process : Nat) : TableProgram Unit := do
  validateProcess process
  Program.update fun table =>
    let (links, ends) := unlink 0 process table.links table.ends
    { table with
      links := links
      ends := ends
      processCount := if table.processCount > 0 then table.processCount - 1 else table.processCount }

/-- The first process of the table that passes a test, or null. -/
def tableFind (test : Process → Bool) : TableProgram Nat := do
  let table ← Program.current
  match find 0 table.links.next (fun process => test (table.objects process)) walkBound
      table.ends.first with
  | some process => pure process
  | none => Program.diverge

/-- The first process with the pid, or null. -/
def processFind (pid : Nat) : TableProgram Nat := tableFind fun process => process.pid = pid

/-! ## Creation -/

/-- `process_create_empty`, for the object from `kcalloc` and the space from
`address_space_create`. -/
def processCreateEmpty (object addressSpace : Nat) : TableProgram Nat := do
  if object = 0 then Program.panic "process_create_empty could not allocate process object"
  else
    let table ← Program.current
    Program.update fun table => { table with nextPid := (table.nextPid + 1) % 2 ^ 32 }
    changeProcess object fun _ =>
      { Process.cleared with
        magic := processMagic
        pid := table.nextPid
        addressSpace := addressSpace
        exitCode := 0xFFFFFFFF }
    processTableInsert object
    pure object

def processSetParent (process parentPid : Nat) : TableProgram Unit := do
  validateLiveProcess process
  changeProcess process fun fields => { fields with parentPid := parentPid }

def processIsChildOf (process parentPid : Nat) : TableProgram Bool := do
  validateLiveProcess process
  let fields ← readProcess process
  pure (fields.parentPid = parentPid)

def processSetUserEntry (process entry : Nat) : TableProgram Unit := do
  validateProcess process
  changeProcess process fun fields => { fields with userEntry := entry }

/-- The initial stack pointer is the top. -/
def processSetUserStack (process stackBase stackTop : Nat) : TableProgram Unit := do
  validateProcess process
  changeProcess process fun fields =>
    { fields with userStackBase := stackBase, userStackTop := stackTop, userInitialEsp := stackTop }

/-- `process_start_user`, for the suspended thread made for it. -/
def processStartUser (process thread : Nat) : TableProgram Unit := do
  validateProcess process
  let fields ← readProcess process
  if fields.userEntry = 0 ∨ fields.userStackBase = 0 ∨ fields.userStackTop = 0 ∨
      fields.userInitialEsp = 0 then
    Program.panic "process_start_user missing entry or initial stack"
  else changeProcess process fun fields => { fields with mainThread := thread, state := .running }

/-! ## Killing and exiting -/

/-- Whether a kill request still has an effect. -/
def Process.killable (process : Process) : Bool :=
  !process.exited && decide (process.state ≠ .zombie) && decide (process.state ≠ .destroyed)

def processKillRequested (process : Nat) : TableProgram Bool := do
  validateLiveProcess process
  let fields ← readProcess process
  pure fields.killRequested

/-- Only a child that has not exited can be marked. -/
def processRequestKillChild (parentPid childPid : Nat) : TableProgram Int := do
  let child ← tableFind fun process => process.pid = childPid && process.parentPid = parentPid
  if child = 0 then pure (-1)
  else
    let fields ← readProcess child
    if fields.killable then do
      changeProcess child fun fields => { fields with killRequested := true }
      pure 0
    else pure (-1)

/-- `process_exit_current`, for the process of the current thread; a kernel thread has
none. -/
def processExitCurrent (current exitCode : Nat) : TableProgram Unit := do
  if current = 0 then
    Program.update fun table => { table with lastExitCode := exitCode, lastExitSeen := true }
  else do
    changeProcess current fun fields =>
      { fields with exitCode := exitCode, exited := true, state := .zombie, killRequested := false }
    Program.update fun table => { table with lastExitCode := exitCode, lastExitSeen := true }

/-! ## File descriptors -/

/-- The first free descriptor from `fd` on. -/
def firstFreeFd (fds : Nat → Descriptor) : Nat → Nat → Option Nat
  | 0, _ => none
  | remaining + 1, fd =>
    if (fds fd).used = false then some fd else firstFreeFd fds remaining (fd + 1)

/-- The first free slot from 3 on. -/
def processFdInstall (process file : Nat) : TableProgram Int := do
  validateLiveProcess process
  if file = 0 then pure (-1)
  else
    let fields ← readProcess process
    match firstFreeFd fields.fds (processMaxFds - processFirstFileFd) processFirstFileFd with
    | some fd => do
      changeProcess process fun fields =>
        { fields with fds := Function.update fields.fds fd ⟨true, file⟩ }
      pure fd
    | none => pure (-1)

/-- The file, or null. -/
def processFdGet (process fd : Nat) : TableProgram Nat := do
  validateLiveProcess process
  if fd < processFirstFileFd ∨ fd ≥ processMaxFds then pure 0
  else
    let fields ← readProcess process
    pure (if (fields.fds fd).used then (fields.fds fd).file else 0)

/-- `process_fd_close`, with the file that is to be closed. -/
def processFdClose (process fd : Nat) : TableProgram (Int × Nat) := do
  validateLiveProcess process
  if fd < processFirstFileFd ∨ fd ≥ processMaxFds then pure (-1, 0)
  else
    let fields ← readProcess process
    if (fields.fds fd).used then do
      changeProcess process fun fields =>
        { fields with fds := Function.update fields.fds fd ⟨false, 0⟩ }
      pure (if (fields.fds fd).file = 0 then (-1, 0) else (0, (fields.fds fd).file))
    else pure (-1, 0)

/-- Descriptors after all files have been given up. -/
def closedFds (fds : Nat → Descriptor) : Nat → Descriptor := fun fd =>
  if processFirstFileFd ≤ fd ∧ fd < processMaxFds ∧ (fds fd).used then ⟨false, 0⟩ else fds fd

/-- `process_close_all_files`, with the files that are to be closed. -/
def processCloseAllFiles (process : Nat) : TableProgram (List Nat) := do
  validateLiveProcess process
  let fields ← readProcess process
  changeProcess process fun fields => { fields with fds := closedFds fields.fds }
  pure ((((List.range processMaxFds).drop processFirstFileFd).filter
    fun fd => (fields.fds fd).used && decide ((fields.fds fd).file ≠ 0)).map
      fun fd => (fields.fds fd).file)

/-! ## Destruction -/

/-- A process loses its parent when that is the one with the given pid. -/
def Process.orphaned (pid : Nat) (process : Process) : Process :=
  if process.parentPid = pid then { process with parentPid := 0 } else process

/-- The loop of `process_destroy` over the table. -/
def orphanChildren (pid : Nat) : TableProgram Unit := do
  let table ← Program.current
  match visit 0 table.links.next
      (fun process objects => Function.update objects process ((objects process).orphaned pid))
      walkBound table.ends.first table.objects with
  | some objects => Program.update fun table => { table with objects := objects }
  | none => Program.diverge

/-- `process_destroy` up to the release of the address space, with the files to be closed and
the space to be destroyed. -/
def processDetach (process : Nat) : TableProgram (List Nat × Nat) := do
  validateLiveProcess process
  let fields ← readProcess process
  if fields.exited = false ∧ fields.state ≠ .zombie then
    Program.panic "process_destroy called on running process"
  else do
    orphanChildren fields.pid
    processTableRemove process
    let files ← processCloseAllFiles process
    let fields ← readProcess process
    pure (files, fields.addressSpace)

/-- The rest of `process_destroy`, before the object goes back to the heap. -/
def processDiscard (process : Nat) : TableProgram Unit :=
  changeProcess process fun fields =>
    { fields with addressSpace := 0, state := .destroyed, killRequested := false, magic := 0 }

/-- `process_destroy`. -/
def processDestroy (process : Nat) : TableProgram (List Nat × Nat) := do
  let released ← processDetach process
  processDiscard process
  pure released

end Toyix.Processes
