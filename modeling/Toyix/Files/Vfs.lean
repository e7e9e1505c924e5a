import Toyix.Processes.Collection

/-!
# Files and file descriptors

A model of `kernel/vfs.c` and of the system calls that work on files. The nodes live in the
kernel image; an open file is a heap object with its node and an offset, and belongs to the
descriptor slot that stores its address.

Next to the state of the kernel a run records the processes created and not destroyed, the file
objects that `vfs_open` has made and `vfs_close` has not freed, and a number for every process
created and every file opened, since the addresses of objects are used again.

What user memory, the terminal and the heap answer is an argument: the path that was copied, the
number of characters typed, whether the answer could be copied out, and the block from `kmalloc`.
-/

namespace Toyix.Files

open Library Library.Links Processes Function

/-- `ramfs_node_t`; its `size` is the length of the data. -/
structure RamfsNode where
  path : List Char
  type : Nat
  data : List UInt8
  deriving DecidableEq

def vfsNodeRegular : Nat := 1

/-- The bytes of a text in the kernel image. -/
def bytesOf (text : String) : List UInt8 := text.toList.map Char.toUInt8

def readmeText : List UInt8 :=
  bytesOf ("Toyix RAMFS\n" ++ "This file lives inside the kernel image.\n" ++
    "The first filesystem is read-only and memory-backed.\n")

def programsText : List UInt8 := bytesOf ("demo\n" ++ "counter\n" ++ "shell\n")

def ramfsNodes : List RamfsNode :=
  [⟨"/README".toList, vfsNodeRegular, readmeText⟩, ⟨"/programs".toList, vfsNodeRegular, programsText⟩]

/-- `ramfs_find`. -/
def ramfsFind (path : List Char) : Option RamfsNode := ramfsNodes.find? fun node => node.path = path

/-- `struct vfs_file`. -/
structure VfsFile where
  node : RamfsNode
  offset : Nat
  deriving DecidableEq

/-- The processes and the open files. `created` counts the creations and `birth` tells which one
made an object; `opened` has the birth of the opener of every file opened, `serial` the position
of an object there, and `closed` the positions given to `vfs_close`. -/
structure FileRun where
  table : ProcessTable
  processes : List Nat
  created : Nat
  birth : Nat → Nat
  files : Nat → VfsFile
  live : List Nat
  opened : List Nat
  serial : Nat → Nat
  closed : List Nat

abbrev FileProgram := Program FileRun

/-- A part of `process.c` leaves the files alone. -/
def onTable {α : Type} (program : TableProgram α) : FileProgram α := fun run =>
  match program run.table with
  | .done value table => .done value { run with table := table }
  | .panicked message table => .panicked message { run with table := table }
  | .diverged => .diverged

/-! ## `vfs.c` -/

def vfsOk : Int := 0
def vfsErrNotFound : Int := -1
def vfsErrInvalid : Int := -2
def vfsErrNoMemory : Int := -3

/-- `vfs_open`, for the block from `kmalloc`. -/
def vfsOpen (opener : Nat) (path : List Char) (block : Nat) : FileProgram (Int × Nat) :=
  match ramfsFind path with
  | none => pure (vfsErrNotFound, 0)
  | some node =>
    if block = 0 then pure (vfsErrNoMemory, 0)
    else do
      Program.update fun run =>
        { run with
          files := update run.files block ⟨node, 0⟩
          live := block :: run.live
          opened := run.opened ++ [opener]
          serial := update run.serial block run.opened.length }
      pure (vfsOk, block)

/-- Store the offset of a file. -/
def setOffset (file offset : Nat) : FileProgram PUnit :=
  Program.update fun run =>
    { run with files := update run.files file { run.files file with offset := offset } }

/-- The number of bytes that `vfs_read` copies, in 32-bit words: `remaining` is a difference of
unsigned numbers. -/
def toCopy (size offset length : Nat) : Nat :=
  let remaining := (size + 2 ^ 32 - offset) % 2 ^ 32
  if length > remaining then remaining else length

/-- `vfs_read`, with the bytes that are read. -/
def vfsRead (file length : Nat) : FileProgram (Int × List UInt8) := do
  if file = 0 then pure (vfsErrInvalid, [])
  else if length = 0 then pure (vfsOk, [])
  else
    let run ← Program.current
    let fields := run.files file
    if fields.offset ≥ fields.node.data.length then pure (vfsOk, [])
    else do
      let count := toCopy fields.node.data.length fields.offset length
      setOffset file ((fields.offset + count) % 2 ^ 32)
      pure (vfsOk, (fields.node.data.drop fields.offset).take count)

/-- `vfs_seek`, with the new position. -/
def vfsSeek (file : Nat) (offset : Int) (whence : Nat) : FileProgram (Int × Nat) := do
  if file = 0 then pure (vfsErrInvalid, 0)
  else
    let run ← Program.current
    let base : Option Int :=
      if whence = 0 then some 0
      else if whence = 1 then some (run.files file).offset
      else if whence = 2 then some (run.files file).node.data.length
      else none
    match base with
    | none => pure (vfsErrInvalid, 0)
    | some base =>
      let next := base + offset
      if next < 0 ∨ next > 0xFFFFFFFF then pure (vfsErrInvalid, 0)
      else do
        setOffset file next.toNat
        pure (vfsOk, next.toNat)

/-- `vfs_close`. -/
def vfsClose (file : Nat) : FileProgram PUnit := do
  if file = 0 then pure ⟨⟩
  else
    Program.update fun run =>
      { run with live := run.live.erase file, closed := run.serial file :: run.closed }

/-- Close the files of a list. -/
def closeFiles : List Nat → FileProgram PUnit
  | [] => pure ⟨⟩
  | file :: rest => do
    vfsClose file
    closeFiles rest

/-! ## System calls -/

/-- The system calls on files, with the arguments and the answers they get. -/
inductive FileRequest where
  | openFile (path : Option (List Char)) (block : Nat)
  | close (fd : UInt32)
  | read (fd length : UInt32) (typed : Nat) (copied : Bool)
  | seek (fd offset whence : UInt32)
  | exit (exitCode : UInt32)

/-- `syscall_open`. -/
def syscallOpen (current : Nat) (path : Option (List Char)) (block : Nat) : FileProgram Nat := do
  if current = 0 then pure failure
  else
    match path with
    | none => pure failure
    | some path => do
      let run ← Program.current
      let (code, file) ← vfsOpen (run.birth current) path block
      if code ≠ vfsOk ∨ file = 0 then pure failure
      else do
        let fd ← onTable (processFdInstall current file)
        if fd < 0 then do
          vfsClose file
          pure failure
        else pure fd.toNat

/-- `syscall_close`. -/
def syscallClose (current fd : Nat) : FileProgram Nat := do
  if current = 0 ∨ fd < processFirstFileFd then pure failure
  else
    let (code, file) ← onTable (processFdClose current fd)
    if code ≠ 0 then pure failure
    else do
      vfsClose file
      pure 0

/-- `syscall_read`. -/
def syscallRead (current fd length typed : Nat) (copied : Bool) : FileProgram Nat := do
  let length := min length 256
  if length = 0 then pure 0
  else if fd = 0 then pure (if copied then min typed length else failure)
  else if current = 0 then pure failure
  else
    let file ← onTable (processFdGet current fd)
    if file = 0 then pure failure
    else
      let (code, got) ← vfsRead file length
      if code ≠ vfsOk then pure failure
      else pure (if copied then got.length else failure)

/-- `syscall_seek`; the offset is a signed number. -/
def syscallSeek (current fd : Nat) (offset : Int) (whence : Nat) : FileProgram Nat := do
  if current = 0 then pure failure
  else
    let file ← onTable (processFdGet current fd)
    if file = 0 then pure failure
    else
      let (code, position) ← vfsSeek file offset whence
      pure (if code ≠ vfsOk then failure else position)

/-- The work of a system call other than `SYS_EXIT`. -/
def FileRequest.body (current : Nat) : FileRequest → FileProgram Nat
  | .openFile path block => syscallOpen current path block
  | .close fd => syscallClose current fd.toNat
  | .read fd length typed copied => syscallRead current fd.toNat length.toNat typed copied
  | .seek fd offset whence => syscallSeek current fd.toNat offset.toInt32.toInt whence.toNat
  | .exit _ => pure 0

/-- `syscall_handler`: what it returns in `eax`, or nothing when the thread ends. -/
def syscallHandler (current : Nat) : FileRequest → FileProgram (Option Nat)
  | .exit exitCode => do
    onTable (processExitCurrent current exitCode.toNat)
    pure none
  | request => do
    let killed ← onTable (syscallFinishOrKill current)
    if killed then pure none
    else do
      let eax ← request.body current
      let killed ← onTable (syscallFinishOrKill current)
      pure (if killed then none else some eax)

/-! ## Runs -/

/-- `process_create_empty` and `program_create_process`, recorded. -/
def recordCreation (object : Nat) : FileProgram PUnit :=
  Program.update fun run =>
    { run with
      processes := run.processes ++ [object]
      created := run.created + 1
      birth := update run.birth object run.created }

/-- `process_destroy` with the files it closes. -/
def destroyProcess (process : Nat) : FileProgram PUnit := do
  let (files, _) ← onTable (processDetach process)
  closeFiles files
  onTable (processDiscard process)
  Program.update fun run => { run with processes := run.processes.erase process }

/-- The calls of a run. -/
inductive FileOp where
  | createEmpty (object addressSpace : Nat)
  | createProgram (current object addressSpace : Nat)
      (entry stackBase stackTop initialEsp : UInt32) (thread : Nat)
  | startUser (process thread : Nat)
  | requestKillChild (parentPid childPid : UInt32)
  | call (current : Nat) (request : FileRequest)
  | destroy (process : Nat)

def FileOp.run : FileOp → FileProgram PUnit
  | .createEmpty object addressSpace => do
    let object ← onTable (processCreateEmpty object addressSpace)
    recordCreation object
  | .createProgram current object addressSpace entry stackBase stackTop initialEsp thread => do
    let object ← onTable (programCreateProcess current object addressSpace entry.toNat stackBase.toNat
      stackTop.toNat initialEsp.toNat thread)
    recordCreation object
  | .startUser process thread => onTable (processStartUser process thread)
  | .requestKillChild parentPid childPid => do
    let _ ← onTable (processRequestKillChild parentPid.toNat childPid.toNat)
    pure ⟨⟩
  | .call current request => do
    let _ ← syscallHandler current request
    pure ⟨⟩
  | .destroy process => destroyProcess process

/-- One call. A call that stops the machine has no successor. -/
def fileStep (op : FileOp) (run : FileRun) : Option FileRun := (op.run run).result.map Prod.snd

/-- The block that `kmalloc` gives to an open is not in use. -/
def FileRequest.Fresh (run : FileRun) : FileRequest → Prop
  | .openFile _ block => block ∉ run.live
  | _ => True

/-- Calls are made by processes that exist, or by kernel threads; the heap gives out blocks that
are not in use. -/
def FileCall (run : FileRun) : FileOp → Prop
  | .createEmpty object _ => object ∉ run.processes
  | .createProgram current object _ _ _ _ _ _ =>
    object ∉ run.processes ∧ (current = 0 ∨ current ∈ run.processes)
  | .startUser process _ => process ∈ run.processes
  | .requestKillChild _ _ => True
  | .call current request => (current = 0 ∨ current ∈ run.processes) ∧ request.Fresh run
  | .destroy process => process ∈ run.processes

/-- The state after `process_init_system`. -/
def filesStart (objects : Nat → Process) (links : Fields Nat) (files : Nat → VfsFile)
    (birth serial : Nat → Nat) : FileRun where
  table := processInitSystem objects links
  processes := []
  created := 0
  birth := birth
  files := files
  live := []
  opened := []
  serial := serial
  closed := []

end Toyix.Files
