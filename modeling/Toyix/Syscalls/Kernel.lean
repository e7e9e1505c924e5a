import Toyix.Library.Parts
import Toyix.Files.Position
import Toyix.Syscalls.UserStrings

/-!
# System calls on files and memory together

The state of the kernel as the system calls of `kernel/syscall.c` see it: the processes with their
open files, and the memory subsystem, whose loaded directory is that of the calling process. A
system call is made by the process of the current thread, or by a kernel thread without a process.

What is typed at the terminal is an argument.
-/

namespace Toyix.Syscalls

open Library Paging Processes Files

structure Kernel where
  files : FileRun
  memory : MemorySystem

abbrev KernelProgram := Program Kernel

def onFiles {α : Type} (program : FileProgram α) : KernelProgram α :=
  Program.within Kernel.files (fun state files => { state with files := files }) program

def onMemory {α : Type} (program : MemoryProgram α) : KernelProgram α :=
  Program.within Kernel.memory (fun state memory => { state with memory := memory }) program

def syscallRwMax : Nat := 256

/-- `copy_to_user` of the bytes of a kernel buffer. -/
def copyBytesToUser (userDest : Nat) (bytes : List UInt8) : KernelProgram Int :=
  onMemory (copyToUser userDest stackVariable bytes.length fun i => bytes.getD i 0)

/-- `syscall_read`; what `terminal_readline` returns is at most as long as asked for. -/
def syscallRead (current fd userBuf length : Nat) (typed : List UInt8) : KernelProgram Nat := do
  let length := if length > syscallRwMax then syscallRwMax else length
  if length = 0 then pure 0
  else if fd = 0 then do
    let got := typed.take length
    let code ← copyBytesToUser userBuf got
    if code ≠ usercopyOk then pure failure else pure got.length
  else if current = 0 then pure failure
  else
    let file ← onFiles (Files.onTable (processFdGet current fd))
    if file = 0 then pure failure
    else
      let (code, got) ← onFiles (vfsRead file length)
      if code ≠ vfsOk then pure failure
      else
        let code ← copyBytesToUser userBuf got
        if code ≠ usercopyOk then pure failure else pure got.length

/-- The part of `syscall_handler` around a call that looks for a kill request before and after it:
what it returns in `eax`, or nothing when the thread ends. -/
def checkedCall (current : Nat) (body : KernelProgram Nat) : KernelProgram (Option Nat) := do
  let killed ← onFiles (Files.onTable (syscallFinishOrKill current))
  if killed then pure none
  else do
    let eax ← body
    let killed ← onFiles (Files.onTable (syscallFinishOrKill current))
    pure (if killed then none else some eax)

end Toyix.Syscalls
