import Toyix.Library.Parts
import Toyix.Loader.Elf32
import Toyix.Paging.UserBytes
import Toyix.Processes.Table

/-!
# Initial memory of a process

The functions of `kernel/process.c` that fill the memory of a process before it runs: mapping
regions, copying and zeroing while the directory of the process is loaded, and laying out the
arguments on its stack.

Next to the memory and the table of processes, a run keeps the list of what it touched: the ranges
of the image it read, the regions it asked for and was given, and the ranges of user memory it
wrote.
-/

namespace Toyix.Loader

open Library Paging Processes Pmm

/-! ## The state -/

/-- Something that was touched. -/
inductive Access where
  | read (offset size : Nat)
  | request (virtualAddr size : Nat)
  | mapped (virtualAddr size : Nat)
  | write (virtualAddr size : Nat)
  deriving DecidableEq

structure Loading where
  memory : MemorySystem
  table : ProcessTable
  touched : List Access

abbrev LoadProgram := Program Loading

def onMemory {α : Type} (program : MemoryProgram α) : LoadProgram α :=
  Program.within Loading.memory (fun state memory => { state with memory := memory }) program

def onTable {α : Type} (program : TableProgram α) : LoadProgram α :=
  Program.within Loading.table (fun state table => { state with table := table }) program

def note (access : Access) : LoadProgram PUnit :=
  Program.update fun state => { state with touched := state.touched ++ [access] }

/-! ## Regions, copies and zeroes -/

/-- `process_map_user_region`. -/
def processMapUserRegion (process virtualAddr sizeBytes : Nat) : LoadProgram Int := do
  onTable (validateProcess process)
  let fields ← onTable (readProcess process)
  note (.request virtualAddr sizeBytes)
  let result ← onMemory
    (Paging.processMapUserRegion (some fields.addressSpace) virtualAddr sizeBytes)
  if result = 0 then do
    note (.mapped virtualAddr sizeBytes)
    pure result
  else pure result

/-- `process_with_address_space`. -/
def processWithAddressSpace (process : Nat) (operation : MemoryProgram PUnit) : LoadProgram PUnit := do
  onTable (validateProcess process)
  let fields ← onTable (readProcess process)
  let state ← Program.current
  let oldSpace := state.memory.currentSpace
  onMemory (addressSpaceSwitch (some fields.addressSpace))
  onMemory operation
  onMemory (addressSpaceSwitch oldSpace)

/-- `process_copy_to_user_init`. -/
def processCopyToUserInit (process userDest kernelSrc size : Nat) (source : Nat → UInt8) :
    LoadProgram Int := do
  onTable (validateProcess process)
  if size = 0 then pure 0
  else if kernelSrc = 0 then pure (-1)
  else do
    note (.write userDest size)
    processWithAddressSpace process (memcpyTo userDest size source)
    pure 0

/-- `memset` to zero at a virtual address. -/
def memsetZero (virtualAddr size : Nat) : MemoryProgram PUnit := memcpyTo virtualAddr size fun _ => 0

/-- `process_zero_user_init`. -/
def processZeroUserInit (process userDest size : Nat) : LoadProgram Int := do
  onTable (validateProcess process)
  if size = 0 then pure 0
  else do
    note (.write userDest size)
    processWithAddressSpace process (memsetZero userDest size)
    pure 0

/-! ## Arguments -/

def processMaxArgc : Nat := 16
def processMaxArgString : Nat := 128

def alignDown4 (value : Nat) : Nat := value &&& (2 ^ 32 - 4)

/-- The length of a string, from place `len` on, if its end is near enough. -/
def argLength (arg : Nat → UInt8) : Nat → Nat → Option Nat
  | 0, _ => none
  | remaining + 1, len => if arg len = 0 then some len else argLength arg remaining (len + 1)

/-- `process_copy_stack_bytes`. -/
def processCopyStackBytes (process dest size : Nat) (source : Nat → UInt8) : LoadProgram Int :=
  if size = 0 then pure 0
  else do
    note (.write dest size)
    processWithAddressSpace process (memcpyTo dest size source)
    pure 0

/-- The loop over the arguments, the last one first. It gives the stack pointer and the places of
the strings. -/
def copyArguments (process : Nat) (argv : Nat → Option (Nat → UInt8)) :
    Nat → Nat → List Nat → LoadProgram (Option (Nat × List Nat))
  | 0, sp, argPtrs => pure (some (sp, argPtrs))
  | i + 1, sp, argPtrs =>
    match argv i with
    | none => pure none
    | some arg =>
      match argLength arg processMaxArgString 0 with
      | none => pure none
      | some len => do
        let fields ← onTable (readProcess process)
        let bytes := len + 1
        if sp < (fields.userStackBase + bytes) % 2 ^ 32 then pure none
        else do
          let dest := (sp + 2 ^ 32 - bytes) % 2 ^ 32
          let result ← processCopyStackBytes process dest bytes arg
          if result ≠ 0 then pure none
          else copyArguments process argv i dest (dest :: argPtrs)

/-- The bytes of consecutive words. -/
def wordBytes (words : List Nat) (i : Nat) : UInt8 :=
  UInt8.ofNat (words.getD (i / 4) 0 / 2 ^ (8 * (i % 4)))

/-- `process_setup_arguments`. -/
def processSetupArguments (process : Nat) (argc : Int)
    (argv : Option (Nat → Option (Nat → UInt8))) : LoadProgram Int := do
  onTable (validateLiveProcess process)
  if argc < 0 ∨ argc > processMaxArgc then pure (-1)
  else if argc > 0 ∧ argv.isNone then pure (-1)
  else do
    let fields ← onTable (readProcess process)
    if fields.userStackBase = 0 ∨ fields.userStackTop = 0 then pure (-1)
    else do
      let copied ← copyArguments process (argv.getD fun _ => none) argc.toNat fields.userStackTop []
      match copied with
      | none => pure (-1)
      | some (sp, argPtrs) => do
        let fields ← onTable (readProcess process)
        let sp := alignDown4 sp
        let tableBytes := (1 + argc.toNat + 1 + 1) * 4
        if sp < (fields.userStackBase + tableBytes) % 2 ^ 32 then pure (-1)
        else do
          let sp := (sp + 2 ^ 32 - tableBytes) % 2 ^ 32
          let result ← processCopyStackBytes process sp tableBytes
            (wordBytes (argc.toNat :: argPtrs ++ [0, 0]))
          if result ≠ 0 then pure (-1)
          else do
            onTable (changeProcess process fun fields => { fields with userInitialEsp := sp })
            pure 0

end Toyix.Loader
