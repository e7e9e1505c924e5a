import Toyix.Heap.Clients
import Toyix.Paging.Kernel

/-!
# Address spaces

This is `kernel/address_space.c` with the page mapping functions of
`kernel/process.c`. A process directory holds copies of the kernel's entries for the
first 16 MiB and for everything from 3 GiB on; the entries between belong to the
process. Each user page is recorded twice: in the page tables and in a list of
mapping nodes.

An `address_space_t` and its mapping nodes live in heap blocks. They are modelled as
records under their heap pointers; the blocks are allocated and freed in the modelled
heap, which can grow inside any of these calls. Which part of the kernel asked for a
heap block, and which pages callers have taken from the frame allocator without
mapping them, is recorded next to the kernel's own state. The `magic` fields and
console output are left out: a space that was destroyed has no record.
-/

namespace Toyix.Paging

open Library Pmm Function

def addressSpaceFlagWritable : Nat := 0x00000001
def addressSpaceFlagUser : Nat := 0x00000002
def addressSpaceUserBase : Nat := 0x01000000
def addressSpaceUserTop : Nat := 0xC0000000
def pageTableBootstrapLimit : Nat := 0x01000000
def kernelHighBase : Nat := 0xC0000000
def lowIdentitySharedBytes : Nat := 0x01000000
def pageDirectoryEntries : Nat := 1024
def pageTableEntries : Nat := 1024

/-- `sizeof(address_space_t)` and `sizeof(address_mapping_t)`. -/
def sizeofAddressSpace : Nat := 20
def sizeofAddressMapping : Nat := 12

/-- A node of the list of user pages, with its heap pointer. -/
structure Mapping where
  node : Nat
  virtualAddr : Nat
  physicalAddr : Nat
deriving DecidableEq

/-- An `address_space_t`. -/
structure AddressSpace where
  pageDirectory : Nat
  pageDirectoryPhysical : Nat
  userMappings : List Mapping
  userPageCount : Nat
deriving DecidableEq

/-- What a heap block was allocated for. -/
inductive BlockUse where
  | client
  | space
  | mapping (space : Nat)
deriving DecidableEq

/-- An `address_space_t *`: the kernel's own, or a heap pointer. -/
abbrev SpaceRef := Option Nat

/-- The memory subsystem. -/
structure MemorySystem where
  client : Heap.Client Machine
  kernelSpace : AddressSpace
  spaces : Nat → Option AddressSpace
  currentSpace : SpaceRef
  blockUse : Nat → Option BlockUse
  frames : List Nat

/-- The machine below the heap. -/
def MemorySystem.machine (system : MemorySystem) : Machine := system.client.system.pages

/-- The system with another machine below the heap. -/
def MemorySystem.withMachine (system : MemorySystem) (machine : Machine) : MemorySystem :=
  { system with client := { system.client with
    system := { system.client.system with pages := machine } } }

/-- The record a pointer refers to. -/
def MemorySystem.lookup (system : MemorySystem) : SpaceRef → Option AddressSpace
  | none => some system.kernelSpace
  | some object => system.spaces object

/-- A program over the memory subsystem. -/
abbrev MemoryProgram := Program MemorySystem

/-! ## Access to the parts -/

/-- Assign to the layers below. -/
def setMachine (change : Machine → Machine) : MemoryProgram PUnit :=
  Program.update fun system => system.withMachine (change system.machine)

/-- The layers below. -/
def machineNow : MemoryProgram Machine := fun system => .done system.machine system

/-- Call a function of the layers below that always returns. -/
def callMachine {α : Type} (operation : Machine → α × Machine) : MemoryProgram α := do
  let machine ← machineNow
  setMachine fun _ => (operation machine).2
  pure (operation machine).1

/-- Call `pmm_free_page`. -/
def freePage (physicalAddr : Nat) : MemoryProgram PUnit := do
  let machine ← machineNow
  match pmmFreePage physicalAddr machine.pmm with
  | .ok pmm => setMachine fun machine => { machine with pmm := pmm }
  | .error message => Program.panic message

/-- Run a heap function. -/
def callHeap {α : Type} (program : Heap.HeapProgram Machine α) : MemoryProgram α := fun system =>
  match program system.client.system with
  | .done value next => .done value { system with client := { system.client with system := next } }
  | .panicked message next =>
    .panicked message { system with client := { system.client with system := next } }
  | .diverged => .diverged

/-- `kmalloc`, recording what the block is for. -/
def kmallocFor (use : BlockUse) (size : Nat) : MemoryProgram Nat := do
  let ptr ← callHeap (Heap.kmalloc kernelPages size)
  Program.update fun system => { system with
    client := { system.client with live := Heap.recordLive ptr size system.client.live }
    blockUse := if ptr = 0 then system.blockUse else update system.blockUse ptr (some use) }
  pure ptr

/-- `kfree`, forgetting what the block was for. -/
def kfreeBlock (ptr : Nat) : MemoryProgram PUnit := do
  callHeap (Heap.kfree ptr)
  Program.update fun system => { system with
    client := { system.client with
      live := system.client.live.filter fun allocation => decide (allocation.ptr ≠ ptr) }
    blockUse := update system.blockUse ptr none }

/-- Assign to a record. -/
def setSpace (space : SpaceRef) (change : AddressSpace → AddressSpace) : MemoryProgram PUnit :=
  Program.update fun system =>
    match space with
    | none => { system with kernelSpace := change system.kernelSpace }
    | some object => { system with
        spaces := update system.spaces object ((system.spaces object).map change) }

/-! ## `address_space.c` -/

def toArchFlags (flags : Nat) : Nat :=
  (if flags &&& addressSpaceFlagWritable ≠ 0 then x86PageWritable else 0) |||
    (if flags &&& addressSpaceFlagUser ≠ 0 then x86PageUser else 0)

def fromArchFlags (archFlags : Nat) : Nat :=
  (if archFlags &&& x86PageWritable ≠ 0 then addressSpaceFlagWritable else 0) |||
    (if archFlags &&& x86PageUser ≠ 0 then addressSpaceFlagUser else 0)

/-- The fields of an address space. A pointer without a record does not carry the
magic number. -/
def readSpace (space : SpaceRef) : MemoryProgram AddressSpace := do
  let system ← Program.current
  match system.lookup space with
  | none => Program.panic "address_space: magic mismatch"
  | some record => pure record

/-- Stops on a space without a directory. -/
def validateSpace (space : SpaceRef) : MemoryProgram AddressSpace := do
  let record ← readSpace space
  if record.pageDirectory = 0 ∨ record.pageDirectoryPhysical = 0 then
    Program.panic "address_space: missing page directory"
  else pure record

def userVirtualAllowed (virtualAddr : Nat) : Bool :=
  decide (addressSpaceUserBase ≤ virtualAddr) && decide (virtualAddr < addressSpaceUserTop)

/-- Copy the kernel's entries `0..3` and `768..1023`. -/
def syncDirectory (directory kernelDirectory : Nat) (memory : Memory) : Memory :=
  let low := memory.writeWords directory (lowIdentitySharedBytes / (4 * 1024 * 1024))
    fun i => memory.word kernelDirectory i
  low.writeWords (directory + 4 * directoryIndex kernelHighBase)
    (pageDirectoryEntries - directoryIndex kernelHighBase)
    fun i => low.word kernelDirectory (directoryIndex kernelHighBase + i)

def syncKernelMappings (directory : Nat) : MemoryProgram PUnit :=
  setMachine fun machine => { machine with
    memory := syncDirectory directory machine.kernelDirectory machine.memory }

/-- The new node is the first. -/
def mappingAdd (space : SpaceRef) (virtualAddr physicalAddr : Nat) : MemoryProgram PUnit := do
  let node ← kmallocFor (.mapping (space.getD 0)) sizeofAddressMapping
  if node = 0 then Program.panic "address_space: could not allocate mapping node"
  else setSpace space fun record => { record with
    userMappings := ⟨node, virtualAddr, physicalAddr⟩ :: record.userMappings }

/-- The first node for a page, and the list without it. -/
def takeMapping (virtualAddr : Nat) : List Mapping → Option (Mapping × List Mapping)
  | [] => none
  | mapping :: rest =>
    if mapping.virtualAddr = virtualAddr then some (mapping, rest)
    else (takeMapping virtualAddr rest).map fun (found, others) => (found, mapping :: others)

/-- The node is freed. -/
def mappingRemove (space : SpaceRef) (virtualAddr : Nat) : MemoryProgram Int := do
  let record ← readSpace space
  match takeMapping virtualAddr record.userMappings with
  | none => pure 0
  | some (mapping, others) => do
    setSpace space fun record => { record with userMappings := others }
    kfreeBlock mapping.node
    pure 1

/-- A directory with the entries of the kernel. -/
def addressSpaceCreate : MemoryProgram Nat := do
  let directoryPhys ← callMachine fun machine =>
    let (page, pmm) := pmmAllocPageBelow pageTableBootstrapLimit machine.pmm
    (page, { machine with pmm := pmm })
  if directoryPhys = pmmInvalidPage then
    Program.panic "address_space_create could not allocate page directory"
  else do
    setMachine fun machine => { machine with memory := machine.memory.clearPage directoryPhys }
    let space ← kmallocFor .space sizeofAddressSpace
    if space = 0 then Program.panic "address_space_create could not allocate object"
    else do
      Program.update fun system => { system with
        spaces := update system.spaces space (some ⟨directoryPhys, directoryPhys, [], 0⟩) }
      syncKernelMappings directoryPhys
      pure space

/-- The entries of the kernel are copied at each switch. -/
def addressSpaceSwitch (space : SpaceRef) : MemoryProgram PUnit := do
  let record ← validateSpace space
  if space ≠ none then syncKernelMappings record.pageDirectory else pure ⟨⟩
  let system ← Program.current
  if system.currentSpace = space then pure ⟨⟩
  else do
    Program.update fun system => { system with currentSpace := space }
    setMachine fun machine => { machine with cr3 := record.pageDirectoryPhysical }

/-- The flags of the first page are those of the table. -/
def getOrCreateTable (directory dirIndex flags : Nat) (machine : Machine) : Nat × Machine :=
  let pde := machine.memory.word directory dirIndex
  if isPresent pde then (tableFromPde pde, machine)
  else
    let (tablePhys, pmm) := pmmAllocPageBelow pageTableBootstrapLimit machine.pmm
    if tablePhys = pmmInvalidPage then (0, { machine with pmm := pmm })
    else
      let pdeFlags := x86PagePresent ||| x86PageWritable ||| toArchFlags flags
      (tablePhys, { machine with
        pmm := pmm
        memory := (machine.memory.clearPage tablePhys).setWord directory dirIndex
          ((tablePhys &&& x86PageFrameMask) ||| pdeFlags) })

/-- A page that is mapped already is refused. -/
def addressSpaceMapPage (space : SpaceRef) (virtualAddr physicalAddr flags : Nat) :
    MemoryProgram Int := do
  let record ← validateSpace space
  if isPageAligned virtualAddr = false ∨ isPageAligned physicalAddr = false then pure (-1)
  else if userVirtualAllowed virtualAddr = false then pure (-1)
  else do
    let tab := tableIndex virtualAddr
    let table ← callMachine
      (getOrCreateTable record.pageDirectory (directoryIndex virtualAddr) flags)
    if table = 0 then pure (-1)
    else do
      let machine ← machineNow
      if isPresent (machine.memory.word table tab) then pure (-1)
      else do
        setMachine fun machine => { machine with
          memory := machine.memory.setWord table tab
            ((physicalAddr &&& x86PageFrameMask) ||| x86PagePresent ||| toArchFlags flags) }
        mappingAdd space virtualAddr physicalAddr
        setSpace space fun record => { record with
          userPageCount := (record.userPageCount + 1) % 2 ^ 32 }
        pure 0

/-- The frame is returned, the table stays. -/
def addressSpaceUnmapPage (space : SpaceRef) (virtualAddr : Nat) : MemoryProgram Int := do
  let record ← validateSpace space
  if isPageAligned virtualAddr = false then pure (-1)
  else if userVirtualAllowed virtualAddr = false then pure (-1)
  else do
    let tab := tableIndex virtualAddr
    let machine ← machineNow
    let pde := machine.memory.word record.pageDirectory (directoryIndex virtualAddr)
    if isPresent pde = false then pure (-1)
    else
      let table := tableFromPde pde
      if isPresent (machine.memory.word table tab) = false then pure (-1)
      else do
        let physical := machine.memory.word table tab &&& x86PageFrameMask
        setMachine fun machine => { machine with memory := machine.memory.setWord table tab 0 }
        let _ ← mappingRemove space virtualAddr
        setSpace space fun record => { record with
          userPageCount :=
            if record.userPageCount > 0 then record.userPageCount - 1 else record.userPageCount }
        freePage physical
        pure 0

/-- Whether one of the first `count` entries of a table is present. -/
def anyPresent (memory : Memory) (table : Nat) : Nat → Bool
  | 0 => false
  | count + 1 => anyPresent memory table count || isPresent (memory.word table count)

/-- Directory entries `dir`, `dir + 1`, ..., `remaining` of them. -/
def freeUserPageTablesFrom (directory : Nat) : Nat → Nat → MemoryProgram PUnit
  | 0, _ => pure ⟨⟩
  | remaining + 1, dir => do
    let machine ← machineNow
    let pde := machine.memory.word directory dir
    if isPresent pde = false then pure ⟨⟩
    else if anyPresent machine.memory (tableFromPde pde) pageTableEntries then
      Program.panic "address_space_destroy found non-empty user table"
    else do
      setMachine fun machine => { machine with memory := machine.memory.setWord directory dir 0 }
      freePage (tableFromPde pde)
    freeUserPageTablesFrom directory remaining (dir + 1)

/-- Entries 4 to 767. -/
def freeUserPageTables (directory : Nat) : MemoryProgram PUnit :=
  let startDir := directoryIndex addressSpaceUserBase
  let endDir := directoryIndex (addressSpaceUserTop - 1)
  freeUserPageTablesFrom directory (endDir + 1 - startDir) startDir

/-- Unmap the page of the first node until the list is empty. -/
def unmapAll (space : SpaceRef) : Nat → MemoryProgram PUnit
  | 0 => Program.diverge
  | fuel + 1 => do
    let record ← readSpace space
    match record.userMappings with
    | [] => pure ⟨⟩
    | mapping :: _ => do
      let result ← addressSpaceUnmapPage space mapping.virtualAddr
      if result ≠ 0 then Program.panic "address_space_destroy failed to unmap user page"
      else unmapAll space fuel

/-- A space that is loaded is left first. -/
def addressSpaceDestroy (space : SpaceRef) : MemoryProgram PUnit := do
  let record ← validateSpace space
  match space with
  | none => Program.panic "attempted to destroy kernel address space"
  | some object => do
    let system ← Program.current
    if system.currentSpace = space then addressSpaceSwitch none else pure ⟨⟩
    unmapAll space (record.userMappings.length + 1)
    freeUserPageTables record.pageDirectory
    Program.update fun system => { system with
      spaces := update system.spaces object none }
    freePage record.pageDirectoryPhysical
    kfreeBlock object

def addressSpaceGetFlags (directory virtualAddr : Nat) (memory : Memory) : Nat :=
  let pte := pageEntry memory directory virtualAddr
  if isPresent pte = false then 0 else fromArchFlags (pte &&& x86PageFlagsMask)

/-- `address_space_init`: the kernel's own space. -/
def addressSpaceInit (image : Image) : AddressSpace :=
  ⟨image.pageDirectory, image.pageDirectory, [], 0⟩

/-- The order in which `kernel_main` starts the memory subsystem. Physical memory is
what the boot loader left; the heap's window and the variables of the allocator hold
arbitrary values. The self tests of the frame allocator and of the heap return what
they take and are left out. -/
def bootSystem (image : Image) (initialPages : Nat) (pmm : PmmState) (heapMemory : Memory) :
    Option MemorySystem :=
  (pmmInit image.boot pmm).result.bind fun (_, pmm) =>
    (vmmTestOnce (vmmInit image (pagingInit image ⟨pmm, image.boot.memory, 0, 0, 0⟩))).result.bind
      fun (_, machine) =>
        (Heap.heapInit kernelPages initialPages ⟨Heap.HeapState.boot heapMemory, machine⟩).result.map
          fun (_, heapSystem) =>
            { client := ⟨heapSystem, []⟩
              kernelSpace := addressSpaceInit image
              spaces := fun _ => none
              currentSpace := none
              blockUse := fun _ => none
              frames := [] }

/-! ## `process.c`: mapping user memory -/

def pageAlignDown (value : Nat) : Nat := value &&& (2 ^ 32 - pmmPageSize)

def pageAlignUp (value : Nat) : Nat :=
  ((value + (pmmPageSize - 1)) % 2 ^ 32) &&& (2 ^ 32 - pmmPageSize)

/-- A new frame, which is returned if it cannot be mapped. -/
def mapUserPage (space : SpaceRef) (virtualAddr : Nat) : MemoryProgram Int := do
  let physical ← callMachine kernelPages.pmmAllocPage
  if physical = pmmInvalidPage then pure (-1)
  else do
    let result ← addressSpaceMapPage space virtualAddr physical
      (addressSpaceFlagWritable ||| addressSpaceFlagUser)
    if result ≠ 0 then do
      freePage physical
      pure (-1)
    else pure 0

/-- Pages `addr`, `addr + 4096`, ..., `remaining` of them. -/
def mapUserPagesFrom (space : SpaceRef) : Nat → Nat → MemoryProgram Int
  | 0, _ => pure 0
  | remaining + 1, addr => do
    let result ← mapUserPage space addr
    if result ≠ 0 then pure (-1)
    else mapUserPagesFrom space remaining (addr + pmmPageSize)

/-- The end is rounded up modulo `2 ^ 32`; the loop runs while its counter is below
it. -/
def processMapUserRegion (space : SpaceRef) (virtualAddr sizeBytes : Nat) : MemoryProgram Int :=
  if sizeBytes = 0 then pure 0
  else
    let start := pageAlignDown virtualAddr
    let endRaw := (virtualAddr + sizeBytes) % 2 ^ 32
    if endRaw < virtualAddr then pure (-1)
    else mapUserPagesFrom space ((pageAlignUp endRaw - start) / pmmPageSize) start

end Toyix.Paging
