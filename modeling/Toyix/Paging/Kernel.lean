import Toyix.Heap.Allocator
import Toyix.Library.Tables
import Toyix.Paging.Frames

/-!
# The kernel's page tables

This is `arch/x86/paging.c`, `arch/x86/vmm.c` and `kernel/vmem.c`. Page directories
and page tables are pages of physical memory. The kernel reads and writes them at
their physical addresses, through the identity map of the first 16 MiB.

`vmm_map_page` uses the table that `get_or_create_page_table` returns without
testing it. A null table is the page at physical address zero: the entry is read
and written there, and the page is reported as mapped.

The processor's view is the directory in `cr3`. Cached translations are not part
of the model: every change of a present entry is followed by an invalidation.
-/

namespace Toyix.Paging

open Library Pmm

def x86PageSize : Nat := 4096
def x86PagePresent : Nat := 0x001
def x86PageWritable : Nat := 0x002
def x86PageUser : Nat := 0x004
def x86PageFrameMask : Nat := 0xFFFFF000
def x86PageFlagsMask : Nat := 0x00000FFF
def vmmBootstrapTableLimit : Nat := 0x01000000

def vmmOk : Int := 0
def vmmErrInvalid : Int := -1
def vmmErrNoMemory : Int := -2
def vmmErrAlreadyMapped : Int := -3
def vmmErrNotMapped : Int := -4

/-- The frame allocator, physical memory, the variables of `vmm.c` and the page
directory the processor uses. -/
structure Machine where
  pmm : PmmState
  memory : Memory
  kernelDirectory : Nat
  mappedPageCount : Nat
  cr3 : Nat

/-- The kernel image: what the boot loader hands over, and where the linker placed
the page directory and the identity tables. They are whole pages of the image, apart from
each other and below 16 MiB. -/
structure Image where
  boot : Boot
  pageDirectory : Nat
  identityTables : Nat
  addressable : boot.Addressable
  aligned : pageDirectory % 4096 = 0
  tablesAligned : identityTables % 4096 = 0
  low : boot.kernelStart ≤ pageDirectory
  tablesLow : boot.kernelStart ≤ identityTables
  high : pageDirectory + 4096 ≤ boot.kernelEnd
  tablesHigh : identityTables + 16384 ≤ boot.kernelEnd
  apart : pageDirectory + 4096 ≤ identityTables ∨ identityTables + 16384 ≤ pageDirectory
  identity : boot.kernelEnd ≤ 0x1000000
  loaded : 0x100000 ≤ boot.kernelStart

/-! ## Entries -/

def isPageAligned (value : Nat) : Bool := value &&& (x86PageSize - 1) == 0

def directoryIndex (virtualAddr : Nat) : Nat := virtualAddr >>> 22

def tableIndex (virtualAddr : Nat) : Nat := (virtualAddr >>> 12) &&& 0x3FF

def tableFromPde (pde : Nat) : Nat := pde &&& x86PageFrameMask

/-- The present bit of an entry. -/
def isPresent (entry : Nat) : Bool := entry &&& x86PagePresent != 0

/-! ## `paging.c` -/

/-- The directory is cleared, the four identity tables are filled and entered. -/
def pagingInit (image : Image) (machine : Machine) : Machine :=
  let memory := machine.memory.clearPage image.pageDirectory
  let memory := memory.writeWords image.identityTables 4096 fun entry =>
    ((entry * x86PageSize) &&& x86PageFrameMask) ||| x86PagePresent ||| x86PageWritable
  let memory := memory.writeWords image.pageDirectory 4 fun table =>
    ((image.identityTables + x86PageSize * table) &&& x86PageFrameMask) |||
      x86PagePresent ||| x86PageWritable
  { machine with memory := memory, cr3 := image.pageDirectory }

/-! ## `vmm.c` -/

/-- The user bit of the first page is that of the table. -/
def getOrCreatePageTable (dirIndex flags : Nat) (machine : Machine) : Nat × Machine :=
  let pde := machine.memory.word machine.kernelDirectory dirIndex
  if isPresent pde then (tableFromPde pde, machine)
  else
    let (tablePhys, pmm) := pmmAllocPageBelow vmmBootstrapTableLimit machine.pmm
    if tablePhys = pmmInvalidPage then (0, { machine with pmm := pmm })
    else
      let tableFlags := x86PagePresent ||| x86PageWritable |||
        (if flags &&& x86PageUser ≠ 0 then x86PageUser else 0)
      (tablePhys, { machine with
        pmm := pmm
        memory := (machine.memory.clearPage tablePhys).setWord machine.kernelDirectory dirIndex
          ((tablePhys &&& x86PageFrameMask) ||| tableFlags) })

def vmmInit (image : Image) (machine : Machine) : Machine :=
  { machine with kernelDirectory := image.pageDirectory, mappedPageCount := 0 }

/-- The table is not compared with null: without a frame for it the entry is stored at address 0. -/
def vmmMapPage (virtualAddr physicalAddr flags : Nat) (machine : Machine) : Int × Machine :=
  if isPageAligned virtualAddr = false ∨ isPageAligned physicalAddr = false then
    (vmmErrInvalid, machine)
  else
    let tab := tableIndex virtualAddr
    let (table, machine) := getOrCreatePageTable (directoryIndex virtualAddr) flags machine
    if isPresent (machine.memory.word table tab) then (vmmErrAlreadyMapped, machine)
    else (vmmOk, { machine with
      memory := machine.memory.setWord table tab
        ((physicalAddr &&& x86PageFrameMask) ||| (flags &&& x86PageFlagsMask) ||| x86PagePresent)
      mappedPageCount := (machine.mappedPageCount + 1) % 2 ^ 32 })

/-- The table stays. -/
def vmmUnmapPage (virtualAddr : Nat) (machine : Machine) : Int × Machine :=
  if isPageAligned virtualAddr = false then (vmmErrInvalid, machine)
  else
    let tab := tableIndex virtualAddr
    let pde := machine.memory.word machine.kernelDirectory (directoryIndex virtualAddr)
    if isPresent pde = false then (vmmErrNotMapped, machine)
    else
      let table := tableFromPde pde
      if isPresent (machine.memory.word table tab) = false then (vmmErrNotMapped, machine)
      else (vmmOk, { machine with
        memory := machine.memory.setWord table tab 0
        mappedPageCount :=
          if machine.mappedPageCount > 0 then machine.mappedPageCount - 1
          else machine.mappedPageCount })

/-- The entry that maps a page in a directory; zero when there is no table or no
present entry. -/
def pageEntry (memory : Memory) (directory virtualAddr : Nat) : Nat :=
  let pde := memory.word directory (directoryIndex virtualAddr)
  if isPresent pde = false then 0
  else
    let pte := memory.word (tableFromPde pde) (tableIndex virtualAddr)
    if isPresent pte = false then 0 else pte

/-- Zero if nothing is mapped. -/
def vmmGetPhysical (virtualAddr : Nat) (machine : Machine) : Nat :=
  let pte := pageEntry machine.memory machine.kernelDirectory virtualAddr
  if isPresent pte = false then 0
  else (pte &&& x86PageFrameMask) + (virtualAddr &&& (x86PageSize - 1))

def vmmGetFlags (virtualAddr : Nat) (machine : Machine) : Nat :=
  let pte := pageEntry machine.memory machine.kernelDirectory virtualAddr
  if isPresent pte = false then 0 else pte &&& x86PageFlagsMask

/-- The self test at boot. The two words are stored through the virtual address, so
they reach the page it was just found to be mapped to. -/
def vmmTestOnce : Program Machine Unit := do
  let machine ← Program.current
  let (physical, pmm) := pmmAllocPage machine.pmm
  Program.update fun machine => { machine with pmm := pmm }
  if physical = pmmInvalidPage then Program.panic "VMM test could not allocated physical page"
  else do
    let virtualAddr := 0xD0000000
    let machine ← Program.current
    let (rc, mapped) := vmmMapPage virtualAddr physical x86PageWritable machine
    Program.update fun _ => mapped
    if rc ≠ vmmOk then Program.panic "VMM test failed to map page"
    else if vmmGetPhysical virtualAddr mapped ≠ physical then
      Program.panic "VMM test translation mismatch"
    else do
      Program.update fun machine => { machine with
        memory := (machine.memory.write32 physical 0x11223344).write32 (physical + 4) 0x55667788 }
      let machine ← Program.current
      if machine.memory.read32 physical ≠ 0x11223344 ∨
          machine.memory.read32 (physical + 4) ≠ 0x55667788 then
        Program.panic "VMM test mapped read/write failed"
      else do
        let (rc, unmapped) := vmmUnmapPage virtualAddr machine
        Program.update fun _ => unmapped
        if rc ≠ vmmOk then Program.panic "VMM test failed to unmap page"
        else
          match pmmFreePage physical unmapped.pmm with
          | .ok pmm => Program.update fun machine => { machine with pmm := pmm }
          | .error message => Program.panic message

/-! ## `vmem.c` -/

def vmemFlagWritable : Nat := 0x00000001
def vmemFlagUser : Nat := 0x00000002

def vmemToArchFlags (flags : Nat) : Nat :=
  (if flags &&& vmemFlagWritable ≠ 0 then x86PageWritable else 0) |||
    (if flags &&& vmemFlagUser ≠ 0 then x86PageUser else 0)

def vmemFromArchResult (result : Int) : Int :=
  if result = vmmOk then 0
  else if result = vmmErrInvalid then -1
  else if result = vmmErrNoMemory then -2
  else if result = vmmErrAlreadyMapped then -3
  else if result = vmmErrNotMapped then -4
  else -1

def vmemMapPage (virtualAddr physicalAddr flags : Nat) (machine : Machine) : Int × Machine :=
  let (result, machine) := vmmMapPage virtualAddr physicalAddr (vmemToArchFlags flags) machine
  (vmemFromArchResult result, machine)

def vmemUnmapPage (virtualAddr : Nat) (machine : Machine) : Int × Machine :=
  let (result, machine) := vmmUnmapPage virtualAddr machine
  (vmemFromArchResult result, machine)

/-- The kernel's own page layer under the heap. A store through a virtual address
faults when the loaded directory does not map it. -/
def kernelPages : Heap.PageLayer Machine where
  pmmAllocPage machine :=
    let (page, pmm) := pmmAllocPage machine.pmm
    (page, { machine with pmm := pmm })
  pmmFreePage physicalAddr machine :=
    (pmmFreePage physicalAddr machine.pmm).map fun pmm => { machine with pmm := pmm }
  vmemMapPage := vmemMapPage
  vmemUnmapPage := vmemUnmapPage
  vmemGetPhysical := vmmGetPhysical
  pageWritable virtualAddr machine :=
    isPresent (pageEntry machine.memory machine.cr3 virtualAddr)

end Toyix.Paging
