import Toyix.Paging.System
import Toyix.Paging.MemoryMap

/-!
# Isolation of processes

In every run each physical page has at most one owner, so a page of one process is
not reachable from another process, is not entered twice, and is not part of the
kernel heap, of a directory or of a table.
-/

namespace Toyix.Paging

open Library Pmm

variable {image : Image} {system : MemorySystem}

/-- Every page has at most one owner; owned pages are in use and were not reserved at
boot; and a page of a process is private to one virtual page of it. -/
structure Isolated (image : Image) (system : MemorySystem) : Prop where
  single : ∀ owner other frame, ownersOf system.spaces system.machine owner = some frame →
    ownersOf system.spaces system.machine other = some frame → owner = other
  used : ∀ owner frame, ownersOf system.spaces system.machine owner = some frame →
    FrameUsed system.machine.pmm frame
  unreserved : ∀ owner frame, ownersOf system.spaces system.machine owner = some frame →
    ¬ ReservedAtBoot image.boot frame
  once : ∀ object virtualAddr other virtualAddr' frame,
    ownersOf system.spaces system.machine (.page (some object) virtualAddr) = some frame →
    ownersOf system.spaces system.machine (.page (some other) virtualAddr') = some frame →
    object = other ∧ virtualAddr = virtualAddr'
  notHeap : ∀ object virtualAddr virtualAddr' frame,
    ownersOf system.spaces system.machine (.page (some object) virtualAddr) = some frame →
    ownersOf system.spaces system.machine (.page none virtualAddr') ≠ some frame
  notTable : ∀ object virtualAddr space index frame,
    ownersOf system.spaces system.machine (.page (some object) virtualAddr) = some frame →
    ownersOf system.spaces system.machine (.table space index) ≠ some frame
  notDirectory : ∀ object virtualAddr space frame,
    ownersOf system.spaces system.machine (.page (some object) virtualAddr) = some frame →
    directoryOf system.spaces system.machine.kernelDirectory space ≠ some frame
  notIdentity : ∀ object virtualAddr frame,
    ownersOf system.spaces system.machine (.page (some object) virtualAddr) = some frame →
    ∀ index < 4, frame ≠ image.identityTables + 4096 * index

/-- Sound ownership isolates processes. -/
theorem Owned.isolated {held : Set Nat} (owned : Owned image system.spaces held system.machine)
    : Isolated image system := by
  constructor
  · intro owner other frame owns owns'
    exact owned.sound.single owns owns'
  · intro owner frame owns
    exact (owned.sound.owned owns).1
  · intro owner frame owns
    exact (owned.permitted owns).2
  · intro object virtualAddr other virtualAddr' frame owns owns'
    obtain ⟨sameSpace, sameAddr⟩ := Owner.page.inj (owned.sound.single owns owns')
    exact ⟨Option.some.inj sameSpace, sameAddr⟩
  · intro object virtualAddr virtualAddr' frame owns owns'
    exact absurd (Owner.page.inj (owned.sound.single owns owns')).1 (Option.some_ne_none object)
  · intro object virtualAddr space index frame owns owns'
    exact Owner.noConfusion (owned.sound.single owns owns')
  · intro object virtualAddr space frame owns isDirectory
    exact owned.structural_not_data (Or.inl ⟨space, isDirectory⟩) (Or.inr ⟨_, _, owns⟩)
  · intro object virtualAddr frame owns index low same
    have entered := owned.identity index low
    rw [← same] at entered
    exact owned.kernel_table_not_data (by omega) entered (Or.inr ⟨_, _, owns⟩)

/-- Processes are isolated in every run of the memory subsystem. -/
theorem processes_isolated (reached : MemoryReachable image Proper system) :
    Isolated image system :=
  (reachable_accounted (fun _ _ proper => proper) reached).owned.isolated

/-! ## A small machine -/

/-- A kernel image of five pages at 1 MiB, on a machine with 128 KiB from there on. -/
def smallImage : Image where
  boot := oneEntryBoot 0x100000 0x20000
  pageDirectory := 0x100000
  identityTables := 0x101000
  addressable := ⟨by decide, by decide⟩
  aligned := by decide
  tablesAligned := by decide
  low := by decide
  tablesLow := by decide
  high := by decide
  tablesHigh := by decide
  apart := by decide
  identity := by decide
  loaded := by decide

section SmallRun

variable {allowed : MemorySystem → MemoryOp → Prop} [∀ system op, Decidable (allowed system op)]
  {ops : List MemoryOp}

/-- A run on the small machine, from a heap of one page. -/
def smallRun (allowed : MemorySystem → MemoryOp → Prop) [∀ system op, Decidable (allowed system op)]
    (ops : List MemoryOp) : Option MemorySystem :=
  (bootSystem smallImage 1 ⟨⟨fun _ => 0⟩, 0, 0, 0, 0, 0⟩ ⟨fun _ => 0⟩).bind
    (runAll memoryStep allowed ops)

theorem small_run_reachable (completed : smallRun allowed ops = some system) :
    MemoryReachable smallImage allowed system := by
  obtain ⟨start, started, ran⟩ := Option.bind_eq_some_iff.mp completed
  exact ⟨1, _, _, start, by decide, by decide, started, Reaches.of_run ran⟩

theorem small_run_facts {β : Type} {facts : MemorySystem → β} {values : β}
    (completed : (smallRun allowed ops).map facts = some values) :
    ∃ system, MemoryReachable smallImage allowed system ∧ facts system = values := by
  obtain ⟨system, ran, seen⟩ := Option.map_eq_some_iff.mp completed
  exact ⟨system, small_run_reachable ran, seen⟩

end SmallRun

/-- The user pages of a space, as its list has them. -/
def listedPages (object : Nat) (system : MemorySystem) : Option (List (Nat × Nat)) :=
  (system.spaces object).map fun record =>
    record.userMappings.map fun mapping => (mapping.virtualAddr, mapping.physicalAddr)

set_option maxRecDepth 100000 in
/-- Two processes with pages at the same address, after one of them gave a page
back. -/
theorem two_processes_isolated : ∃ system, Isolated smallImage system ∧
    listedPages 0xD1000098 system = some [(0x01000000, 0x109000)] ∧
    listedPages 0xD1000118 system = some [(0x01000000, 0x10B000)] := by
  have completed : (smallRun Proper
      [.kmalloc 100, .create, .mapUserRegion 0xD1000098 0x01000000 5000, .create,
        .unmapPage 0xD1000098 0x01001000, .mapUserPage 0xD1000118 0x01000000]).map
        (fun system => (listedPages 0xD1000098 system, listedPages 0xD1000118 system)) =
      some (some [(0x01000000, 0x109000)], some [(0x01000000, 0x10B000)]) := by
    decide +kernel
  obtain ⟨system, reached, pages⟩ := small_run_facts completed
  obtain ⟨first, second⟩ := Prod.mk.inj pages
  exact ⟨system, processes_isolated reached, first, second⟩

end Toyix.Paging
