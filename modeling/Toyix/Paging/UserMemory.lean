import Toyix.Library.Paged
import Toyix.Paging.Isolation

/-!
# Loads and stores through the loaded directory

The kernel reaches user memory at its virtual addresses. A run of loads or stores is
carried out one page at a time, and stops the machine where the loaded directory maps
no page. A run over pages of the current process reads or changes exactly the bytes
behind it, and the accounts of the memory subsystem stay as they are.
-/

namespace Toyix.Paging

open Library Pmm

/-- The physical address behind a virtual one in the loaded directory. -/
def loadedPhysical (machine : Machine) (virtualAddr : Nat) : Option Nat :=
  (entryPage (pageEntry machine.memory machine.cr3 virtualAddr)).map (· + virtualAddr % 4096)

/-- How many bytes of a run lie in the page of its first byte. -/
def pieceSize (count virtualAddr : Nat) : Nat := min count (4096 - virtualAddr % 4096)

/-- Load `count` bytes. -/
def loadRun : Nat → Nat → Nat → MemoryProgram (List UInt8)
  | 0, count, _ => if count = 0 then pure [] else Program.diverge
  | fuel + 1, count, virtualAddr =>
    if count = 0 then pure []
    else do
      let machine ← machineNow
      match loadedPhysical machine virtualAddr with
      | none => Program.panic "unhandled CPU exception"
      | some physical => do
        let piece := pieceSize count virtualAddr
        let rest ← loadRun fuel (count - piece) (virtualAddr + piece)
        pure ((List.range piece).map (fun i => machine.memory.byte (physical + i)) ++ rest)

/-- Store `count` bytes; byte `i` is `source i`. -/
def storeRun : Nat → Nat → Nat → (Nat → UInt8) → MemoryProgram PUnit
  | 0, count, _, _ => if count = 0 then pure ⟨⟩ else Program.diverge
  | fuel + 1, count, virtualAddr, source =>
    if count = 0 then pure ⟨⟩
    else do
      let machine ← machineNow
      match loadedPhysical machine virtualAddr with
      | none => Program.panic "unhandled CPU exception"
      | some physical => do
        let piece := pieceSize count virtualAddr
        setMachine fun machine => { machine with
          memory := machine.memory.copyIn physical piece source }
        storeRun fuel (count - piece) (virtualAddr + piece) fun i => source (i + piece)

/-- `memcpy` from a virtual address. -/
def memcpyFrom (virtualAddr size : Nat) : MemoryProgram (List UInt8) := loadRun size size virtualAddr

/-- `memcpy` to a virtual address. -/
def memcpyTo (virtualAddr size : Nat) (source : Nat → UInt8) : MemoryProgram PUnit :=
  storeRun size size virtualAddr source

variable {image : Image} {held : Set Nat} {system : MemorySystem} {object : Nat}

/-- The user pages of a process. -/
abbrev userPages (system : MemorySystem) (object page : Nat) : Option Nat :=
  ownersOf system.spaces system.machine (.page (some object) page)

/-- Every byte of a range lies in a page of the process. -/
def RangeOwned (system : MemorySystem) (object first count : Nat) : Prop :=
  ∀ x, first ≤ x → x < first + count → (userPages system object (x / 4096 * 4096)).isSome

theorem RangeOwned.later {first count piece : Nat} (owned : RangeOwned system object first count)
    (fits : piece ≤ count) : RangeOwned system object (first + piece) (count - piece) := by
  intro x low high
  exact owned x (by omega) (by omega)

theorem owned_page_range {page frame : Nat} (owns : userPages system object page = some frame) :
    PageRange (some object) page := by
  simp only [userPages, ownersOf, ownedFrame] at owns
  split at owns
  · assumption
  · simp at owns

/-- The pages of a process are whole frames, each entered once. -/
theorem Accounted.placed (inv : Accounted image held system) (object : Nat) :
    Placed (userPages system object) := by
  constructor
  · intro page frame owns
    exact (owned_page_range owns).aligned
  · intro page frame owns
    exact (inv.owned.permitted owns).aligned
  · intro page other frame owns owns'
    exact (Owner.page.inj (inv.owned.sound.single owns owns')).2

/-- The address of a byte and of its page have the same entries. -/
theorem page_entry_page (memory : Memory) (directory virtualAddr : Nat) :
    pageEntry memory directory virtualAddr = pageEntry memory directory (virtualAddr / 4096 * 4096) := by
  have sameDirectory : directoryIndex virtualAddr = directoryIndex (virtualAddr / 4096 * 4096) := by
    rw [directory_index_eq, directory_index_eq]
    omega
  have sameTable : tableIndex virtualAddr = tableIndex (virtualAddr / 4096 * 4096) := by
    rw [table_index_eq, table_index_eq]
    omega
  rw [pageEntry, pageEntry, sameDirectory, sameTable]

/-- The loaded directory leads to the pages of the current process. -/
theorem Accounted.loaded_page (inv : Accounted image held system) {virtualAddr frame : Nat}
    (isCurrent : system.currentSpace = some object)
    (owns : userPages system object (virtualAddr / 4096 * 4096) = some frame) :
    loadedPhysical system.machine virtualAddr = some (frame + virtualAddr % 4096) := by
  obtain ⟨record, -, loaded, isDirectory⟩ := inv.loaded_directory
  have inRange := owned_page_range owns
  rw [isCurrent] at isDirectory
  rw [userPages, page_owner isDirectory inRange] at owns
  rw [loadedPhysical, loaded, page_entry_page, owns, Option.map_some]

/-- Stores to pages of a process keep the accounts and all user bits. -/
theorem Accounted.store_user (inv : Accounted image held system)
    {first count : Nat} {source : Nat → UInt8} {memory : Memory}
    (stored : Stored (userPages system object) first count source system.machine.memory memory) :
    Accounted image held (system.withMachine { system.machine with memory := memory }) ∧
      ownersOf system.spaces (system.withMachine { system.machine with memory := memory }).machine =
        ownersOf system.spaces system.machine ∧
      SharedKept system.spaces ∅ system.machine { system.machine with memory := memory } := by
  obtain ⟨owned, sameOwners, kept⟩ := inv.owned.write_data memory ∅ (by
    intro page aligned notData
    refine stored.outside page aligned ?_
    intro virtualAddr owns
    exact notData (Or.inr ⟨some object, virtualAddr, owns⟩))
  refine ⟨inv.with_machine owned kept.toDirectoriesKept ?_, sameOwners, kept⟩
  intro other virtualAddr
  rw [sameOwners]

/-- A run of stores over pages of the current process.

Proof: by induction on the pages that remain. Each piece is a store to one frame, after
which the process has the same pages. -/
theorem store_run_run (fuel : Nat) :
    ∀ (system : MemorySystem) (count virtualAddr : Nat) (source : Nat → UInt8),
      Accounted image held system → system.currentSpace = some object →
      RangeOwned system object virtualAddr count → count ≤ fuel →
      ∃ memory, storeRun fuel count virtualAddr source system =
          .done ⟨⟩ (system.withMachine { system.machine with memory := memory }) ∧
        Stored (userPages system object) virtualAddr count source system.machine.memory memory := by
  induction fuel with
  | zero =>
    intro system count virtualAddr source _ _ _ enough
    obtain rfl : count = 0 := by omega
    exact ⟨system.machine.memory, rfl, Stored.nothing _ _ _ _⟩
  | succ fuel ih =>
    intro system count virtualAddr source inv isCurrent owned enough
    by_cases empty : count = 0
    · subst empty
      exact ⟨system.machine.memory, rfl, Stored.nothing _ _ _ _⟩
    · have isOwned := owned virtualAddr (Nat.le_refl _) (by omega)
      obtain ⟨frame, owns⟩ := Option.isSome_iff_exists.mp isOwned
      have fits : virtualAddr % 4096 + pieceSize count virtualAddr ≤ 4096 := by
        simp only [pieceSize]
        omega
      have pieceBounds : 0 < pieceSize count virtualAddr ∧ pieceSize count virtualAddr ≤ count := by
        simp only [pieceSize]
        omega
      have first := Stored.piece (inv.placed object) source system.machine.memory owns fits
      obtain ⟨inv', sameOwners, -⟩ := inv.store_user first
      have samePages : ∀ page, userPages (system.withMachine { system.machine with
          memory := system.machine.memory.copyIn (frame + virtualAddr % 4096)
            (pieceSize count virtualAddr) source }) object page = userPages system object page :=
        fun page => congrFun sameOwners _
      obtain ⟨memory, ran, rest⟩ := ih _ (count - pieceSize count virtualAddr)
        (virtualAddr + pieceSize count virtualAddr)
        (fun i => source (i + pieceSize count virtualAddr)) inv' isCurrent (by
          intro x low high
          rw [samePages]
          exact owned x (by omega) (by omega)) (by omega)
      rw [funext samePages] at rest
      have whole := first.append rest
      rw [Nat.add_sub_cancel' pieceBounds.2] at whole
      refine ⟨memory, ?_, whole⟩
      rw [storeRun]
      simp only [empty, ↓reduceIte, bind_apply, machineNow_apply, andThen_done,
        inv.loaded_page isCurrent owns, setMachine_apply]
      exact ran

/-- The byte behind a virtual address of a process. -/
def userByte (system : MemorySystem) (object virtualAddr : Nat) : Option UInt8 :=
  (userPages system object (virtualAddr / 4096 * 4096)).map fun frame =>
    system.machine.memory.byte (frame + virtualAddr % 4096)

/-- A run of loads over pages of the current process. -/
theorem load_run_run (inv : Accounted image held system)
    (isCurrent : system.currentSpace = some object) (fuel : Nat) :
    ∀ count virtualAddr, RangeOwned system object virtualAddr count → count ≤ fuel →
      ∃ bytes, loadRun fuel count virtualAddr system = .done bytes system ∧
        bytes.map some = (List.range count).map fun i => userByte system object (virtualAddr + i) := by
  induction fuel with
  | zero =>
    intro count virtualAddr _ enough
    obtain rfl : count = 0 := by omega
    exact ⟨[], rfl, rfl⟩
  | succ fuel ih =>
    intro count virtualAddr owned enough
    by_cases empty : count = 0
    · subst empty
      exact ⟨[], rfl, rfl⟩
    · have isOwned := owned virtualAddr (Nat.le_refl _) (by omega)
      obtain ⟨frame, owns⟩ := Option.isSome_iff_exists.mp isOwned
      obtain ⟨piece, isPiece⟩ : ∃ piece, piece = pieceSize count virtualAddr := ⟨_, rfl⟩
      have bounds : 0 < piece ∧ piece ≤ count ∧ virtualAddr % 4096 + piece ≤ 4096 := by
        rw [isPiece]
        simp only [pieceSize]
        omega
      obtain ⟨rest, ran, restBytes⟩ := ih (count - piece) (virtualAddr + piece)
        (owned.later bounds.2.1) (by omega)
      refine ⟨(List.range piece).map (fun i => system.machine.memory.byte
        (frame + virtualAddr % 4096 + i)) ++ rest, ?_, ?_⟩
      · rw [loadRun]
        simp only [empty, ↓reduceIte, bind_apply, machineNow_apply, andThen_done,
          inv.loaded_page isCurrent owns, ← isPiece, ran, pure_apply]
      · have split : count = piece + (count - piece) := by omega
        rw [List.map_append, restBytes]
        conv => rhs; rw [split, List.range_add, List.map_append]
        refine congrArg₂ (· ++ ·) ?_ ?_
        · rw [List.map_map]
          apply List.map_congr_left
          intro i inPiece
          have small := List.mem_range.mp inPiece
          have samePage : (virtualAddr + i) / 4096 * 4096 = virtualAddr / 4096 * 4096 := by omega
          have offset : frame + virtualAddr % 4096 + i = frame + (virtualAddr + i) % 4096 := by omega
          simp only [Function.comp_apply, userByte, samePage, owns, Option.map_some, offset]
        · rw [List.map_map]
          apply List.map_congr_left
          intro i _
          exact congrArg (userByte system object) (Nat.add_assoc virtualAddr piece i)

end Toyix.Paging
