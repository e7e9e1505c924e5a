import Toyix.Paging.UserAccess

/-!
# User memory checks in every run

Runs of the memory subsystem in which kernel mappings carry no user bit, user pages are
made by `map_user_page` only, and the bytes of processes change at any time. In all of
them the check of a user range decides what the processor would, and copies stay on the
pages of the current process.
-/

namespace Toyix.Paging

open Library Pmm

variable {image : Image} {held : Set Nat} {system next : MemorySystem}

/-! ## One step -/

/-- A new space has no tables of its own. -/
theorem CreateEffect.user_tables {object directory : Nat} {pmm : PmmState} {base : Machine}
    (effect : CreateEffect image held object system next directory pmm base)
    (inv : Accounted image held system)
    (tables : UserTables system.spaces system.machine) : UserTables next.spaces next.machine := by
  obtain ⟨owned, -⟩ := effect.owned inv
  have kept : SharedKept system.spaces ∅ system.machine base := effect.shared_kept inv
  have isNew := effect.directory_of_new
  intro other otherDirectory isOther index inRange present
  have notShared : ¬ (otherDirectory = directory ∧ SharedIndex index) := by
    rintro ⟨-, isShared⟩
    obtain ⟨low, high⟩ := inRange
    simp only [SharedIndex] at isShared
    omega
  have isDirectory : directoryOf next.spaces base.kernelDirectory (some other) = some otherDirectory :=
    isOther
  rw [effect.machine, owned.synced_word isNew (owned.directory_aligned isDirectory) inRange.lt,
    if_neg notShared] at present ⊢
  by_cases same : other = object
  · subst same
    obtain rfl : otherDirectory = directory := Option.some.inj (isDirectory.symm.trans isNew)
    rw [effect.clear inRange.lt] at present
    exact absurd present (by decide)
  · rw [effect.spaces, Function.update_of_ne same] at isOther
    have unchanged := kept.words other otherDirectory isOther index inRange.lt fun touched => touched.elim
    rw [unchanged] at present ⊢
    exact tables other otherDirectory isOther index inRange present

/-- Loading a directory keeps the user bits. -/
theorem Guarded.switched (guarded : Guarded image held system) {space : SpaceRef}
    {record : AddressSpace} (isSpace : system.lookup space = some record) :
    KernelBits (system.switched space record).machine ∧
      UserTables (system.switched space record).spaces (system.switched space record).machine := by
  cases space with
  | none => exact ⟨guarded.kernelBits, guarded.userTables⟩
  | some object =>
    have isDirectory := directory_of_space system.machine.kernelDirectory
      (show system.spaces object = some record from isSpace)
    refine ⟨guarded.owned.sync_bits isDirectory guarded.kernelBits, ?_⟩
    intro other directory isOther index inRange present
    have notShared : ¬ (directory = record.pageDirectory ∧ SharedIndex index) := by
      rintro ⟨-, isShared⟩
      obtain ⟨low, high⟩ := inRange
      simp only [SharedIndex] at isShared
      omega
    have isOther : directoryOf system.spaces system.machine.kernelDirectory (some other) =
      some directory := isOther
    have unchanged := guarded.owned.synced_word isDirectory
      (guarded.owned.directory_aligned isOther) inRange.lt
    rw [if_neg notShared] at unchanged
    have present : isPresent ((system.machine.synced record.pageDirectory).memory.word directory index) =
      true := present
    rw [unchanged] at present
    exact (congrArg isUser unchanged).trans
      (guarded.userTables other directory isOther index inRange present)

/-- A proper call with plain bits keeps the user bits. -/
theorem Moved.guarded {op : MemoryOp} (moved : Moved image op system next)
    (guarded : Guarded image system.held system) (nextInv : Accounted image next.held next)
    (plain : op.PlainBits) : Guarded image next.held next := by
  cases moved with
  | worked touched works bits =>
    have kept := bits plain
    exact ⟨nextInv, kept.kernel guarded.kernelBits, kept.tables guarded.userTables⟩
  | created object directory pmm base effect =>
    have inv := guarded.toAccounted
    refine ⟨nextInv, ?_, effect.user_tables inv guarded.userTables⟩
    have isNew := effect.directory_of_new
    have kept : SharedKept system.spaces ∅ system.machine base := effect.shared_kept inv
    rw [effect.machine]
    exact (effect.owned inv).1.sync_bits isNew (kept.bits guarded.kernelBits)
  | switched space record isSpace isNext =>
    subst isNext
    obtain ⟨kernelBits, userTables⟩ := guarded.switched isSpace
    exact ⟨nextInv, kernelBits, userTables⟩
  | destroyed object gone =>
    refine ⟨nextInv, gone.shared.bits guarded.kernelBits, ?_⟩
    intro other directory isOther index inRange present
    have different : other ≠ object := by
      rintro rfl
      rw [gone.gone] at isOther
      simp at isOther
    rw [gone.others other different] at isOther
    have unchanged := gone.shared.words other directory isOther index inRange.lt
      fun touched => absurd touched different
    rw [unchanged] at present ⊢
    exact guarded.userTables other directory isOther index inRange present

/-- Stores to pages of a process keep the user bits. -/
theorem Guarded.store_user (guarded : Guarded image held system)
    {object first count : Nat} {source : Nat → UInt8} {memory : Memory}
    (stored : Stored (userPages system object) first count source system.machine.memory memory) :
    Guarded image held (system.withMachine { system.machine with memory := memory }) := by
  obtain ⟨inv, -, kept⟩ := guarded.toAccounted.store_user stored
  exact ⟨inv, kept.bits guarded.kernelBits, kept.user_tables guarded.userTables⟩

/-! ## Runs -/

/-- A call into the memory subsystem, or a copy to user memory. A store that a process
makes itself reaches the same bytes as a copy. -/
inductive AccessOp where
  | memory (op : MemoryOp)
  | copyToUser (userDest kernelSrc size : UInt32) (source : Nat → UInt8)

def accessStep (op : AccessOp) (system : MemorySystem) : Option MemorySystem :=
  match op with
  | .memory op => memoryStep op system
  | .copyToUser userDest kernelSrc size source =>
    (copyToUser userDest.toNat kernelSrc.toNat size.toNat source system).result.map Prod.snd

/-- Calls are proper and set no user bit but by `map_user_page`; copies are free. -/
def PlainAccess (system : MemorySystem) : AccessOp → Prop
  | .memory op => Proper system op ∧ op.PlainBits
  | .copyToUser _ _ _ _ => True

/-- The systems reached from boot. -/
def AccessReachable (image : Image) (system : MemorySystem) : Prop :=
  ∃ initialPages pmm heapMemory start, 1 ≤ initialPages ∧ initialPages ≤ 4096 ∧
    bootSystem image initialPages pmm heapMemory = some start ∧
    Reaches accessStep PlainAccess start system

/-- A copy keeps the accounts and the user bits. -/
theorem copy_to_user_guarded (guarded : Guarded image system.held system)
    {userDest kernelSrc size : UInt32} {source : Nat → UInt8}
    (taken : accessStep (.copyToUser userDest kernelSrc size source) system = some next) :
    Guarded image next.held next := by
  obtain ⟨result, memory, ran, effect⟩ := copy_to_user_run guarded kernelSrc.toNat source
    userDest.toNat_lt size.toNat_lt
  obtain ⟨_, final, returned, rfl⟩ := done_of_map taken
  have same := returned.symm.trans ran
  obtain ⟨-, rfl⟩ := Outcome.done.inj same
  rcases effect with ⟨-, rfl, -⟩ | ⟨-, -, rfl⟩ | ⟨-, -, object, -, stored⟩
  · exact guarded
  · exact guarded
  · exact guarded.store_user stored

/-- The accounts and the user bits are as they should in every run. -/
theorem reachable_guarded (reached : AccessReachable image system) :
    Guarded image system.held system := by
  obtain ⟨initialPages, pmm, heapMemory, start, atLeastOne, atMost, started, run⟩ := reached
  obtain ⟨inv, bits, -, noSpaces, noFrames, -⟩ := boot_accounted atLeastOne atMost started
  have nothingHeld : start.held = ∅ := by
    simp [MemorySystem.held, noFrames]
  have initially : Guarded image start.held start := by
    refine ⟨nothingHeld ▸ inv, bits, ?_⟩
    intro object directory isDirectory
    rw [noSpaces] at isDirectory
    simp at isDirectory
  refine run.invariant (fun system => Guarded image system.held system) initially ?_
  intro state op final stateInv permitted taken
  cases op with
  | memory op =>
    have law := memory_step_law stateInv.toAccounted permitted.1 taken
    exact law.moved.guarded stateInv law.accounted permitted.2
  | copyToUser userDest kernelSrc size source => exact copy_to_user_guarded stateInv taken

/-- In every run the check of a user range returns, and lets exactly the ranges through
that do not wrap and whose pages the processor opens to user mode in the directory of the
current space. A copy of at least one byte that succeeds touches only addresses of the
user range, on pages of the current process: it reads the bytes behind them, or changes
exactly these. -/
theorem user_memory_guarded (reached : AccessReachable image system)
    (userAddr size : UInt32) :
    (∃ record, system.lookup system.currentSpace = some record ∧
      system.machine.cr3 = record.pageDirectory) ∧
    (∃ result, userRangeAccessible userAddr.toNat size.toNat system = .done result system ∧
      (result = 0 ∨ result = 1) ∧
      (result = 1 ↔ size.toNat = 0 ∨ RangeMapped system userAddr.toNat size.toNat)) ∧
    (∀ (kernelDest : UInt32) bytes final, 0 < size.toNat →
      copyFromUser kernelDest.toNat userAddr.toNat size.toNat system = .done (usercopyOk, bytes) final →
      final = system ∧ ∃ object, CopyRange system object userAddr.toNat size.toNat ∧
        bytes.map some = (List.range size.toNat).map fun i =>
          userByte system object (userAddr.toNat + i)) ∧
    (∀ (kernelSrc : UInt32) source final, 0 < size.toNat →
      copyToUser userAddr.toNat kernelSrc.toNat size.toNat source system = .done usercopyOk final →
      ∃ object memory, CopyRange system object userAddr.toNat size.toNat ∧
        final = system.withMachine { system.machine with memory := memory } ∧
        Stored (userPages system object) userAddr.toNat size.toNat source system.machine.memory memory) := by
  have guarded := reachable_guarded reached
  refine ⟨?_, user_range_accessible_run guarded userAddr.toNat_lt size.toNat_lt, ?_, ?_⟩
  · obtain ⟨record, isRecord, loaded, -⟩ := guarded.loaded_directory
    exact ⟨record, isRecord, loaded⟩
  · intro kernelDest bytes final positive returned
    obtain ⟨result, read, ran, effect⟩ := copy_from_user_run guarded kernelDest.toNat
      userAddr.toNat_lt size.toNat_lt
    obtain ⟨same, rfl⟩ := Outcome.done.inj (ran.symm.trans returned)
    obtain ⟨rfl, rfl⟩ := Prod.mk.inj same
    rcases effect with ⟨fault, -⟩ | ⟨-, empty, -⟩ | ⟨-, -, object, range, isBytes⟩
    · exact absurd fault (by decide)
    · omega
    · exact ⟨rfl, object, range, isBytes⟩
  · intro kernelSrc source final positive returned
    obtain ⟨result, memory, ran, effect⟩ := copy_to_user_run guarded kernelSrc.toNat source
      userAddr.toNat_lt size.toNat_lt
    obtain ⟨rfl, rfl⟩ := Outcome.done.inj (ran.symm.trans returned)
    rcases effect with ⟨fault, -⟩ | ⟨-, empty, -⟩ | ⟨-, -, object, range, stored⟩
    · exact absurd fault (by decide)
    · omega
    · exact ⟨object, memory, range, rfl, stored⟩

/-! ## A process with one page -/

instance (op : MemoryOp) : Decidable op.PlainBits :=
  match op with
  | .kernelMap _ _ _ => inferInstanceAs (Decidable (_ = _))
  | .mapPage _ _ _ _ => inferInstanceAs (Decidable False)
  | .kmalloc _ | .kfree _ | .allocPage | .freePage _ | .kernelUnmap _ | .create | .switch _
  | .unmapPage _ _ | .mapUserPage _ _ | .mapUserRegion _ _ _ | .destroy _ =>
    inferInstanceAs (Decidable True)

instance (system : MemorySystem) (op : AccessOp) : Decidable (PlainAccess system op) :=
  match op with
  | .memory _ => inferInstanceAs (Decidable (_ ∧ _))
  | .copyToUser _ _ _ _ => inferInstanceAs (Decidable True)

/-- A run with copies on the small machine. -/
def smallAccessRun (ops : List AccessOp) : Option MemorySystem :=
  (bootSystem smallImage 1 ⟨⟨fun _ => 0⟩, 0, 0, 0, 0, 0⟩ ⟨fun _ => 0⟩).bind
    (runAll accessStep PlainAccess ops)

theorem small_access_run_reachable {ops : List AccessOp} (completed : smallAccessRun ops = some system) :
    AccessReachable smallImage system := by
  obtain ⟨start, started, ran⟩ := Option.bind_eq_some_iff.mp completed
  exact ⟨1, _, _, start, by decide, by decide, started, Reaches.of_run ran⟩

theorem small_access_run_facts {β : Type} {facts : MemorySystem → β} {values : β} {ops : List AccessOp}
    (completed : (smallAccessRun ops).map facts = some values) :
    ∃ system, AccessReachable smallImage system ∧ facts system = values := by
  obtain ⟨system, ran, seen⟩ := Option.map_eq_some_iff.mp completed
  exact ⟨system, small_access_run_reachable ran, seen⟩

set_option maxRecDepth 100000 in
/-- A process maps one page and 16 bytes are copied there; they are read back from the
bytes behind the range. -/
theorem copied_bytes_guarded : ∃ system object bytes, CopyRange system object 0x01000FF0 16 ∧
    bytes.map some = (List.range 16).map (fun i => userByte system object (0x01000FF0 + i)) ∧
    bytes = List.replicate 16 7 := by
  have completed : (smallAccessRun [.memory .create, .memory (.mapUserPage 0xD1000018 0x01000000),
      .memory (.switch (some 0xD1000018)), .copyToUser 0x01000FF0 1 16 fun _ => 7]).map
        (fun system => (copyFromUser 1 0x01000FF0 16 system).result.map Prod.fst) =
          some (some (usercopyOk, List.replicate 16 7)) := by decide +kernel
  obtain ⟨system, reached, copied⟩ := small_access_run_facts completed
  obtain ⟨final, returned⟩ := done_of_value copied
  have reads := (user_memory_guarded reached 0x01000FF0 16).2.2.1
  obtain ⟨-, object, range, isBytes⟩ := reads 1 _ final (by decide) returned
  exact ⟨system, object, _, range, isBytes, rfl⟩

end Toyix.Paging
