import Toyix.Library.Transition
import Toyix.Paging.UserPages

/-!
# Runs of the memory system

The kernel calls the functions of the memory subsystem in any order: allocating and
freeing heap blocks, taking and returning single pages, mapping kernel pages, making,
loading and destroying address spaces, and mapping and unmapping pages of processes.
A call that stops the machine ends the run.

`Proper` is what callers owe: they free blocks and pages that they were given, pass
live address spaces, map pages that they hold, and leave the identity map and the
window of the heap to the functions that manage them.

One law says what a proper call can do. The laws about whole runs use it.
-/

namespace Toyix.Paging

open Library Pmm Function

variable {image : Image} {system next : MemorySystem} {object : Nat}

/-! ## Calls -/

/-- The calls into the memory subsystem. -/
inductive MemoryOp where
  | kmalloc (size : UInt32)
  | kfree (ptr : UInt32)
  | allocPage
  | freePage (physicalAddr : UInt32)
  | kernelMap (virtualAddr physicalAddr flags : UInt32)
  | kernelUnmap (virtualAddr : UInt32)
  | create
  | switch (space : SpaceRef)
  | mapPage (object : Nat) (virtualAddr physicalAddr flags : UInt32)
  | unmapPage (object : Nat) (virtualAddr : UInt32)
  | mapUserPage (object : Nat) (virtualAddr : UInt32)
  | mapUserRegion (object : Nat) (virtualAddr sizeBytes : UInt32)
  | destroy (object : Nat)

variable {op : MemoryOp}

/-- The system with other pages in the hands of callers. -/
def MemorySystem.withFrames (system : MemorySystem) (frames : List Nat) : MemorySystem :=
  { system with frames := frames }

/-- The pages in the hands of callers. -/
def MemorySystem.held (system : MemorySystem) : Set Nat := {page | page ∈ system.frames}

/-- A change of the pages in the hands of callers. -/
def setFrames (change : List Nat → List Nat) : MemoryProgram PUnit :=
  Program.update fun system => system.withFrames (change system.frames)

/-- The call, with the pages its caller then has. -/
def MemoryOp.run : MemoryOp → MemoryProgram PUnit
  | .kmalloc size => do
    let _ ← kmallocFor .client size.toNat
    pure ⟨⟩
  | .kfree ptr => kfreeBlock ptr.toNat
  | .allocPage => do
    let page ← callMachine kernelPages.pmmAllocPage
    setFrames fun frames => if page = pmmInvalidPage then frames else page :: frames
  | .freePage physicalAddr => do
    Paging.freePage physicalAddr.toNat
    setFrames fun frames => frames.filter fun page => decide (page ≠ physicalAddr.toNat)
  | .kernelMap virtualAddr physicalAddr flags => do
    let _ ← callMachine (vmmMapPage virtualAddr.toNat physicalAddr.toNat flags.toNat)
    pure ⟨⟩
  | .kernelUnmap virtualAddr => do
    let _ ← callMachine (vmmUnmapPage virtualAddr.toNat)
    pure ⟨⟩
  | .create => do
    let _ ← addressSpaceCreate
    pure ⟨⟩
  | .switch space => addressSpaceSwitch space
  | .mapPage object virtualAddr physicalAddr flags => do
    let result ← addressSpaceMapPage (some object) virtualAddr.toNat physicalAddr.toNat flags.toNat
    setFrames fun frames =>
      if result = 0 then frames.filter fun page => decide (page ≠ physicalAddr.toNat) else frames
  | .unmapPage object virtualAddr => do
    let _ ← addressSpaceUnmapPage (some object) virtualAddr.toNat
    pure ⟨⟩
  | .mapUserPage object virtualAddr => do
    let _ ← Paging.mapUserPage (some object) virtualAddr.toNat
    pure ⟨⟩
  | .mapUserRegion object virtualAddr sizeBytes => do
    let _ ← processMapUserRegion (some object) virtualAddr.toNat sizeBytes.toNat
    pure ⟨⟩
  | .destroy object => addressSpaceDestroy (some object)

/-- One call; none when it stops the machine. -/
def memoryStep (op : MemoryOp) (system : MemorySystem) : Option MemorySystem :=
  (op.run system).result.map Prod.snd

/-- What the caller of an operation owes. -/
def Proper (system : MemorySystem) : MemoryOp → Prop
  | .kmalloc _ | .allocPage | .create => True
  | .kfree ptr => system.blockUse ptr.toNat = some .client
  | .freePage physicalAddr => physicalAddr.toNat ∈ system.frames
  | .kernelMap virtualAddr _ _ | .kernelUnmap virtualAddr => KernelAddress virtualAddr.toNat
  | .switch space => (system.lookup space).isSome
  | .mapPage object _ physicalAddr _ => (system.spaces object).isSome ∧
      (physicalAddr.toNat % 4096 = 0 → physicalAddr.toNat ∈ system.frames)
  | .unmapPage object _ | .mapUserPage object _ | .mapUserRegion object _ _ | .destroy object =>
    (system.spaces object).isSome

instance (virtualAddr : Nat) : Decidable (KernelAddress virtualAddr) :=
  decidable_of_iff (0x01000000 ≤ virtualAddr ∧ virtualAddr < 2 ^ 32 ∧
    (virtualAddr < 0xD1000000 ∨ 0xD2000000 ≤ virtualAddr))
    ⟨fun ⟨low, bounded, outside⟩ => ⟨low, bounded, outside⟩,
      fun isKernel => ⟨isKernel.low, isKernel.bounded, isKernel.outside⟩⟩

instance (system : MemorySystem) (op : MemoryOp) : Decidable (Proper system op) :=
  match op with
  | .kmalloc _ | .allocPage | .create => inferInstanceAs (Decidable True)
  | .kfree _ => inferInstanceAs (Decidable (_ = _))
  | .freePage _ => inferInstanceAs (Decidable (_ ∈ _))
  | .kernelMap _ _ _ | .kernelUnmap _ => inferInstanceAs (Decidable (KernelAddress _))
  | .mapPage _ _ _ _ => inferInstanceAs (Decidable (_ ∧ (_ → _)))
  | .switch _ | .unmapPage _ _ | .mapUserPage _ _ | .mapUserRegion _ _ _ | .destroy _ =>
    inferInstanceAs (Decidable (_ = true))

/-! ## What a call can do -/

/-- Kernel pages are mapped without the user bit, and pages of processes by
`map_user_page` only. -/
def MemoryOp.PlainBits : MemoryOp → Prop
  | .kernelMap _ _ flags => isUser flags.toNat = false
  | .mapPage _ _ _ _ => False
  | _ => True

/-- The call is a kernel mapping that opens a table in the shared range. -/
def MemoryOp.OpensShared (machine : Machine) : MemoryOp → Prop
  | .kernelMap virtualAddr physicalAddr _ => SharedIndex (directoryIndex virtualAddr.toNat) ∧
      OpensTable virtualAddr.toNat physicalAddr.toNat machine
  | _ => False

/-- The shared entries of the kernel directory are the old ones, unless the kernel's directory is
loaded. -/
def Steady (system next : MemorySystem) : Prop :=
  Shown system.spaces system.machine → system.machine.cr3 ≠ system.machine.kernelDirectory →
    ∀ index, SharedIndex index → next.machine.memory.word system.machine.kernelDirectory index =
      system.machine.memory.word system.machine.kernelDirectory index

/-- A call that neither makes nor destroys nor loads an address space. The user range
of the spaces in `touched` may gain tables. -/
structure Works (touched : Set Nat) (system next : MemorySystem) : Prop where
  kept : DirectoriesKept system.spaces touched system.machine next.machine
  directories : ∀ other, (next.spaces other).map AddressSpace.pageDirectory =
    (system.spaces other).map AddressSpace.pageDirectory
  kernelSpace : next.kernelSpace = system.kernelSpace
  currentSpace : next.currentSpace = system.currentSpace

/-- The user bits that a call with plain bits keeps. -/
structure BitsKept (system next : MemorySystem) : Prop where
  kernel : KernelBits system.machine → KernelBits next.machine
  tables : UserTables system.spaces system.machine → UserTables next.spaces next.machine

/-- What a proper call does. -/
inductive Moved (image : Image) (op : MemoryOp) (system next : MemorySystem) : Prop where
  | worked (touched : Set Nat) (works : Works touched system next)
      (bits : op.PlainBits → BitsKept system next)
      (steady : ¬ op.OpensShared system.machine → Steady system next)
  | created (object directory : Nat) (pmm : PmmState) (base : Machine)
      (effect : CreateEffect image system.held object system next directory pmm base)
  | switched (space : SpaceRef) (record : AddressSpace) (isSpace : system.lookup space = some record)
      (isNext : next = system.switched space record)
  | destroyed (object : Nat) (gone : Destroyed object system next)

/-- The calls that may give pages to a space or take them from it while it lives. -/
def MemoryOp.Concerns (object : Nat) : MemoryOp → Prop
  | .allocPage | .freePage _ => True
  | .mapPage target _ _ _ | .unmapPage target _ | .mapUserPage target _ | .mapUserRegion target _ _ =>
    target = object
  | _ => False

/-- The call takes a page of a caller. -/
def MemoryOp.Uses (page : Nat) : MemoryOp → Prop
  | .freePage physicalAddr | .mapPage _ _ physicalAddr _ => page = physicalAddr.toNat
  | _ => False

/-- What a proper call leaves: the accounts hold, it did one of the things in `Moved`, the count of
free frames is right, a space that it concerns is still there and lost no page, and callers have all
their pages but the one that it used. -/
structure OpLaw (image : Image) (op : MemoryOp) (system next : MemorySystem) : Prop where
  accounted : Accounted image next.held next
  moved : Moved image op system next
  remarked : Remarked system.machine.pmm next.machine.pmm
  concerned : ∀ object, op.Concerns object →
    BalancedFor object Owner.OfKernel system.held system next.held next ∧
      ((system.spaces object).isSome → (next.spaces object).isSome)
  frames : ∀ page ∈ system.frames, page ∈ next.frames ∨ op.Uses page

/-- Every return of the call keeps the law. -/
def Lawful (image : Image) (op : MemoryOp) (system : MemorySystem) : Prop :=
  (op.run system).Sat fun _ next => OpLaw image op system next

/-- No shared entry changes. -/
theorem SharedKept.steadily {touched : Set Nat}
    (kept : SharedKept system.spaces touched system.machine next.machine) : Steady system next :=
  fun shown isProcess index isShared => kept.steady shown isProcess index isShared.lt

/-- A call that leaves all directories alone. -/
theorem Moved.of_shared_kept (kept : SharedKept system.spaces ∅ system.machine next.machine)
    (directories : ∀ other, (next.spaces other).map AddressSpace.pageDirectory =
      (system.spaces other).map AddressSpace.pageDirectory)
    (kernelSpace : next.kernelSpace = system.kernelSpace)
    (currentSpace : next.currentSpace = system.currentSpace) : Moved image op system next := by
  refine .worked ∅ ⟨kept.toDirectoriesKept, directories, kernelSpace, currentSpace⟩
    (fun _ => ⟨kept.bits, ?_⟩) fun _ => kept.steadily
  intro tables object directory isDirectory
  exact kept.user_tables tables object directory ((directories object).symm.trans isDirectory)

/-- The pages of callers are not part of the accounts. -/
theorem Accounted.with_frames {held : Set Nat} (inv : Accounted image held system) (frames : List Nat) :
    Accounted image held (system.withFrames frames) := by
  refine ⟨⟨inv.heap.client, inv.heap.live⟩, inv.owned, ?_, inv.shared, inv.kernelSpace, ?_⟩
  · intro object record isSpace
    exact (inv.records object record isSpace).congr (fun _ _ isUsed _ => isUsed) fun _ => rfl
  · have sameLookup : ∀ space, (system.withFrames frames).lookup space = system.lookup space := by
      intro space
      cases space <;> rfl
    rw [sameLookup]
    exact inv.current

/-- Held pages are those listed. -/
theorem held_congr (same : next.frames = system.frames) : next.held = system.held :=
  congrArg (fun frames : List Nat => {page | page ∈ frames}) same

/-- A page is taken, -/
theorem held_take (system : MemorySystem) (page : Nat) :
    (system.withFrames (page :: system.frames)).held = insert page system.held := by
  ext other
  exact List.mem_cons

/-- and a page is given up. -/
theorem held_drop (system : MemorySystem) (page : Nat) :
    (system.withFrames (system.frames.filter fun other => decide (other ≠ page))).held =
      system.held \ {page} := by
  ext other
  simp [MemorySystem.held, MemorySystem.withFrames]

/-- All others stay. -/
theorem mem_drop {frames : List Nat} {page : Nat} (isHeld : page ∈ frames) (used : Nat) :
    page ∈ frames.filter (fun other => decide (other ≠ used)) ∨ page = used := by
  by_cases same : page = used
  · exact Or.inr same
  · exact Or.inl (List.mem_filter.mpr ⟨isHeld, decide_eq_true same⟩)

/-- A call that does nothing. -/
theorem OpLaw.unchanged (inv : Accounted image system.held system) : OpLaw image op system system :=
  ⟨inv, .of_shared_kept (SharedKept.refl _ _ _) (fun _ => rfl) rfl rfl, Remarked.refl _,
    fun _ _ => ⟨Balanced.refl _ _ _ _ _, id⟩, fun _ => Or.inl⟩

/-- A call that leaves callers their pages. -/
theorem OpLaw.of_same_frames (sameFrames : next.frames = system.frames)
    (accounted : Accounted image system.held next) (moved : Moved image op system next)
    (remarked : Remarked system.machine.pmm next.machine.pmm)
    (concerned : ∀ object, op.Concerns object →
      BalancedFor object Owner.OfKernel system.held system system.held next ∧
        ((system.spaces object).isSome → (next.spaces object).isSome)) :
    OpLaw image op system next := by
  have sameHeld := held_congr sameFrames
  refine ⟨?_, moved, remarked, ?_, fun page isHeld => Or.inl (sameFrames ▸ isHeld)⟩
  · rw [sameHeld]
    exact accounted
  · rw [sameHeld]
    exact concerned

/-! ### Heap blocks -/

/-- An empty request returns null. -/
theorem kmalloc_for_zero (account : HeapAccount system) (use : BlockUse) :
    kmallocFor use 0 system = .done 0 system := by
  obtain ⟨blocks, inv⟩ := account.client
  have nothing : Heap.kmalloc kernelPages 0 system.client.system = .done 0 system.client.system := by
    simp only [Heap.kmalloc, bind_apply, Heap.heapNow, andThen_done,
      inv.consistent.initialized, Bool.true_eq_false, ↓reduceIte, pure_apply]
  simp only [kmallocFor, bind_apply, callHeap, nothing, andThen_done,
    pure_apply, Program.update_apply, Heap.recordLive, ↓reduceIte]

/-- Allocating a block keeps the accounts. -/
theorem BlockTaken.accounted {held : Set Nat} {use : BlockUse} {size ptr : Nat}
    (taken : BlockTaken image held use size ptr system next) (inv : Accounted image held system) :
    Accounted image held next := by
  have kept : SharedKept system.spaces ∅ system.machine next.machine :=
    taken.beneath.shared_kept inv.owned
  have beneath := taken.beneath
  have account := taken.account
  obtain ⟨client, rfl⟩ := taken.changed
  refine ⟨account, beneath.owned, ?_, kept.sound inv.shared, ?_, ?_⟩
  · intro object record isSpace
    refine (inv.records object record isSpace).congr ?_ ?_
    · intro other use' isUsed _
      refine (update_of_ne ?_ _ _).trans isUsed
      rintro rfl
      rw [taken.fresh] at isUsed
      simp at isUsed
    · intro virtualAddr
      have ofProcess : (Owner.page (some object) virtualAddr).OfProcess := Option.some_ne_none object
      exact beneath.side.owners inv.owned ofProcess
  · rw [kept.directory]
    exact inv.kernelSpace
  · rw [kept.cr3, ← inv.current]
    rfl

section Client

variable (inv : Accounted image system.held system)

include inv

/-- `kmalloc`. -/
theorem kmalloc_law (size : UInt32) : Lawful image (.kmalloc size) system := by
  by_cases empty : size.toNat = 0
  · simp only [Lawful, MemoryOp.run, empty, bind_apply, kmalloc_for_zero inv.heap, andThen_done,
      pure_apply]
    exact .unchanged inv
  · refine (kmalloc_for_sat inv.heap inv.owned .client (Nat.pos_of_ne_zero empty)).andThen ?_
    intro ptr next taken
    have accounted := taken.accounted inv
    have kept : SharedKept system.spaces ∅ system.machine next.machine :=
      taken.beneath.shared_kept inv.owned
    have shown := inv.shown (SharedKept.refl system.spaces ∅ system.machine).toDirectoriesKept
    have remarked := (taken.beneath.supply shown).balanced.remarked
    obtain ⟨client, rfl⟩ := taken.changed
    exact .of_same_frames rfl accounted (.of_shared_kept kept (fun _ => rfl) rfl rfl) remarked
      fun _ none => none.elim

/-- `kfree` of a block of a client. -/
theorem kfree_law (ptr : UInt32) (isClient : system.blockUse ptr.toNat = some .client) :
    Lawful image (.kfree ptr) system := by
  obtain ⟨client, freed, samePages, account⟩ := kfree_block_run inv.heap isClient
  have kept : SharedKept system.spaces ∅ system.machine client.system.pages := by
    rw [samePages]
    exact SharedKept.refl _ _ _
  have owned := inv.owned
  have shared := inv.shared
  rw [← samePages] at owned shared
  rw [Lawful, MemoryOp.run, freed]
  refine .of_same_frames rfl ⟨account, owned, ?_, shared, ?_, ?_⟩
    (.of_shared_kept kept (fun _ => rfl) rfl rfl) (samePages ▸ Remarked.refl _)
    fun _ none => none.elim
  · intro object record isSpace
    refine (inv.records object record isSpace).congr ?_ ?_
    · intro other use isUsed ofRecord
      refine (update_of_ne ?_ _ _).trans isUsed
      rintro rfl
      rw [isClient] at isUsed
      obtain rfl := Option.some.inj isUsed
      simp at ofRecord
    · intro virtualAddr
      rw [← samePages]
      rfl
  · have same := inv.kernelSpace
    rw [← samePages] at same
    exact same
  · have loaded := inv.current
    rw [← samePages] at loaded
    exact loaded

/-! ### Pages of callers -/

/-- `pmm_alloc_page`: the caller has the page. -/
theorem alloc_page_law : Lawful image .allocPage system := by
  simp only [Lawful, MemoryOp.run, bind_apply, callMachine_apply, andThen_done, setFrames,
    Program.update_apply, with_machine_frames]
  rcases pmm_alloc_page_cases system.machine.pmm with ⟨failed, -⟩ | ⟨page, pmm, allocated, taken⟩
  · simp only [kernelPages, failed, pmmInvalidPage, ↓reduceIte]
    exact .unchanged inv
  · have notNull : page ≠ pmmInvalidPage := Nat.ne_of_gt (inv.owned.fresh_permitted taken).pos
    have accounted := (inv.take taken).with_frames (page :: system.frames)
    have balanced (object : Nat) : Balanced (Owner.BelongsTo object) Owner.OfKernel system.spaces
        system.held system.machine system.spaces (insert page system.held)
        { system.machine with pmm := pmm } := (Balanced.refl _ _ _ _ _).take taken
    simp only [← held_take] at accounted balanced
    simp only [kernelPages, allocated, notNull, ↓reduceIte]
    exact ⟨accounted, .of_shared_kept ((SharedKept.refl _ _ _).with_pmm pmm) (fun _ => rfl) rfl rfl,
      taken.remarked, fun object _ => ⟨balanced object, id⟩,
      fun _ isHeld => Or.inl (List.mem_cons_of_mem _ isHeld)⟩

/-- `pmm_free_page` of a page the caller has. -/
theorem free_page_law (physicalAddr : UInt32) (isHeld : physicalAddr.toNat ∈ system.frames) :
    Lawful image (.freePage physicalAddr) system := by
  obtain ⟨pmm, returned, freed, accounted⟩ := inv.give_back isHeld
  have accounted := accounted.with_frames
    (system.frames.filter fun page => decide (page ≠ physicalAddr.toNat))
  have balanced (object : Nat) : Balanced (Owner.BelongsTo object) Owner.OfKernel system.spaces
      system.held system.machine system.spaces (system.held \ {physicalAddr.toNat})
      { system.machine with pmm := pmm } :=
    (Balanced.refl _ _ _ _ _).give_back isHeld (inv.owned.sound.loose isHeld).2.1 returned
  simp only [← held_drop] at accounted balanced
  simp only [Lawful, MemoryOp.run, bind_apply, freed, andThen_done, setFrames,
    Program.update_apply, with_machine_frames]
  exact ⟨accounted, .of_shared_kept ((SharedKept.refl _ _ _).with_pmm pmm) (fun _ => rfl) rfl rfl,
    pmm_free_page_remarked returned, fun object _ => ⟨balanced object, id⟩,
    fun _ stillHeld => mem_drop stillHeld _⟩

end Client

/-! ### Kernel mappings -/

/-- A kernel mapping or unmapping keeps the accounts. -/
theorem KernelMapped.accounted {held : Set Nat} {machine : Machine}
    (mapped : KernelMapped image system.spaces held system.machine machine)
    (inv : Accounted image held system) : Accounted image held (system.withMachine machine) := by
  have kept : DirectoriesKept system.spaces ∅ system.machine machine :=
    mapped.side.directories_kept inv.owned
  refine inv.with_machine mapped.owned kept ?_
  intro object virtualAddr
  have ofProcess : (Owner.page (some object) virtualAddr).OfProcess := Option.some_ne_none object
  exact mapped.side.owners inv.owned ofProcess

/-- It moves no directory. -/
theorem KernelMapped.moved {held : Set Nat} {machine : Machine}
    (mapped : KernelMapped image system.spaces held system.machine machine)
    (inv : Accounted image held system)
    (bits : op.PlainBits → KernelBits system.machine → KernelBits machine)
    (steady : ¬ op.OpensShared system.machine → Steady system (system.withMachine machine)) :
    Moved image op system (system.withMachine machine) := by
  have kept : DirectoriesKept system.spaces ∅ system.machine machine :=
    mapped.side.directories_kept inv.owned
  exact .worked ∅ ⟨kept, fun _ => rfl, rfl, rfl⟩ (fun plain => ⟨bits plain, kept.user_tables⟩) steady

section Client

variable (inv : Accounted image system.held system)

include inv

/-- `vmm_map_page`. A shared entry changes only when its table is opened. -/
theorem kernel_map_law (virtualAddr physicalAddr flags : UInt32)
    (isKernel : KernelAddress virtualAddr.toNat) :
    Lawful image (.kernelMap virtualAddr physicalAddr flags) system := by
  obtain ⟨mapped, bits⟩ := vmm_map_page_kept inv.owned flags.toNat isKernel physicalAddr.toNat_lt
  simp only [Lawful, MemoryOp.run, bind_apply, callMachine_apply, andThen_done, pure_apply]
  refine ⟨mapped.accounted inv, mapped.moved inv bits fun unopened _ _ index isShared => ?_,
    mapped.remarked, fun _ none => none.elim, fun _ => Or.inl⟩
  refine vmm_map_page_words inv.owned flags.toNat isKernel.table_range isShared.lt ?_
  rintro rfl opens
  exact unopened ⟨isShared, opens⟩

/-- `vmm_unmap_page`. -/
theorem kernel_unmap_law (virtualAddr : UInt32)
    (isKernel : KernelAddress virtualAddr.toNat) :
    Lawful image (.kernelUnmap virtualAddr) system := by
  obtain ⟨mapped, bits⟩ := vmm_unmap_page_kept inv.owned isKernel
  simp only [Lawful, MemoryOp.run, bind_apply, callMachine_apply, andThen_done, pure_apply]
  exact ⟨mapped.accounted inv, mapped.moved inv (fun _ => bits) fun _ _ _ _ isShared =>
    vmm_unmap_page_words inv.owned isKernel isShared.lt, mapped.remarked, fun _ none => none.elim,
    fun _ => Or.inl⟩

/-! ### Address spaces -/

/-- `address_space_create`. -/
theorem create_law : Lawful image .create system := by
  refine (address_space_create_sat inv).andThen ?_
  rintro object next ⟨directory, pmm, base, effect⟩
  exact .of_same_frames effect.frames (effect.accounted inv) (.created object directory pmm base effect)
    (effect.balanced inv).remarked fun _ none => none.elim

/-- `address_space_switch`. -/
theorem switch_law (space : SpaceRef) (isSpace : (system.lookup space).isSome) :
    Lawful image (.switch space) system := by
  obtain ⟨record, isRecord⟩ := Option.isSome_iff_exists.mp isSpace
  rw [Lawful, MemoryOp.run, address_space_switch_run inv isRecord]
  exact ⟨switched_accounted inv isRecord, .switched space record isRecord rfl,
    by cases space <;> exact Remarked.refl _, fun _ none => none.elim, fun _ => Or.inl⟩

/-- A mapping of a page that is not page aligned is refused. -/
theorem map_page_unaligned {record : AddressSpace} (isSpace : system.spaces object = some record)
    {physicalAddr : Nat} (unaligned : physicalAddr % 4096 ≠ 0) (virtualAddr flags : Nat) :
    addressSpaceMapPage (some object) virtualAddr physicalAddr flags system = .done (-1) system := by
  have refused : isPageAligned physicalAddr = false := by
    rw [Bool.eq_false_iff, Ne, is_page_aligned_iff]
    exact unaligned
  simp only [addressSpaceMapPage, bind_apply, validate_space_run inv.owned isSpace,
    andThen_done, pure_apply, refused, or_true, ↓reduceIte]

/-- `address_space_map_page`: the page is the space's, or nothing has changed. -/
theorem map_page_law (object : Nat)
    (virtualAddr physicalAddr flags : UInt32) (isSpace : (system.spaces object).isSome)
    (isHeld : physicalAddr.toNat % 4096 = 0 → physicalAddr.toNat ∈ system.frames) :
    Lawful image (.mapPage object virtualAddr physicalAddr flags) system := by
  obtain ⟨record, isRecord⟩ := Option.isSome_iff_exists.mp isSpace
  have refused : (-1 : Int) ≠ 0 := by decide
  by_cases aligned : physicalAddr.toNat % 4096 = 0
  · refine (address_space_map_page_sat inv isRecord (isHeld aligned) virtualAddr.toNat
      flags.toNat).andThen ?_
    rintro result next (⟨rfl, rfl, -⟩ | ⟨rfl, table, node, base, effect⟩)
    · simp only [setFrames, Program.update_apply, refused, ↓reduceIte]
      exact .unchanged inv
    · have kept := effect.shared_kept inv (isHeld aligned)
      have accounted := (effect.accounted inv (isHeld aligned)).with_frames
        (system.frames.filter fun page => decide (page ≠ physicalAddr.toNat))
      have added := effect.added inv (isHeld aligned)
      have balanced := added.balanced
      rw [← held_drop] at accounted balanced
      simp only [setFrames, Program.update_apply, ↓reduceIte, effect.frames]
      refine ⟨accounted, .worked {object} ⟨kept.toDirectoriesKept, effect.directories,
        effect.kernelSpace, effect.currentSpace⟩ (fun plain => plain.elim) fun _ => kept.steadily,
        added.remarked, ?_, fun _ stillHeld => mem_drop stillHeld _⟩
      rintro _ rfl
      refine ⟨balanced, fun _ => ?_⟩
      show (next.spaces object).isSome
      rw [effect.spaces, update_self]
      rfl
  · simp only [Lawful, MemoryOp.run, bind_apply, map_page_unaligned inv isRecord aligned,
      andThen_done, setFrames, Program.update_apply, refused, ↓reduceIte]
    exact .unchanged inv

/-- `address_space_unmap_page`. -/
theorem unmap_page_law (object : Nat) (virtualAddr : UInt32)
    (isSpace : (system.spaces object).isSome) :
    Lawful image (.unmapPage object virtualAddr) system := by
  obtain ⟨record, isRecord⟩ := Option.isSome_iff_exists.mp isSpace
  rcases address_space_unmap_page_run inv isRecord virtualAddr.toNat with
    ⟨-, ran⟩ | ⟨next, table, physical, mapping, others, ran, effect⟩
  · simp only [Lawful, MemoryOp.run, bind_apply, ran, andThen_done, pure_apply]
    exact .unchanged inv
  · have balanced := effect.balanced inv
    simp only [Lawful, MemoryOp.run, bind_apply, ran, andThen_done, pure_apply]
    refine .of_same_frames effect.frames (effect.accounted inv) (.of_shared_kept
      (effect.shared_kept inv) ?_ effect.kernelSpace effect.currentSpace) balanced.remarked ?_
    · intro other
      rw [effect.spaces]
      apply map_update_record AddressSpace.pageDirectory effect.isSpace
      rfl
    · rintro _ rfl
      refine ⟨balanced.weaken (fun _ => id) fun _ => False.elim, fun _ => ?_⟩
      rw [effect.spaces, update_self]
      rfl

end Client

/-- Mapping user pages is work on one space. -/
theorem UserWork.moved (work : UserWork object system next) : Moved image op system next := by
  refine .worked {object} ⟨work.shared.toDirectoriesKept, ?_, work.kernelSpace, work.currentSpace⟩
    (fun _ => ⟨work.shared.bits, work.tables⟩) fun _ => work.shared.steadily
  intro other
  by_cases same : other = object
  · exact same ▸ work.directory
  · rw [work.others other same]

/-- The law for work on one space. -/
theorem UserWork.law (work : UserWork object system next)
    (accounted : Accounted image system.held next)
    (added : AddedFor object system.held system system.held next)
    (concerns : ∀ other, op.Concerns other → object = other) : OpLaw image op system next := by
  refine .of_same_frames work.frames accounted work.moved added.remarked fun other isOther => ?_
  obtain rfl := concerns other isOther
  exact ⟨added.balanced, work.is_some⟩

section Client

variable (inv : Accounted image system.held system)

include inv

/-- `map_user_page`. -/
theorem map_user_page_law (object : Nat) (virtualAddr : UInt32)
    (isSpace : (system.spaces object).isSome) :
    Lawful image (.mapUserPage object virtualAddr) system := by
  refine (map_user_page_work inv isSpace virtualAddr.toNat).andThen ?_
  rintro result next ⟨accounted, work, added⟩
  exact work.law accounted added fun _ => id

/-- `process_map_user_region`. -/
theorem map_user_region_law (object : Nat) (virtualAddr sizeBytes : UInt32)
    (isSpace : (system.spaces object).isSome) :
    Lawful image (.mapUserRegion object virtualAddr sizeBytes) system := by
  refine (process_map_user_region_work inv isSpace virtualAddr.toNat sizeBytes.toNat).andThen ?_
  rintro result next ⟨accounted, work, added⟩
  exact work.law accounted added fun _ => id

/-- `address_space_destroy`. -/
theorem destroy_law (object : Nat) (isSpace : (system.spaces object).isSome) :
    Lawful image (.destroy object) system := by
  obtain ⟨record, isRecord⟩ := Option.isSome_iff_exists.mp isSpace
  obtain ⟨next, ran, accounted, gone, balanced⟩ := address_space_destroy_run inv isRecord
  rw [Lawful, MemoryOp.run, ran]
  exact .of_same_frames gone.frames accounted (.destroyed object gone) balanced.remarked
    fun _ none => none.elim

/-! ## Runs -/

/-- Every call keeps its law. -/
theorem memory_step_law (proper : Proper system op) (taken : memoryStep op system = some next) :
    OpLaw image op system next := by
  have law : Lawful image op system := by
    cases op with
    | kmalloc size => exact kmalloc_law inv size
    | kfree ptr => exact kfree_law inv ptr proper
    | allocPage => exact alloc_page_law inv
    | freePage physicalAddr => exact free_page_law inv physicalAddr proper
    | kernelMap virtualAddr physicalAddr flags =>
      exact kernel_map_law inv virtualAddr physicalAddr flags proper
    | kernelUnmap virtualAddr => exact kernel_unmap_law inv virtualAddr proper
    | create => exact create_law inv
    | switch space => exact switch_law inv space proper
    | mapPage object virtualAddr physicalAddr flags =>
      exact map_page_law inv object virtualAddr physicalAddr flags proper.1 proper.2
    | unmapPage object virtualAddr => exact unmap_page_law inv object virtualAddr proper
    | mapUserPage object virtualAddr => exact map_user_page_law inv object virtualAddr proper
    | mapUserRegion object virtualAddr sizeBytes =>
      exact map_user_region_law inv object virtualAddr sizeBytes proper
    | destroy object => exact destroy_law inv object proper
  obtain ⟨_, final, returned, rfl⟩ := done_of_map taken
  exact law.of_done returned

end Client

/-- The systems reached from boot by calls that meet a condition. -/
def MemoryReachable (image : Image) (allowed : MemorySystem → MemoryOp → Prop)
    (system : MemorySystem) : Prop :=
  ∃ initialPages pmm heapMemory start, 1 ≤ initialPages ∧ initialPages ≤ 4096 ∧
    bootSystem image initialPages pmm heapMemory = some start ∧
    Reaches memoryStep allowed start system

/-- What holds after boot and survives every call that meets the condition holds in every reachable
system, and so do the accounts. -/
theorem MemoryReachable.invariant {allowed : MemorySystem → MemoryOp → Prop}
    (reached : MemoryReachable image allowed system)
    (proper : ∀ system op, allowed system op → Proper system op) (motive : MemorySystem → Prop)
    (initially : ∀ start, Accounted image start.held start → start.currentSpace = none →
      Counted start.machine.pmm → motive start)
    (step : ∀ state op next, Accounted image state.held state → motive state → allowed state op →
      OpLaw image op state next → motive next) :
    Accounted image system.held system ∧ motive system := by
  obtain ⟨initialPages, pmm, heapMemory, start, atLeastOne, atMost, started, run⟩ := reached
  obtain ⟨inv, -, isKernel, -, noFrames, counted⟩ := boot_accounted atLeastOne atMost started
  have nothingHeld : start.held = ∅ := by
    simp [MemorySystem.held, noFrames]
  have startInv : Accounted image start.held start := nothingHeld ▸ inv
  refine run.invariant (fun system => Accounted image system.held system ∧ motive system)
    ⟨startInv, initially start startInv isKernel counted⟩ ?_
  rintro state op next ⟨stateInv, holds⟩ permitted taken
  have law := memory_step_law stateInv (proper state op permitted) taken
  exact ⟨law.accounted, step state op next stateInv holds permitted law⟩

/-- The accounts hold in every reachable system. -/
theorem reachable_accounted {allowed : MemorySystem → MemoryOp → Prop}
    (proper : ∀ system op, allowed system op → Proper system op)
    (reached : MemoryReachable image allowed system) : Accounted image system.held system :=
  (reached.invariant proper (fun _ => True) (fun _ _ _ _ => trivial) fun _ _ _ _ _ _ _ => trivial).1

end Toyix.Paging
