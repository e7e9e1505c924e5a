import Toyix.Loader.Initial

/-!
# Filling the memory of a process

What the functions that fill the memory of a process do to it. A process is hosted when it has a
live address space in a sound memory system. Mapping a region extends its view; copying and zeroing
are stores to its view. Other processes and the rest of the table are left alone.
-/

namespace Toyix.Loader

open Library Paging Processes Pmm

variable {image : Image} {held : Set Nat} {process object : Nat} {state middle final : Loading}
  {next : MemorySystem} {first count : Nat} {virtualAddr sizeBytes : Nat}

/-! ## Hosted processes -/

/-- A process with an address space. -/
structure Hosted (image : Image) (held : Set Nat) (process object : Nat) (state : Loading) : Prop where
  notNull : process ≠ 0
  magic : (state.table.objects process).magic = processMagic
  space : (state.table.objects process).addressSpace = object
  live : (state.memory.spaces object).isSome
  guarded : Guarded image held state.memory

/-- The memory of other processes, and what is loaded, are left alone. -/
structure Elsewhere (object : Nat) (system next : MemorySystem) : Prop where
  views : ∀ other, other ≠ object → userByte next other = userByte system other
  spaces : ∀ other, other ≠ object → next.spaces other = system.spaces other
  current : next.currentSpace = system.currentSpace
  frames : next.frames = system.frames

theorem Elsewhere.trans {system between : MemorySystem} (first : Elsewhere object system between)
    (second : Elsewhere object between next) : Elsewhere object system next := by
  refine ⟨?_, ?_, second.current.trans first.current, second.frames.trans first.frames⟩
  · intro other different
    exact (second.views other different).trans (first.views other different)
  · intro other different
    exact (second.spaces other different).trans (first.spaces other different)

/-- In addition the table of processes is left alone. -/
structure Apart (object : Nat) (state final : Loading) : Prop
    extends Elsewhere object state.memory final.memory where
  table : final.table = state.table

theorem Apart.refl (object : Nat) (state : Loading) : Apart object state state :=
  ⟨⟨fun _ _ => rfl, fun _ _ => rfl, rfl, rfl⟩, rfl⟩

theorem Apart.trans (first : Apart object state middle) (second : Apart object middle final) :
    Apart object state final :=
  ⟨first.toElsewhere.trans second.toElsewhere, second.table.trans first.table⟩

@[simp] theorem note_apply (access : Access) (state : Loading) :
    note access state = .done ⟨⟩ { state with touched := state.touched ++ [access] } := rfl

theorem on_memory_done {α : Type} {program : MemoryProgram α} {value : α} {memory : MemorySystem}
    (returns : program state.memory = .done value memory) :
    onMemory program state = .done value { state with memory := memory } :=
  Program.within_done returns

theorem on_table_done {α : Type} {program : TableProgram α} {value : α} {table : ProcessTable}
    (returns : program state.table = .done value table) :
    onTable program state = .done value { state with table := table } :=
  Program.within_done returns

@[simp] theorem read_process_run (process : Nat) (state : Loading) :
    onTable (readProcess process) state = .done (state.table.objects process) state := rfl

theorem Hosted.validated_table (hosted : Hosted image held process object state) :
    validateProcess process state.table = .done ⟨⟩ state.table := by
  simp [validateProcess, readProcess, hosted.notNull, hosted.magic]

theorem Hosted.validated (hosted : Hosted image held process object state) :
    onTable (validateProcess process) state = .done ⟨⟩ state :=
  on_table_done hosted.validated_table

/-- Noting an access changes nothing else. -/
theorem Hosted.noted (hosted : Hosted image held process object state) (touched : List Access) :
    Hosted image held process object { state with touched := touched } :=
  ⟨hosted.notNull, hosted.magic, hosted.space, hosted.live, hosted.guarded⟩

theorem Apart.noted (apart : Apart object state final) (touched : List Access) :
    Apart object state { final with touched := touched } :=
  ⟨apart.toElsewhere, apart.table⟩

/-! ## Regions -/

/-- The pages of an aligned region. -/
theorem region_pages (aligned : virtualAddr % 4096 = 0) (whole : sizeBytes % 4096 = 0)
    (bounded : virtualAddr + sizeBytes ≤ 0xFFFFF000) :
    pageAlignDown virtualAddr = virtualAddr ∧
      (pageAlignUp (virtualAddr + sizeBytes) - pageAlignDown virtualAddr) / pmmPageSize =
        sizeBytes / 4096 := by
  rw [page_align_down_eq (by omega), page_align_up_eq bounded]
  simp only [pmmPageSize]
  omega

/-- Pages from an address on. -/
def pagesFrom (first count : Nat) : List Nat := (List.range count).map (first + 4096 * ·)

/-- There is room for pages: they are in user memory and not mapped, and there are four free frames
below 16 MiB for each of them. -/
structure Room (object : Nat) (pages : List Nat) (memory : MemorySystem) : Prop where
  range : ∀ page ∈ pages, PageRange (some object) page
  unmapped : ∀ page ∈ pages, userByte memory object page = none
  once : pages.Nodup
  frames : 4 * pages.length ≤ freeBelow 4096 memory.machine.pmm

section Room

variable {pages : List Nat} {system : MemorySystem}

theorem Room.page_free {record : AddressSpace} (room : Room object pages system)
    (isSpace : system.spaces object = some record) {page : Nat} (member : page ∈ pages) :
    PageFree object record.pageDirectory system.machine page := by
  have inRange := room.range page member
  have absent := room.unmapped page member
  have isPage : page / 4096 * 4096 = page := Nat.div_mul_cancel (Nat.dvd_of_mod_eq_zero inRange.aligned)
  rw [userByte, Option.map_eq_none_iff, isPage] at absent
  exact ⟨inRange, entry_page_eq_none.mp
    ((page_owner (directory_of_space _ isSpace) inRange).symm.trans absent)⟩

variable (room : Room object (pagesFrom first count ++ pages) system)

include room

theorem Room.frames_first : 4 * count + 4 * pages.length ≤ freeBelow 4096 system.machine.pmm := by
  have frames := room.frames
  rw [List.length_append, pagesFrom, List.length_map, List.length_range] at frames
  omega

/-- The first pages were mapped, with no more than four frames for each; the rest still has room. -/
theorem Room.rest (added : RangeAdded object first count system next)
    (spent : freeBelow 4096 system.machine.pmm ≤ freeBelow 4096 next.machine.pmm + 4 * count) :
    Room object pages next := by
  have frames := room.frames_first
  have range {page : Nat} (member : page ∈ pages) := room.range page (List.mem_append_right _ member)
  refine ⟨fun _ => range, ?_, (List.nodup_append.mp room.once).2.1, by omega⟩
  intro page member
  rw [added.kept object page, room.unmapped page (List.mem_append_right _ member)]
  rintro ⟨-, low, high⟩
  have aligned := (range member).aligned
  have start := (room.range first (List.mem_append_left pages (List.mem_map.mpr
    ⟨0, List.mem_range.mpr (by omega), rfl⟩))).aligned
  exact List.disjoint_of_nodup_append room.once (List.mem_map.mpr
    ⟨(page - first) / 4096, List.mem_range.mpr (by omega), by omega⟩) member

end Room

/-- What mapping a region of whole pages does: a first part of it is added, and all of it on success,
which is certain if there is room. -/
structure RegionAdded (object virtualAddr sizeBytes : Nat) (system : MemorySystem) (result : Int)
    (next : MemorySystem) : Prop where
  part : ∃ count ≤ sizeBytes / 4096, RangeAdded object virtualAddr count system next ∧
    (result = 0 → count = sizeBytes / 4096)
  room : ∀ pages, Room object (pagesFrom virtualAddr (sizeBytes / 4096) ++ pages) system →
    result = 0 ∧ Room object pages next

/-- Mapping a region of whole pages in the memory system. -/
theorem map_region_added {system : MemorySystem} (guarded : Guarded image held system)
    (live : (system.spaces object).isSome) (aligned : virtualAddr % 4096 = 0)
    (whole : sizeBytes % 4096 = 0) (bounded : virtualAddr + sizeBytes ≤ 0xFFFFF000) :
    (Paging.processMapUserRegion (some object) virtualAddr sizeBytes system).Sat fun result next =>
      Guarded image held next ∧ UserWork object system next ∧
        RegionAdded object virtualAddr sizeBytes system result next := by
  have inv := guarded.toAccounted
  have worked := process_map_user_region_work inv live virtualAddr sizeBytes
  have added : (Paging.processMapUserRegion (some object) virtualAddr sizeBytes system).Sat
      (RegionAdded object virtualAddr sizeBytes system) := by
    by_cases empty : sizeBytes = 0
    · rw [Paging.processMapUserRegion, if_pos empty, empty]
      exact ⟨⟨0, Nat.zero_le _, RangeAdded.nothing virtualAddr (fun _ _ => rfl)
        (WritesOnly.refl inv object _), fun _ => rfl⟩, fun _ room => ⟨rfl, room⟩⟩
    · obtain ⟨start, pages⟩ := region_pages aligned whole bounded
      obtain ⟨record, isSpace⟩ := Option.isSome_iff_exists.mp live
      rw [region_run empty (by omega), pages, start]
      refine ((map_user_pages_added (sizeBytes / 4096) virtualAddr inv live).and
        (map_user_pages_listed (sizeBytes / 4096) virtualAddr aligned inv isSpace)).mono ?_
      rintro result next ⟨part, count, ended, -, -, funded⟩
      refine ⟨part, fun pages room => ?_⟩
      have frames := room.frames_first
      obtain ⟨all, spent⟩ := funded (by omega) fun i inside => room.page_free isSpace
        (List.mem_append_left pages (List.mem_map.mpr ⟨i, List.mem_range.mpr inside, rfl⟩))
      have isZero : result = 0 := by omega
      obtain ⟨size, -, range, complete⟩ := part
      rw [complete isZero] at range
      exact ⟨isZero, room.rest range spent⟩
  refine (worked.and added).mono ?_
  rintro result next ⟨⟨inv, work, -⟩, isAdded⟩
  exact ⟨⟨inv, work.shared.bits guarded.kernelBits, work.tables guarded.userTables⟩, work, isAdded⟩

/-- What a call for a region of whole pages leaves. -/
structure RegionPart (image : Image) (held : Set Nat) (process object virtualAddr sizeBytes : Nat)
    (state : Loading) (result : Int) (final : Loading) : Prop
    extends RegionAdded object virtualAddr sizeBytes state.memory result final.memory where
  hosted : Hosted image held process object final
  apart : Apart object state final
  noted : ∀ first size, .mapped first size ∈ final.touched →
    .mapped first size ∈ state.touched ∨ (result = 0 ∧ first = virtualAddr ∧ size = sizeBytes)

/-- `process_map_user_region` for whole pages. -/
theorem map_user_region_sat (hosted : Hosted image held process object state)
    (aligned : virtualAddr % 4096 = 0) (whole : sizeBytes % 4096 = 0)
    (bounded : virtualAddr + sizeBytes ≤ 0xFFFFF000) :
    (processMapUserRegion process virtualAddr sizeBytes state).Sat
      (RegionPart image held process object virtualAddr sizeBytes state) := by
  unfold processMapUserRegion
  rw [bind_done hosted.validated, bind_done (read_process_run process state),
    bind_done (note_apply _ state), hosted.space]
  have mapped := map_region_added hosted.guarded hosted.live aligned whole bounded
  have translated : (onMemory (Paging.processMapUserRegion (some object) virtualAddr sizeBytes)
      { state with touched := state.touched ++ [.request virtualAddr sizeBytes] }).Sat
      (RegionPart image held process object virtualAddr sizeBytes state) := by
    refine mapped.mapState ?_
    rintro result next ⟨guarded, work, added⟩
    have kept : ∀ other, other ≠ object → userByte next other = userByte state.memory other := by
      intro other different
      obtain ⟨count, -, range, -⟩ := added.part
      funext x
      exact range.kept other x fun both => different both.1
    refine ⟨added, ⟨hosted.notNull, hosted.magic, hosted.space, work.is_some hosted.live, guarded⟩,
      ⟨⟨kept, work.others, work.currentSpace, work.frames⟩, rfl⟩, ?_⟩
    intro first size member
    exact Or.inl (by simpa using member)
  refine sat_bind translated ?_
  rintro result next ⟨added, nextHosted, apart, noted⟩
  rw [ite_run]
  split
  · rename_i isZero
    refine ⟨added, nextHosted.noted _, apart.noted _, ?_⟩
    intro first size member
    rcases List.mem_append.mp member with earlier | isNew
    · exact noted first size earlier
    · obtain ⟨isFirst, isSize⟩ := Access.mapped.inj (List.mem_singleton.mp isNew)
      exact Or.inr ⟨isZero, isFirst, isSize⟩
  · exact ⟨added, nextHosted, apart, noted⟩

/-! ## Stores -/

/-- The state of the memory system after a store to the view of a process. -/
structure StoredView (image : Image) (held : Set Nat) (object first count : Nat)
    (source : Nat → UInt8) (system next : MemorySystem) : Prop where
  guarded : Guarded image held next
  spaces : next.spaces = system.spaces
  current : next.currentSpace = system.currentSpace
  frames : next.frames = system.frames
  view : userByte next object = storeView (userByte system object) first count source
  others : ∀ other, other ≠ object → userByte next other = userByte system other
  writes : WritesOnly object (fun x => first ≤ x ∧ x < first + count) system next
  pmm : next.machine.pmm = system.machine.pmm

/-- Storing while the directory of a process is loaded, and loading the old one again. -/
theorem store_elsewhere {system : MemorySystem} (guarded : Guarded image held system)
    (live : (system.spaces object).isSome) (source : Nat → UInt8)
    (reachable : ∀ x, first ≤ x → x < first + count → (userByte system object x).isSome) :
    ∃ loaded stored next, addressSpaceSwitch (some object) system = .done ⟨⟩ loaded ∧
      memcpyTo first count source loaded = .done ⟨⟩ stored ∧
      addressSpaceSwitch system.currentSpace stored = .done ⟨⟩ next ∧
      StoredView image held object first count source system next := by
  obtain ⟨record, isRecord⟩ := Option.isSome_iff_exists.mp live
  have isSpace : system.lookup (some object) = some record := isRecord
  have inv := guarded.toAccounted
  have loadedInv := switched_accounted inv isSpace
  have loadedViews := switched_user_byte inv isSpace
  obtain ⟨loadedBits, loadedTables⟩ := guarded.switched isSpace
  have loadedGuarded : Guarded image held (system.switched (some object) record) :=
    ⟨loadedInv, loadedBits, loadedTables⟩
  have owned : RangeOwned (system.switched (some object) record) object first count := by
    intro x low high
    rw [(loadedViews object).2, ← user_byte_is_some]
    exact reachable x low high
  obtain ⟨memory, ran, stored⟩ := store_run_run count (system.switched (some object) record)
    count first source loadedInv rfl owned (Nat.le_refl _)
  generalize isStored : (system.switched (some object) record).withMachine
    { (system.switched (some object) record).machine with memory := memory } = written at ran
  have writtenGuarded : Guarded image held written := isStored ▸ loadedGuarded.store_user stored
  obtain ⟨view, others⟩ := stored_user_byte loadedInv owned stored
  have writes := stored_writes_only loadedInv stored
  rw [isStored] at view others writes
  have sameSpaces : written.spaces = system.spaces := by
    rw [← isStored]
    rfl
  have sameFrames : written.frames = system.frames := by
    rw [← isStored]
    rfl
  have sameKernel : written.kernelSpace = system.kernelSpace := by
    rw [← isStored]
    rfl
  have isOld : ∃ old, written.lookup system.currentSpace = some old := by
    have loaded := inv.current
    obtain ⟨old, isOld, -⟩ := Option.map_eq_some_iff.mp loaded
    refine ⟨old, ?_⟩
    rw [← isOld]
    cases system.currentSpace with
    | none => exact congrArg some sameKernel
    | some current => exact congrFun sameSpaces current
  obtain ⟨old, isOld⟩ := isOld
  have finalViews := switched_user_byte writtenGuarded.toAccounted isOld
  obtain ⟨finalBits, finalTables⟩ := writtenGuarded.switched isOld
  refine ⟨_, written, _, address_space_switch_run inv isSpace, ran,
    address_space_switch_run writtenGuarded.toAccounted isOld, ?_⟩
  constructor
  · exact ⟨switched_accounted writtenGuarded.toAccounted isOld, finalBits, finalTables⟩
  · exact sameSpaces
  · rfl
  · exact sameFrames
  · rw [(finalViews object).1, view, (loadedViews object).1]
  · intro other different
    rw [(finalViews other).1, others other different, (loadedViews other).1]
  · exact ((switched_writes_only inv isSpace object _).trans writes).trans
      (switched_writes_only writtenGuarded.toAccounted isOld object _)
  · rw [← isStored]
    cases system.currentSpace <;> rfl

theorem StoredView.hosted {source : Nat → UInt8}
    (stored : StoredView image held object first count source state.memory next)
    (hosted : Hosted image held process object state) (touched : List Access) :
    Hosted image held process object { state with memory := next, touched := touched } :=
  ⟨hosted.notNull, hosted.magic, hosted.space, by
    show (next.spaces object).isSome
    rw [stored.spaces]
    exact hosted.live, stored.guarded⟩

theorem StoredView.apart {source : Nat → UInt8}
    (stored : StoredView image held object first count source state.memory next)
    (touched : List Access) :
    Apart object state { state with memory := next, touched := touched } :=
  ⟨⟨stored.others, fun other _ => congrFun stored.spaces other, stored.current, stored.frames⟩, rfl⟩

/-- What a store to a process leaves. -/
structure Filled (image : Image) (held : Set Nat) (process object first count : Nat)
    (source : Nat → UInt8) (state final : Loading) : Prop where
  hosted : Hosted image held process object final
  apart : Apart object state final
  view : userByte final.memory object =
    storeView (userByte state.memory object) first count source
  writes : WritesOnly object (fun x => first ≤ x ∧ x < first + count) state.memory final.memory
  noted : ∀ start size, .mapped start size ∈ final.touched → .mapped start size ∈ state.touched
  reach : ∀ x, (userByte final.memory object x).isSome = (userByte state.memory object x).isSome
  pmm : final.memory.machine.pmm = state.memory.machine.pmm

/-- A store maps nothing. -/
theorem Filled.room {source : Nat → UInt8}
    (filled : Filled image held process object first count source state final) {pages : List Nat}
    (room : Room object pages state.memory) : Room object pages final.memory := by
  refine ⟨room.range, ?_, room.once, filled.pmm ▸ room.frames⟩
  intro page member
  rw [← Option.isNone_iff_eq_none, ← Option.not_isSome, filled.reach, room.unmapped page member]
  rfl

/-- A store of nothing. -/
theorem Filled.nothing (hosted : Hosted image held process object state) (first : Nat)
    (source : Nat → UInt8) : Filled image held process object first 0 source state state := by
  refine ⟨hosted, Apart.refl object state, ?_, WritesOnly.refl hosted.guarded.toAccounted object _,
    fun _ _ member => member, fun _ => rfl, rfl⟩
  funext x
  rw [storeView, if_neg (by omega)]

section Store

variable (hosted : Hosted image held process object state) (source : Nat → UInt8)
  (reachable : ∀ x, first ≤ x → x < first + count → (userByte state.memory object x).isSome)

include hosted reachable

/-- `process_with_address_space` with a store. -/
theorem with_address_space_run :
    ∃ next, processWithAddressSpace process (memcpyTo first count source) state =
        .done ⟨⟩ { state with memory := next } ∧
      StoredView image held object first count source state.memory next := by
  obtain ⟨loaded, stored, next, switched, ran, back, view⟩ := store_elsewhere hosted.guarded
    hosted.live source reachable
  refine ⟨next, ?_, view⟩
  unfold processWithAddressSpace
  rw [bind_done hosted.validated, bind_done (read_process_run process state),
    bind_done (current_apply state), hosted.space,
    bind_done (on_memory_done switched), bind_done (on_memory_done ran)]
  exact on_memory_done back

theorem StoredView.filled
    (stored : StoredView image held object first count source state.memory next) :
    Filled image held process object first count source state
      { state with memory := next, touched := state.touched ++ [.write first count] } := by
  refine ⟨stored.hosted hosted _, stored.apart _, stored.view, stored.writes, ?_, ?_, stored.pmm⟩
  · intro start size member
    simpa using member
  · intro x
    rw [stored.view, storeView]
    split
    · rename_i inside
      rw [reachable x inside.1 inside.2]
      rfl
    · rfl

/-- The common end of the functions that store to pages of the process. -/
theorem noted_store_run :
    ∃ final, (do
        note (.write first count)
        processWithAddressSpace process (memcpyTo first count source)
        pure 0 : LoadProgram Int) state = .done 0 final ∧
      Filled image held process object first count source state final := by
  rw [bind_done (note_apply _ state)]
  obtain ⟨next, ran, stored⟩ := with_address_space_run
    (hosted.noted (state.touched ++ [.write first count])) source reachable
  have effect : StoredView image held object first count source state.memory next := stored
  rw [bind_done ran, pure_apply]
  exact ⟨_, rfl, effect.filled hosted source reachable⟩

/-- `process_copy_to_user_init` to pages of the process. -/
theorem copy_to_user_init_run {kernelSrc : Nat} (notNull : count ≠ 0 → kernelSrc ≠ 0) :
    ∃ final, processCopyToUserInit process first kernelSrc count source state = .done 0 final ∧
      Filled image held process object first count source state final := by
  unfold processCopyToUserInit
  rw [bind_done hosted.validated, ite_run]
  by_cases empty : count = 0
  · rw [if_pos empty, empty]
    exact ⟨state, rfl, Filled.nothing hosted first source⟩
  · rw [if_neg empty, ite_run, if_neg (notNull empty)]
    exact noted_store_run hosted source reachable

/-- `process_zero_user_init` of pages of the process. -/
theorem zero_user_init_run :
    ∃ final, processZeroUserInit process first count state = .done 0 final ∧
      Filled image held process object first count (fun _ => 0) state final := by
  unfold processZeroUserInit
  rw [bind_done hosted.validated, ite_run]
  by_cases empty : count = 0
  · rw [if_pos empty, empty]
    exact ⟨state, rfl, Filled.nothing hosted first _⟩
  · rw [if_neg empty]
    exact noted_store_run hosted (fun _ => 0) reachable

/-- `process_copy_stack_bytes` to pages of the process. -/
theorem copy_stack_bytes_run :
    ∃ final, processCopyStackBytes process first count source state = .done 0 final ∧
      Filled image held process object first count source state final := by
  unfold processCopyStackBytes
  rw [ite_run]
  by_cases empty : count = 0
  · rw [if_pos empty, empty]
    exact ⟨state, rfl, Filled.nothing hosted first source⟩
  · rw [if_neg empty]
    exact noted_store_run hosted source reachable

end Store

end Toyix.Loader
