import Toyix.Loader.MemoryImage

/-!
# Safety of the loader

Whatever the bytes of an image are and whatever the process is, `elf_load_process` comes to an end.
It reads the image inside its bounds, asks for pages of user memory only, and writes only to regions
that it was given before. These regions are new to the process and belong to it afterwards.

What was touched is followed through all functions, also through those that stop the machine.
-/

namespace Toyix.Loader

open Library Paging Processes Pmm

variable {image : Image} {held : Set Nat} {process object : Nat} {state middle final : Loading}
  {elf : ElfImage} {phdr : ProgramHeader} {α : Type} {length : Nat}

/-! ## What may be touched -/

/-- Reads are inside the image, regions inside user memory, and writes inside regions that were
mapped. -/
def Access.Allowed (elf : ElfImage) (touched : List Access) : Access → Prop
  | .read offset size => offset + size ≤ elf.size
  | .request first size | .mapped first size =>
    addressSpaceUserBase ≤ first ∧ first + size ≤ addressSpaceUserTop
  | .write virtualAddr size => ∃ first length, .mapped first length ∈ touched ∧ first ≤ virtualAddr ∧
      virtualAddr + size ≤ first + length

/-- All that was touched may be touched. -/
def TouchSafe (elf : ElfImage) (touched : List Access) : Prop :=
  ∀ access ∈ touched, access.Allowed elf touched

theorem Access.Allowed.mono {access : Access} {touched later : List Access}
    (allowed : access.Allowed elf touched) (more : touched ⊆ later) : access.Allowed elf later := by
  cases access with
  | read offset size | request first size | mapped first size => exact allowed
  | write virtualAddr size =>
    obtain ⟨first, length, isMapped, low, high⟩ := allowed
    exact ⟨first, length, more isMapped, low, high⟩

theorem TouchSafe.add {touched : List Access} (safe : TouchSafe elf touched) {access : Access}
    (allowed : access.Allowed elf touched) : TouchSafe elf (touched ++ [access]) := by
  intro other member
  have known : other.Allowed elf touched := by
    rcases List.mem_append.mp member with earlier | isLast
    · exact safe other earlier
    · exact List.mem_singleton.mp isLast ▸ allowed
  exact known.mono (List.subset_append_left _ _)

/-! ## Programs that touch safely -/

/-- From a state in which all was safe, the program leaves one in which all is safe. What it grants
with its value has been noted. -/
def Keeps {α : Type} (elf : ElfImage) (program : LoadProgram α) (granted : α → List Access)
    (state : Loading) : Prop :=
  TouchSafe elf state.touched → (program state).Leaves
    (fun value final => TouchSafe elf final.touched ∧ state.touched ⊆ final.touched ∧
      granted value ⊆ final.touched)
    fun final => TouchSafe elf final.touched

theorem Keeps.pure (value : α) (state : Loading) :
    Keeps elf (Pure.pure value) (fun _ => []) state :=
  fun safe => ⟨safe, List.Subset.refl _, List.nil_subset _⟩

theorem Keeps.bind {β : Type} {first : LoadProgram α} {rest : α → LoadProgram β}
    {granted : α → List Access} {later : β → List Access} (starts : Keeps elf first granted state)
    (continues : ∀ value middle, state.touched ⊆ middle.touched → granted value ⊆ middle.touched →
      Keeps elf (rest value) later middle) : Keeps elf (first >>= rest) later state := by
  intro safe
  refine (starts safe).andThen ?_
  rintro value middle ⟨middleSafe, kept, given⟩
  refine (continues value middle kept given middleSafe).mono ?_
  rintro result final ⟨finalSafe, keptLater, givenLater⟩
  exact ⟨finalSafe, List.Subset.trans kept keptLater, givenLater⟩

theorem Keeps.ite {condition : Prop} [Decidable condition] {yes no : LoadProgram α}
    {granted : α → List Access} (whenTrue : condition → Keeps elf yes granted state)
    (whenFalse : ¬ condition → Keeps elf no granted state) :
    Keeps elf (if condition then yes else no) granted state := by
  by_cases holds : condition
  · rw [if_pos holds]
    exact whenTrue holds
  · rw [if_neg holds]
    exact whenFalse holds

/-- A program that gives up with an answer, or goes on. -/
theorem Keeps.unless {condition : Prop} [Decidable condition] {value : α} {rest : LoadProgram α}
    (continues : ¬ condition → Keeps elf rest (fun _ => []) state) :
    Keeps elf (if condition then Pure.pure value else rest) (fun _ => []) state :=
  Keeps.ite (fun _ => Keeps.pure value state) continues

/-- A part of the state without the notes. -/
theorem keeps_within {τ : Type} {get : Loading → τ} {set : Loading → τ → Loading}
    (program : Program τ α) (state : Loading)
    (same : ∀ part, (set state part).touched = state.touched) :
    Keeps elf (Program.within get set program) (fun _ => []) state := by
  intro safe
  rw [Program.within_apply]
  cases program (get state) with
  | done value part =>
    refine ⟨?_, ?_, List.nil_subset _⟩
    · rw [same part]
      exact safe
    · rw [same part]
      exact List.Subset.refl _
  | panicked message part =>
    show TouchSafe elf (set state part).touched
    rw [same part]
    exact safe
  | diverged => trivial

theorem keeps_memory (program : MemoryProgram α) (state : Loading) :
    Keeps elf (onMemory program) (fun _ => []) state :=
  keeps_within program state fun _ => rfl

theorem keeps_table (program : TableProgram α) (state : Loading) :
    Keeps elf (onTable program) (fun _ => []) state :=
  keeps_within program state fun _ => rfl

theorem keeps_note (access : Access) (allowed : access.Allowed elf state.touched) :
    Keeps elf (note access) (fun _ => [access]) state := by
  intro safe
  refine ⟨safe.add allowed, List.subset_append_left _ _, ?_⟩
  intro other member
  exact List.mem_append_right _ member

/-- Reading the image only. -/
theorem Answers.keeps {program : LoadProgram α} {answer : α} (answers : Answers elf program answer)
    (state : Loading) : Keeps elf program (fun _ => []) state := by
  obtain ⟨more, inside, ran⟩ := answers
  intro safe
  rw [ran state]
  refine ⟨?_, List.subset_append_left _ _, List.nil_subset _⟩
  clear ran
  induction more using List.reverseRecOn with
  | nil =>
    show TouchSafe elf (state.touched ++ [])
    rw [List.append_nil]
    exact safe
  | append_singleton more last ih =>
    obtain ⟨offset, size, rfl, fits⟩ := inside last (by simp)
    show TouchSafe elf (state.touched ++ (more ++ [_]))
    rw [← List.append_assoc]
    exact (ih fun access member => inside access (List.mem_append_left _ member)).add fits

theorem Answers.keeps_bind {β : Type} {first : LoadProgram α} {answer : α}
    {rest : α → LoadProgram β} (answers : Answers elf first answer)
    (continues : ∀ middle, Keeps elf (rest answer) (fun _ => []) middle) (state : Loading) :
    Keeps elf (first >>= rest) (fun _ => []) state := by
  intro safe
  have kept := answers.keeps state safe
  obtain ⟨more, -, ran⟩ := answers
  rw [ran state] at kept
  rw [bind_done (ran state)]
  refine (continues _ kept.1).mono ?_
  rintro value final ⟨finalSafe, keptLater, given⟩
  exact ⟨finalSafe, List.Subset.trans kept.2.1 keptLater, given⟩

/-! ## The functions -/

/-- A region of user memory is asked for, and noted when it was given. -/
theorem map_user_region_keeps {virtualAddr sizeBytes : Nat} (low : addressSpaceUserBase ≤ virtualAddr)
    (high : virtualAddr + sizeBytes ≤ addressSpaceUserTop) (state : Loading) :
    Keeps elf (processMapUserRegion process virtualAddr sizeBytes)
      (fun result => if result = 0 then [.mapped virtualAddr sizeBytes] else []) state := by
  unfold processMapUserRegion
  refine (keeps_table _ state).bind fun _ second _ _ => ?_
  refine (keeps_table _ second).bind fun _ third _ _ => ?_
  refine (keeps_note (.request virtualAddr sizeBytes) ⟨low, high⟩).bind fun _ fourth _ _ => ?_
  refine (keeps_memory _ fourth).bind fun result fifth _ _ => ?_
  apply Keeps.ite
  · intro isZero
    refine (keeps_note (.mapped virtualAddr sizeBytes) ⟨low, high⟩).bind
      fun _ sixth _ given safe => ⟨safe, List.Subset.refl _, ?_⟩
    rw [if_pos isZero]
    exact given
  · intro notZero safe
    refine ⟨safe, List.Subset.refl _, ?_⟩
    dsimp only
    rw [if_neg notZero]
    exact List.nil_subset _

/-- Loading a directory and storing note nothing. -/
theorem with_address_space_keeps (operation : MemoryProgram PUnit) (state : Loading) :
    Keeps elf (processWithAddressSpace process operation) (fun _ => []) state := by
  unfold processWithAddressSpace
  refine (keeps_table _ state).bind fun _ second _ _ => ?_
  refine (keeps_table _ second).bind fun _ third _ _ => ?_
  have current : Keeps elf Program.current (fun _ => []) third :=
    fun safe => ⟨safe, List.Subset.refl _, List.nil_subset _⟩
  refine current.bind fun _ fourth _ _ => ?_
  refine (keeps_memory _ fourth).bind fun _ fifth _ _ => ?_
  refine (keeps_memory _ fifth).bind fun _ sixth _ _ => ?_
  exact keeps_memory _ sixth

/-- A write inside a region that was given. -/
theorem noted_store_keeps {virtualAddr size first : Nat} (source : Nat → UInt8)
    (given : .mapped first length ∈ state.touched) (low : first ≤ virtualAddr)
    (high : virtualAddr + size ≤ first + length) :
    Keeps elf (do
      note (.write virtualAddr size)
      processWithAddressSpace process (memcpyTo virtualAddr size source)
      pure 0 : LoadProgram Int) (fun _ => []) state := by
  refine (keeps_note (.write virtualAddr size) ⟨first, length, given, low, high⟩).bind fun _ second _ _ => ?_
  exact (with_address_space_keeps _ second).bind fun _ third _ _ => Keeps.pure _ third

theorem copy_to_user_init_keeps {userDest size first : Nat} (kernelSrc : Nat) (source : Nat → UInt8)
    (given : .mapped first length ∈ state.touched) (low : first ≤ userDest)
    (high : userDest + size ≤ first + length) :
    Keeps elf (processCopyToUserInit process userDest kernelSrc size source) (fun _ => []) state := by
  unfold processCopyToUserInit
  refine (keeps_table _ state).bind fun _ second kept _ => ?_
  refine Keeps.unless fun _ => ?_
  exact Keeps.unless fun _ => noted_store_keeps source (kept given) low high

theorem zero_user_init_keeps {userDest size first : Nat}
    (given : .mapped first length ∈ state.touched) (low : first ≤ userDest)
    (high : userDest + size ≤ first + length) :
    Keeps elf (processZeroUserInit process userDest size) (fun _ => []) state := by
  unfold processZeroUserInit
  refine (keeps_table _ state).bind fun _ second kept _ => ?_
  exact Keeps.unless fun _ => noted_store_keeps (fun _ => 0) (kept given) low high

theorem load_stack_keeps (state : Loading) : Keeps elf (loadStack process) (fun _ => []) state := by
  unfold loadStack
  refine (map_user_region_keeps (by decide) (by decide) state).bind fun result second _ given => ?_
  refine Keeps.unless fun notFailed => ?_
  rw [if_pos (not_not.mp notFailed)] at given
  refine (zero_user_init_keeps (given List.mem_cons_self) (Nat.le_refl _) (Nat.le_refl _)).bind
    fun result third _ _ => ?_
  refine Keeps.unless fun _ => ?_
  exact (keeps_table _ third).bind fun _ fourth _ _ => Keeps.pure _ fourth

theorem zero_bss_keeps (sound : SegmentSound phdr elf.size)
    (given : .mapped phdr.pVaddr length ∈ state.touched) (fits : phdr.pMemsz ≤ length) :
    Keeps elf (zeroBss process phdr) (fun _ => []) state := by
  have filesz := sound.fits
  unfold zeroBss
  rw [sound.bssSum]
  apply Keeps.ite
  · intro _
    refine (zero_user_init_keeps given (Nat.le_add_right _ _) (by omega)).bind
      fun result second _ _ => ?_
    exact Keeps.unless fun _ => Keeps.pure _ second
  · exact fun _ => Keeps.pure _ state

theorem load_segment_keeps (sound : SegmentSound phdr elf.size) (state : Loading) :
    Keeps elf (loadSegment process elf phdr) (fun _ => []) state := by
  have aligned := sound.aligned
  have filesz := sound.fits
  have high := sound.high
  simp only [addressSpaceUserTop] at high
  have inside : phdr.pVaddr + (phdr.pMemsz + 4095) / 4096 * 4096 ≤ addressSpaceUserTop := by
    simp only [addressSpaceUserTop]
    omega
  dsimp only [loadSegment]
  rw [sound.runtime_size, sound.start]
  refine (map_user_region_keeps sound.low inside state).bind fun result second _ given => ?_
  refine Keeps.unless fun notFailed => ?_
  rw [if_pos (not_not.mp notFailed)] at given
  have isMapped := given List.mem_cons_self
  refine ((read_image_answers sound.inImage).keeps second).bind fun _ third kept _ => ?_
  refine (copy_to_user_init_keeps _ _ (kept isMapped) (Nat.le_refl _) (by omega)).bind
    fun result fourth keptLater _ => ?_
  exact Keeps.unless fun _ => zero_bss_keeps sound (keptLater (kept isMapped)) (by omega)

/-- The second loop of `elf_load_process`.

Proof: by induction on the number of headers left. -/
theorem load_segments_keeps (sound : elf.Sound) (remaining i : Nat)
    (inside : i + remaining ≤ elf.header.ePhnum) (state : Loading) :
    Keeps elf (loadSegments process elf remaining i) (fun _ => []) state := by
  induction remaining generalizing i state with
  | zero => exact Keeps.pure _ state
  | succ remaining ih =>
    have segment := sound.segments i (by omega)
    have answers := read_program_header_answers sound.room (show i < elf.header.ePhnum by omega)
    generalize elf.programHeader (elf.programHeaderOffset i) = phdr at segment answers
    refine answers.keeps_bind (fun second => ?_) state
    apply Keeps.ite
    · exact fun _ => ih (i + 1) (by omega) second
    · intro isLoad
      refine (load_segment_keeps (segment (not_not.mp isLoad)) second).bind fun rc third _ _ => ?_
      exact Keeps.unless fun _ => ih (i + 1) (by omega) third

theorem load_image_keeps (sound : elf.Sound) (state : Loading) :
    Keeps elf (loadImage process elf elf.header) (fun _ => []) state := by
  have pieces : Keeps elf (loadPieces process elf elf.header) (fun _ => []) state := by
    unfold loadPieces
    refine (load_stack_keeps state).bind fun rc second _ _ => ?_
    exact Keeps.unless fun _ => load_segments_keeps sound elf.header.ePhnum 0 (Nat.zero_add _).le second
  unfold loadImage
  refine pieces.bind fun rc second _ _ => ?_
  refine Keeps.unless fun _ => ?_
  unfold setEntry
  refine Keeps.unless fun _ => ?_
  exact (keeps_table _ second).bind fun _ third _ _ => Keeps.pure _ third

/-- Nothing unsafe is touched, whatever the process and the image are. -/
theorem elf_load_process_keeps (process : Nat) (elf : ElfImage) (state : Loading) :
    Keeps elf (elfLoadProcess process elf) (fun _ => []) state := by
  obtain ⟨rc, answers, passed⟩ := check_image_answers elf
  unfold elfLoadProcess
  refine Keeps.unless fun _ => ?_
  refine answers.keeps_bind (fun second => ?_) state
  refine Keeps.unless fun accepted => ?_
  have sound := passed.mp (not_not.mp accepted)
  exact (read_header_answers sound.large).keeps_bind (load_image_keeps sound) second

/-! ## Termination -/

/-- A space without a record gets no pages. -/
theorem map_region_dead {system : MemorySystem} (absent : system.spaces object = none)
    (virtualAddr : Nat) :
    (mapUserPagesFrom (some object) 1 virtualAddr system).Sat fun result _ => result ≠ 0 := by
  have page : (mapUserPage (some object) virtualAddr system).Sat fun result _ => result ≠ 0 := by
    simp only [mapUserPage, bind_apply, callMachine_apply, andThen_done, ite_run]
    split
    · exact (by decide : (-1 : Int) ≠ 0)
    · have stops : ∀ (machine : Machine) physical flags,
          addressSpaceMapPage (some object) virtualAddr physical flags (system.withMachine machine) =
            .panicked "address_space: magic mismatch" (system.withMachine machine) := by
        intro machine physical flags
        have none : (system.withMachine machine).lookup (some object) = none := absent
        simp only [addressSpaceMapPage, validateSpace, readSpace, bind_apply, current_apply,
          andThen_done, none, panic_apply, Outcome.andThen_panicked]
      rw [stops]
      trivial
  unfold mapUserPagesFrom
  refine page.andThen ?_
  intro result next failed
  rw [ite_run, if_pos failed]
  exact (by decide : (-1 : Int) ≠ 0)

/-- A process without a live address space gets no stack. -/
theorem load_stack_unhosted (notNull : process ≠ 0)
    (unhosted : (state.table.objects process).magic ≠ processMagic ∨
      state.memory.spaces (state.table.objects process).addressSpace = none) :
    (loadStack process state).Sat fun rc _ => rc ≠ elfLoaderOk := by
  have region : (processMapUserRegion process (elfUserStackTop - elfUserStackSize) elfUserStackSize
      state).Sat fun result _ => result ≠ 0 := by
    unfold processMapUserRegion
    by_cases magic : (state.table.objects process).magic = processMagic
    · have passed : onTable (validateProcess process) state = .done ⟨⟩ state := by
        refine on_table_done (show validateProcess process state.table = .done ⟨⟩ state.table from ?_)
        simp [validateProcess, readProcess, notNull, magic]
      have absent := unhosted.resolve_left (not_not.mpr magic)
      rw [bind_done passed, bind_done (read_process_run process state),
        bind_done (note_apply _ state)]
      have pages := map_region_dead absent (elfUserStackTop - elfUserStackSize)
      have refused : (Paging.processMapUserRegion (some (state.table.objects process).addressSpace)
          (elfUserStackTop - elfUserStackSize) elfUserStackSize state.memory).Sat
          fun result _ => result ≠ 0 := by
        rw [region_run (by decide) (by decide)]
        exact pages
      have noted : (onMemory (Paging.processMapUserRegion
          (some (state.table.objects process).addressSpace) (elfUserStackTop - elfUserStackSize)
          elfUserStackSize) { state with touched := state.touched ++
            [.request (elfUserStackTop - elfUserStackSize) elfUserStackSize] }).Sat
          fun result _ => result ≠ 0 :=
        refused.mapState fun _ _ failed => failed
      refine sat_bind noted ?_
      intro result next failed
      rw [ite_run, if_neg failed]
      exact failed
    · have stops : onTable (validateProcess process) state =
          .panicked "process: magic mismatch" state := by
        simp [onTable, Program.within_apply, validateProcess, readProcess, notNull, magic,
          Outcome.mapState]
      rw [bind_apply, stops]
      trivial
  unfold loadStack
  refine sat_bind region ?_
  intro result next failed
  rw [ite_run, if_pos failed]
  exact load_failed_not_ok

/-- `elf_load_process` comes to an end for every process. -/
theorem elf_load_process_ends (guarded : Guarded image held state.memory)
    (process : Nat) (elf : ElfImage) : (elfLoadProcess process elf state).Sat fun _ _ => True := by
  by_cases null : process = 0
  · unfold elfLoadProcess
    rw [ite_run, if_pos (Or.inl null)]
    trivial
  by_cases unhosted : (state.table.objects process).magic ≠ processMagic ∨
      state.memory.spaces (state.table.objects process).addressSpace = none
  · obtain ⟨rc, ⟨more, -, checked⟩, passed⟩ := check_image_answers elf
    unfold elfLoadProcess
    rw [ite_run]
    split
    · trivial
    · rw [bind_done (checked state), ite_run]
      split
      · trivial
      · rename_i accepted
        obtain ⟨headerMore, -, headerRan⟩ := read_header_answers (passed.mp (not_not.mp accepted)).large
        rw [bind_done (headerRan _)]
        have stack : (loadStack process { state with
            touched := (state.touched ++ more) ++ headerMore }).Sat fun rc _ => rc ≠ elfLoaderOk :=
          load_stack_unhosted null unhosted
        have pieces : (loadPieces process elf elf.header { state with
            touched := (state.touched ++ more) ++ headerMore }).Sat fun rc _ => rc ≠ elfLoaderOk := by
          unfold loadPieces
          refine sat_bind stack ?_
          intro rc next failed
          rw [ite_run, if_pos failed]
          exact failed
        unfold loadImage
        refine sat_bind pieces ?_
        intro rc next failed
        rw [ite_run, if_pos failed]
        trivial
  · have hosted : Hosted image held process (state.table.objects process).addressSpace state := by
      refine ⟨null, ?_, rfl, ?_, guarded⟩
      · exact not_not.mp fun different => unhosted (Or.inl different)
      · rw [Option.isSome_iff_ne_none]
        exact fun absent => unhosted (Or.inr absent)
    exact (elf_load_process_sat hosted elf).mono fun _ _ _ => trivial

/-! ## The law -/

/-- The sums over the header of an image do not wrap. -/
structure HeaderSums (elf : ElfImage) : Prop where
  table : elf.header.ePhnum * sizeofPhdr % 2 ^ 32 = elf.header.ePhnum * sizeofPhdr
  tableEnd : (elf.header.ePhoff + elf.header.ePhnum * sizeofPhdr) % 2 ^ 32 =
    elf.header.ePhoff + elf.header.ePhnum * sizeofPhdr
  entry : ∀ i < elf.header.ePhnum, elf.programHeaderOffset i + sizeofPhdr < 2 ^ 32

theorem header_sums (passed : checkHeader elf.header elf.size = elfLoaderOk) : HeaderSums elf := by
  have room := check_header_ok passed
  have count := phnum_lt elf
  have bounded := elf.bounded
  simp only [sizeofPhdr] at room
  constructor
  · simp only [sizeofPhdr]
    omega
  · simp only [sizeofPhdr]
    omega
  · intro i below
    simp only [ElfImage.programHeaderOffset, sizeofPhdr]
    omega

/-- What was mapped is new to the process, and belongs to it when the loader returns. -/
theorem LoadDone.tracked {rc : Int} (done : LoadDone image held process object elf state rc final) :
    Tracked object state final := by
  have notes : ∀ {more : List Access}, (∀ access ∈ more, access.InImage elf) →
      ∀ {first size}, .mapped first size ∈ state.touched ++ more → .mapped first size ∈ state.touched := by
    intro more reads first size member
    rcases List.mem_append.mp member with earlier | isRead
    · exact earlier
    · obtain ⟨offset, count, isRead, -⟩ := reads _ isRead
      cases isRead
  have pieces : ∀ {more : List Access} {rc : Int} {loaded : Loading},
      (∀ access ∈ more, access.InImage elf) →
      PiecesDone image held process object elf { state with touched := state.touched ++ more } rc
        loaded → Tracked object state loaded := by
    intro more rc loaded reads pieces first size member
    rcases pieces.tracked first size member with earlier | fresh
    · exact Or.inl (notes reads earlier)
    · exact Or.inr fresh
  cases done with
  | refused reads notOk => exact fun first size member => Or.inl (notes reads member)
  | loaded reads sound done =>
    cases done with
    | failed done => exact pieces reads done
    | badEntry outside done => exact pieces reads done
    | done inside done =>
      have tracked := pieces reads done
      exact tracked

/-- For every image and every process, `elf_load_process` comes to an end, by a return or by a stop.
It has read the image inside its bounds, asked for pages of user memory only, and written to regions
only that it had been given. No sum or rounding over a header or a segment that passed its check
wraps. When it returns, the regions it was given were not reachable before and are reachable in the
process, and all that is newly reachable is user memory. -/
theorem elf_load_process_safe (image : Image) (memory : MemorySystem)
    (reached : AccessReachable image memory) (table : ProcessTable) (process : Nat) (elf : ElfImage) :
    ((elfLoadProcess process elf ⟨memory, table, []⟩).Ends fun final => TouchSafe elf final.touched) ∧
    (checkHeader elf.header elf.size = elfLoaderOk → HeaderSums elf) ∧
    (∀ i, (elf.programHeader (elf.programHeaderOffset i)).pType = ptLoad →
      validateLoadSegment (elf.programHeader (elf.programHeaderOffset i)) elf.size = elfLoaderOk →
      SegmentSound (elf.programHeader (elf.programHeaderOffset i)) elf.size) ∧
    (∀ rc final, elfLoadProcess process elf ⟨memory, table, []⟩ = .done rc final →
      (table.objects process).magic = processMagic →
      (memory.spaces (table.objects process).addressSpace).isSome →
      Tracked (table.objects process).addressSpace ⟨memory, table, []⟩ final ∧
      ∀ x, userByte memory (table.objects process).addressSpace x = none →
        (userByte final.memory (table.objects process).addressSpace x).isSome →
        addressSpaceUserBase ≤ x ∧ x < addressSpaceUserTop) := by
  have guarded : Guarded image memory.held (Loading.mk memory table []).memory :=
    reachable_guarded reached
  refine ⟨?_, header_sums, ?_, ?_⟩
  · have kept := elf_load_process_keeps process elf ⟨memory, table, []⟩ (fun _ absent => by cases absent)
    exact kept.ends (elf_load_process_ends guarded process elf) fun _ _ returned => returned.1
  · intro i isLoad passed
    exact validate_load_segment_ok (program_header_words elf _) passed isLoad
  · intro rc final returned magic live
    constructor
    · by_cases null : process = 0
      · have unchanged : elfLoadProcess process elf ⟨memory, table, []⟩ =
            .done elfLoaderErrInvalid ⟨memory, table, []⟩ := by
          unfold elfLoadProcess
          rw [ite_run, if_pos (Or.inl null)]
          rfl
        rw [unchanged] at returned
        cases returned
        exact fun _ _ member => Or.inl member
      · have done := elf_load_process_sat (Hosted.mk null magic rfl live guarded) elf
        rw [returned] at done
        exact LoadDone.tracked done
    · intro x absent reachable
      rw [user_byte_is_some] at reachable
      obtain ⟨frame, owns⟩ := Option.isSome_iff_exists.mp reachable
      obtain ⟨-, low, high⟩ := owned_page_range owns
      simp only [addressSpaceUserBase, addressSpaceUserTop]
      omega

set_option maxRecDepth 100000 in
/-- The small image is loaded safely: its stack and its segment are the regions that are mapped. -/
theorem tiny_image_safe : ∃ memory final, AccessReachable smallImage memory ∧
    elfLoadProcess 0x1000 tinyElf ⟨memory, tinyTable, []⟩ = .done elfLoaderOk final ∧
    final.touched.filter (fun access => access matches .mapped _ _) =
      [.mapped 0x6FFFF000 4096, .mapped 0x01000000 4096] ∧
    TouchSafe tinyElf final.touched ∧ Tracked 0xD1000018 ⟨memory, tinyTable, []⟩ final := by
  have completed : (smallAccessRun [.memory .create]).map (fun system =>
      ((system.spaces 0xD1000018).isSome,
        (elfLoadProcess 0x1000 tinyElf ⟨system, tinyTable, []⟩).result.map
          (Prod.map id fun final => final.touched.filter fun access => access matches .mapped _ _))) =
      some (true, some (elfLoaderOk, [.mapped 0x6FFFF000 4096, .mapped 0x01000000 4096])) := by
    decide +kernel
  obtain ⟨system, reached, facts⟩ := small_access_run_facts completed
  obtain ⟨live, loads⟩ := Prod.mk.inj facts
  obtain ⟨final, loaded, mapped⟩ := done_of_facts loads
  obtain ⟨touched, -, -, regions⟩ :=
    elf_load_process_safe smallImage system reached tinyTable 0x1000 tinyElf
  rw [loaded] at touched
  exact ⟨system, final, reached, loaded, mapped, touched, (regions _ final loaded rfl live).1⟩

/-- Whatever `elf_load_process` answers, it changes one process only: other address spaces and their
bytes, the loaded space and the other processes of the table are as before, and so is every byte that
the process could reach already. -/
theorem elf_load_process_isolated (reached : AccessReachable image state.memory)
    (notNull : process ≠ 0) (magic : (state.table.objects process).magic = processMagic)
    (space : (state.table.objects process).addressSpace = object)
    (live : (state.memory.spaces object).isSome) (rc : Int)
    (returned : elfLoadProcess process elf state = .done rc final) :
    Elsewhere object state.memory final.memory ∧
      (∀ x, (userByte state.memory object x).isSome →
        userByte final.memory object x = userByte state.memory object x) ∧
      ∃ update, final.table = state.table.change process update := by
  have hosted := Hosted.mk notNull magic space live (reachable_guarded reached)
  have done := elf_load_process_sat hosted elf
  rw [returned] at done
  cases done with
  | refused =>
    exact ⟨⟨fun _ _ => rfl, fun _ _ => rfl, rfl, rfl⟩, fun _ _ => rfl, id, (change_id ..).symm⟩
  | loaded _ _ done =>
    cases done with
    | failed pieces | badEntry _ pieces =>
      obtain ⟨update, changed, -⟩ := pieces.table
      exact ⟨pieces.elsewhere, pieces.kept, update, changed⟩
    | done _ pieces =>
      obtain ⟨update, changed, -⟩ := pieces.table
      have entered := congrArg (·.change process (withEntry elf.header.eEntry)) changed
      exact ⟨pieces.elsewhere, pieces.kept, _, entered.trans (change_change ..)⟩

set_option maxRecDepth 100000 in
/-- The small image is loaded beside a second address space. -/
theorem tiny_image_isolated : ∃ memory final, (memory.spaces 0xD1000048).isSome ∧
    elfLoadProcess 0x1000 tinyElf ⟨memory, tinyTable, []⟩ = .done elfLoaderOk final ∧
    Elsewhere 0xD1000018 memory final.memory := by
  have completed : (smallAccessRun [.memory .create, .memory .create]).map (fun system =>
      ((system.spaces 0xD1000018).isSome, (system.spaces 0xD1000048).isSome,
        (elfLoadProcess 0x1000 tinyElf ⟨system, tinyTable, []⟩).result.map Prod.fst)) =
      some (true, true, some elfLoaderOk) := by decide +kernel
  obtain ⟨system, reached, facts⟩ := small_access_run_facts completed
  obtain ⟨live, facts⟩ := Prod.mk.inj facts
  obtain ⟨second, loads⟩ := Prod.mk.inj facts
  obtain ⟨final, loaded⟩ := done_of_value loads
  exact ⟨system, final, second, loaded, (elf_load_process_isolated reached (by decide) rfl rfl
    live _ loaded).1⟩

end Toyix.Loader
