import Toyix.Loader.Arguments

/-!
# Stale memory

The frames of a new process come from the frame allocator with whatever their last owner left in
them. What user mode can read should follow from the image and the arguments alone. The loader
overwrites the stack page, and of each segment the bytes up to its size in memory; the rest of the
last page of a segment is not touched. What is read there is what the frame held before. When all
segments end at the end of a page nothing is left to be seen.
-/

namespace Toyix.Loader

open Library Paging Processes Pmm

variable {image : Image} {held : Set Nat} {process object : Nat} {state loaded final : Loading}
  {elf : ElfImage} {x : Nat}

/-! ## New processes -/

/-- An image and arguments were given to a process without pages. -/
structure Prepared (image : Image) (elf : ElfImage) (argc : Int)
    (argv : Option (Nat → Option (Nat → UInt8))) (process object : Nat) (state final : Loading) :
    Prop where
  reached : AccessReachable image state.memory
  notNull : process ≠ 0
  magic : (state.table.objects process).magic = processMagic
  space : (state.table.objects process).addressSpace = object
  fresh : ∃ record, state.memory.spaces object = some record ∧ record.userMappings = []
  ran : ∃ loaded, elfLoadProcess process elf state = .done elfLoaderOk loaded ∧
    processSetupArguments process argc argv loaded = .done 0 final

/-- A loaded process is ready for its arguments. -/
theorem loaded_staged (hosted : Hosted image held process object state)
    (unreachable : ∀ x, userByte state.memory object x = none)
    (ran : elfLoadProcess process elf state = .done elfLoaderOk loaded) :
    elf.Sound ∧ Staged image held process object 0x6FFFF000 0x70000000 loaded ∧
      Assembled elf.pieces (userByte loaded.memory object) ∧
      WritesOnly object elf.Stores state.memory loaded.memory := by
  obtain ⟨touched, filled, sound, pieces, rfl⟩ := loaded_pieces hosted ran
  have assembled : Assembled elf.pieces (userByte filled.memory object) :=
    pieces.assembled rfl [] (Assembled.nothing unreachable)
  obtain ⟨before, fields⟩ := pieces.loaded_fields
  have entered := pieces.hosted.changed (withEntry elf.header.eEntry) (fun _ => rfl) fun _ => rfl
  refine ⟨sound, ⟨entered, ?_, ?_, by decide, ?_⟩, assembled, pieces.writes rfl⟩
  · rw [fields]
    cases before
    rfl
  · rw [fields]
    cases before
    rfl
  · intro x low high
    exact (assembled.covered x).mpr ⟨stackPiece, List.mem_cons_self, low, high⟩

/-- Arguments are only set up after the checks. -/
theorem setup_arguments_checked (hosted : Hosted image held process object state) {argc : Int}
    {argv : Option (Nat → Option (Nat → UInt8))}
    (ran : processSetupArguments process argc argv state = .done 0 final) :
    (state.table.objects process).state ≠ .destroyed ∧ ¬ (argc < 0 ∨ argc > processMaxArgc) ∧
      ¬ (argc > 0 ∧ argv.isNone) := by
  have isValid := hosted.validated_table
  obtain ⟨_, checked, validated, rest⟩ := bind_eq_done.mp ran
  have notDestroyed : (state.table.objects process).state ≠ .destroyed := by
    intro destroyed
    have stops : onTable (validateLiveProcess process) state =
        .panicked "process: operation on destroyed process" state := by
      unfold validateLiveProcess
      simp [onTable, Program.within_apply, isValid, readProcess, destroyed, Outcome.mapState]
    rw [stops] at validated
    cases validated
  rw [ite_run] at rest
  split at rest
  · cases rest
  · rename_i bounded
    rw [ite_run] at rest
    split at rest
    · cases rest
    · rename_i given
      exact ⟨notDestroyed, bounded, given⟩

/-- A process without pages has none that is closed to user mode. -/
theorem open_pages_of_fresh {system : MemorySystem} (inv : Accounted image held system)
    {record : AddressSpace} (isSpace : system.spaces object = some record)
    (fresh : record.userMappings = []) : OpenPages object system := by
  intro directory isDirectory page inRange present
  have isDirectory : directoryOf system.spaces system.machine.kernelDirectory (some object) =
    some directory := isDirectory
  have owns : userPages system object page =
      some (pageEntry system.machine.memory directory page &&& x86PageFrameMask) :=
    (page_owner isDirectory inRange).trans (entry_page_eq_some.mpr ⟨present, rfl⟩)
  obtain ⟨mapping, member, -⟩ := ((inv.records object record isSpace).listed _ _).mpr owns
  rw [fresh] at member
  cases member

/-- What is known of a new process: it had no pages, what it shows, with the arguments stored on the
stack, and where the loader stored. -/
structure NewProcess (image : Image) (elf : ElfImage) (argc : Int)
    (argv : Option (Nat → Option (Nat → UInt8))) (object : Nat) (state final : Loading) : Prop where
  sound : elf.Sound
  guarded : Guarded image state.memory.held final.memory
  opened : OpenPages object final.memory
  fresh : ∀ x, userByte state.memory object x = none
  writes : WritesOnly object elf.Stores state.memory final.memory
  view : ∃ esp argPtrs view, layOut 0x6FFFF000 0x70000000 argc.toNat (argv.getD fun _ => none) = some (esp, argPtrs) ∧
    Assembled elf.pieces view ∧ userByte final.memory object =
      argumentView 0x6FFFF000 0x70000000 argc.toNat (argv.getD fun _ => none) esp argPtrs view

theorem Prepared.new_process {argc : Int} {argv : Option (Nat → Option (Nat → UInt8))}
    (prepared : Prepared image elf argc argv process object state final) :
    NewProcess image elf argc argv object state final := by
  obtain ⟨record, isSpace, noPages⟩ := prepared.fresh
  have guarded := reachable_guarded prepared.reached
  have hosted : Hosted image state.memory.held process object state :=
    ⟨prepared.notNull, prepared.magic, prepared.space,
      Option.isSome_iff_exists.mpr ⟨record, isSpace⟩, guarded⟩
  obtain ⟨loaded, loads, ran⟩ := prepared.ran
  have fresh := fresh_view guarded.toAccounted isSpace noPages
  obtain ⟨sound, staged, assembled, writes⟩ := loaded_staged hosted fresh loads
  obtain ⟨notDestroyed, bounded, given⟩ := setup_arguments_checked staged.toHosted ran
  obtain ⟨middle, middleStaged, -, stores, ⟨-, refused⟩ | ⟨esp, argPtrs, placed, done, view⟩⟩ :=
    setup_arguments_run staged notDestroyed bounded given
  · rw [refused] at ran
    cases ran
  · rw [done] at ran
    obtain ⟨-, rfl⟩ := Outcome.done.inj ran
    have whole : WritesOnly object elf.Stores state.memory middle.memory :=
      writes.trans (stores.weaken fun _ covers => Or.inl covers)
    exact ⟨sound, middleStaged.guarded, whole.opens (open_pages_of_fresh guarded.toAccounted isSpace noPages),
      fresh, whole, esp, argPtrs, _, placed, assembled, view⟩

/-! ## What is left in the last page of a segment -/

/-- What the frame behind an address held before the process was given its memory. -/
def leftover (before after : MemorySystem) (object x : Nat) : Option UInt8 :=
  (userPages after object (x / 4096 * 4096)).map fun frame =>
    before.machine.memory.byte (frame + x % 4096)

/-- User mode reads what a free frame held before the process was given its memory. -/
def ShowsOld (before after : MemorySystem) (object x : Nat) : Prop :=
  ∃ frame, ¬ FrameUsed before.machine.pmm frame ∧
    userRead after object x = some (before.machine.memory.byte (frame + x % 4096))

/-- A byte after the strings were stored is one of theirs or the byte before. -/
theorem store_arguments_eq (base : Nat) (argv : Nat → Option (Nat → UInt8)) (i : Nat) :
    ∀ sp (view : Nat → Option UInt8), storeArguments base argv i sp view x =
      (storeArguments base argv i sp (fun _ => none) x).or (view x) := by
  induction i with
  | zero =>
    intro sp view
    rfl
  | succ i ih =>
    intro sp view
    unfold storeArguments
    cases argv i with
    | none => rfl
    | some arg =>
      cases isLength : argLength arg processMaxArgString 0 with
      | none =>
        simp only [isLength]
        rfl
      | some len =>
        simp only [isLength]
        split
        · rfl
        · rw [ih _ (storeView view _ _ _), ih _ (storeView (fun _ => none) _ _ _), Option.or_assoc]
          simp only [storeView]
          split <;> rfl

theorem argument_view_eq (base top argc esp : Nat) (argv : Nat → Option (Nat → UInt8))
    (argPtrs : List Nat) (view : Nat → Option UInt8) :
    argumentView base top argc argv esp argPtrs view x =
      (argumentView base top argc argv esp argPtrs (fun _ => none) x).or (view x) := by
  simp only [argumentView, storeView]
  split
  · rfl
  · exact store_arguments_eq base argv argc top view

/-- Nothing is stored behind a segment that ends inside a page.

Proof: the pieces do not meet, so only the segment itself could store there. -/
theorem end_not_stored (sound : elf.Sound) {view : Nat → Option UInt8}
    (assembled : Assembled elf.pieces view) {phdr : ProgramHeader} (isHeader : phdr ∈ elf.loadHeaders)
    (covers : (segmentPiece elf phdr).Covers (phdr.pVaddr + phdr.pMemsz)) :
    ¬ elf.Stores (phdr.pVaddr + phdr.pMemsz) := by
  have fits := (load_headers_sound sound isHeader).fits
  have unknown : (segmentPiece elf phdr).known (phdr.pVaddr + phdr.pMemsz) = none := by
    simp only [segmentPiece]
    rw [if_neg (by omega), if_neg (by omega)]
  have member : segmentPiece elf phdr ∈ elf.pieces :=
    List.mem_cons_of_mem _ (List.mem_map_of_mem isHeader)
  have symmetric : Std.Symm fun piece other : Piece UInt8 => ∀ x, piece.Covers x → ¬ other.Covers x :=
    ⟨fun _ _ apart x covers covers' => apart x covers' covers⟩
  have alone : ∀ other ∈ elf.pieces, other.Covers (phdr.pVaddr + phdr.pMemsz) →
      (other.known (phdr.pVaddr + phdr.pMemsz)).isSome → False := by
    intro other isPiece otherCovers known
    have different : segmentPiece elf phdr ≠ other := by
      rintro rfl
      rw [unknown] at known
      cases known
    exact assembled.apart.forall member isPiece different _ covers otherCovers
  rintro (inStack | ⟨other, isOther, low, high⟩)
  · exact alone stackPiece List.mem_cons_self inStack rfl
  · refine alone (segmentPiece elf other) (List.mem_cons_of_mem _ (List.mem_map_of_mem isOther)) ?_ ?_
    · have whole : other.pMemsz ≤ (other.pMemsz + 4095) / 4096 * 4096 := by omega
      exact ⟨low, Nat.lt_of_lt_of_le high (Nat.add_le_add_left whole _)⟩
    · simp only [segmentPiece, high, ↓reduceIte]
      split <;> rfl

/-- Behind a segment that ends inside a page stands what was left in the frame. -/
theorem NewProcess.shows_old {argc : Int} {argv : Option (Nat → Option (Nat → UInt8))}
    (new : NewProcess image elf argc argv object state final) {phdr : ProgramHeader}
    (isHeader : phdr ∈ elf.loadHeaders) (ends : phdr.pMemsz % 4096 ≠ 0) :
    ShowsOld state.memory final.memory object (phdr.pVaddr + phdr.pMemsz) := by
  obtain ⟨esp, argPtrs, view, -, assembled, isView⟩ := new.view
  have high := (load_headers_sound new.sound isHeader).high
  have top : addressSpaceUserTop = 0xC0000000 := rfl
  have covers : (segmentPiece elf phdr).Covers (phdr.pVaddr + phdr.pMemsz) := by
    simp only [Piece.Covers, segmentPiece]
    omega
  have shown : (view (phdr.pVaddr + phdr.pMemsz)).isSome := (assembled.covered _).mpr
    ⟨_, List.mem_cons_of_mem _ (List.mem_map_of_mem isHeader), covers⟩
  have shown : (userByte final.memory object (phdr.pVaddr + phdr.pMemsz)).isSome := by
    rw [isView, argument_view_eq, Option.isSome_or, shown, Bool.or_true]
  obtain ⟨frame, owns⟩ := Option.isSome_iff_exists.mp (Option.isSome_map.symm.trans shown)
  refine ⟨frame, ?_, ?_⟩
  · refine (new.writes.pages _ frame owns).resolve_left ?_
    intro before
    have none := new.fresh (phdr.pVaddr + phdr.pMemsz)
    rw [userByte, before] at none
    cases none
  · rw [new.guarded.user_read_open new.opened (by omega), userByte, owns, Option.map_some,
      new.writes.bytes _ frame owns (end_not_stored new.sound assembled isHeader covers)]

/-- All segments end at the end of a page. -/
def ElfImage.WholePages (elf : ElfImage) : Prop :=
  ∀ phdr ∈ elf.loadHeaders, phdr.pMemsz % 4096 = 0

instance (elf : ElfImage) : Decidable elf.WholePages :=
  inferInstanceAs (Decidable (∀ phdr ∈ elf.loadHeaders, phdr.pMemsz % 4096 = 0))

/-- Two new processes with the same image and the same arguments show the same when all segments end
at the end of a page, whatever the memory held before. Otherwise there is an address where each of them
shows what a free frame held before.

Proof: in whole pages each piece of the image gives all of its bytes, and the arguments are laid out
the same. -/
theorem fresh_memory_determined (elf : ElfImage) (argc : Int)
    (argv : Option (Nat → Option (Nat → UInt8))) (image image' : Image)
    (process process' object object' : Nat)
    (state state' final final' : Loading)
    (prepared : Prepared image elf argc argv process object state final)
    (prepared' : Prepared image' elf argc argv process' object' state' final') :
    (elf.WholePages →
      ∀ x < 2 ^ 32, userRead final.memory object x = userRead final'.memory object' x) ∧
    (¬ elf.WholePages → ∃ x < 2 ^ 32, ShowsOld state.memory final.memory object x ∧
      ShowsOld state'.memory final'.memory object' x) := by
  have new := prepared.new_process
  have new' := prepared'.new_process
  constructor
  · intro whole x bounded
    rw [new.guarded.user_read_open new.opened bounded, new'.guarded.user_read_open new'.opened bounded]
    obtain ⟨esp, argPtrs, view, placed, assembled, isView⟩ := new.view
    obtain ⟨esp', argPtrs', view', placed', assembled', isView'⟩ := new'.view
    obtain ⟨rfl, rfl⟩ := Prod.mk.inj (Option.some.inj (placed.symm.trans placed'))
    rw [isView, isView', argument_view_eq, argument_view_eq _ _ _ _ _ _ view']
    congr 1
    refine assembled.determined assembled' ?_
    intro piece member covers
    rcases List.mem_cons.mp member with rfl | isSegment
    · rfl
    · obtain ⟨phdr, isHeader, rfl⟩ := List.mem_map.mp isSegment
      have fills := whole phdr isHeader
      have inside : x < phdr.pVaddr + phdr.pMemsz := by
        have high := covers.2
        simp only [segmentPiece] at high
        omega
      simp only [segmentPiece, inside, ↓reduceIte]
      split <;> rfl
  · intro notWhole
    simp only [ElfImage.WholePages, not_forall, exists_prop] at notWhole
    obtain ⟨phdr, isHeader, ends⟩ := notWhole
    have high := (load_headers_sound new.sound isHeader).high
    have top : addressSpaceUserTop = 0xC0000000 := rfl
    exact ⟨_, by omega, new.shows_old isHeader ends, new'.shows_old isHeader ends⟩

/-! ## Two runs on the small machine -/

/-- A table with one process in the second address space of the small machine. -/
def secondTable : ProcessTable :=
  processInitSystem (fun _ => { Process.cleared with
    magic := processMagic, pid := 2, addressSpace := 0xD1000048 }) ⟨fun _ => 0, fun _ => 0⟩

/-- The small image with one page of memory. -/
def pageElf : ElfImage :=
  { tinyElf with bytes := ⟨fun i => ((tinyBytes.set 72 0).set 73 16).getD i 0⟩ }

/-- An image in the second address space of a system: the number of pages before, the answers of the
loader and of the argument setup, what the frame held behind the file bytes before, and what user mode
reads there. -/
def smallReads (elf : ElfImage) (system : MemorySystem) :
    Option (Nat × Int × Int × Option UInt8 × Option UInt8) :=
  (system.spaces 0xD1000048).bind fun record =>
    (elfLoadProcess 0x1000 elf ⟨system, secondTable, []⟩).result.bind fun (rc, loaded) =>
      (processSetupArguments 0x1000 0 none loaded).result.map fun (set, final) =>
        (record.userMappings.length, rc, set, leftover system final.memory 0xD1000048 0x01000006,
          userRead final.memory 0xD1000048 0x01000006)

theorem small_reads_prepared {ops : List AccessOp} {left byte : Option UInt8}
    (ran : (smallAccessRun ops).bind (smallReads elf) = some (0, elfLoaderOk, 0, left, byte)) :
    ∃ state final, Prepared smallImage elf 0 none 0x1000 0xD1000048 state final ∧
      leftover state.memory final.memory 0xD1000048 0x01000006 = left ∧
      userRead final.memory 0xD1000048 0x01000006 = byte := by
  obtain ⟨system, isRun, ran⟩ := Option.bind_eq_some_iff.mp ran
  obtain ⟨record, isSpace, ran⟩ := Option.bind_eq_some_iff.mp ran
  obtain ⟨⟨rc, loaded⟩, loads, ran⟩ := Option.bind_eq_some_iff.mp ran
  obtain ⟨set, final, sets, seen⟩ := done_of_map ran
  simp only [Prod.mk.injEq] at seen
  obtain ⟨noPages, rfl, rfl, left, reads⟩ := seen
  have notNull : 0x1000 ≠ 0 := by decide
  exact ⟨⟨system, secondTable, []⟩, final, ⟨small_access_run_reachable isRun, notNull, rfl, rfl,
    ⟨record, isSpace, List.eq_nil_of_length_eq_zero noPages⟩,
    loaded, result_eq_some.mp loads, sets⟩, left, reads⟩

/-- Two processes are created. -/
def twoSpaces : List AccessOp :=
  [.memory .create, .memory .create]

/-- The first process writes to a page and gives it up. -/
def pageGivenUp : List AccessOp :=
  [.memory .create, .memory .create, .memory (.mapUserRegion 0xD1000018 0x01000000 0x3000),
    .memory (.switch (some 0xD1000018)), .copyToUser 0x01002006 1 1 (fun _ => 7),
    .memory (.switch none), .memory (.unmapPage 0xD1000018 0x01000000),
    .memory (.unmapPage 0xD1000018 0x01001000), .memory (.unmapPage 0xD1000018 0x01002000)]

set_option maxRecDepth 100000 in
/-- With one page of memory the old byte is overwritten. -/
theorem old_byte_hidden : ∃ state final state' final',
    Prepared smallImage pageElf 0 none 0x1000 0xD1000048 state final ∧
    Prepared smallImage pageElf 0 none 0x1000 0xD1000048 state' final' ∧
    leftover state.memory final.memory 0xD1000048 0x01000006 = some 0 ∧
    leftover state'.memory final'.memory 0xD1000048 0x01000006 = some 7 ∧
    ∀ x < 2 ^ 32, userRead final.memory 0xD1000048 x = userRead final'.memory 0xD1000048 x := by
  have clean : (smallAccessRun twoSpaces).bind (smallReads pageElf) =
      some (0, elfLoaderOk, 0, some 0, some 0) := by
    decide +kernel
  have used : (smallAccessRun pageGivenUp).bind (smallReads pageElf) =
      some (0, elfLoaderOk, 0, some 7, some 0) := by
    decide +kernel
  have whole : pageElf.WholePages := by decide +kernel
  obtain ⟨state, final, prepared, held, -⟩ := small_reads_prepared clean
  obtain ⟨state', final', prepared', held', -⟩ := small_reads_prepared used
  exact ⟨state, final, state', final', prepared, prepared', held, held',
    (fresh_memory_determined pageElf 0 none smallImage smallImage 0x1000 0x1000 0xD1000048 0xD1000048
      state state' final final' prepared prepared').1 whole⟩

set_option maxRecDepth 100000 in
/-- A process reads the byte that another process left. -/
theorem old_byte_read : ∃ state final state' final',
    Prepared smallImage tinyElf 0 none 0x1000 0xD1000048 state final ∧
    Prepared smallImage tinyElf 0 none 0x1000 0xD1000048 state' final' ∧
    userRead final.memory 0xD1000048 0x01000006 = some 0 ∧
    userRead final'.memory 0xD1000048 0x01000006 = some 7 := by
  have clean : (smallAccessRun twoSpaces).bind (smallReads tinyElf) =
      some (0, elfLoaderOk, 0, some 0, some 0) := by
    decide +kernel
  have used : (smallAccessRun pageGivenUp).bind (smallReads tinyElf) =
      some (0, elfLoaderOk, 0, some 7, some 7) := by
    decide +kernel
  obtain ⟨state, final, prepared, -, reads⟩ := small_reads_prepared clean
  obtain ⟨state', final', prepared', -, reads'⟩ := small_reads_prepared used
  exact ⟨state, final, state', final', prepared, prepared', reads, reads'⟩

end Toyix.Loader
