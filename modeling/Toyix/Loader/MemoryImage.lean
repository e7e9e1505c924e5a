import Toyix.Loader.Filling
import Toyix.Loader.Load

/-!
# The memory image of a loaded process

A process whose image was loaded can reach its stack page and the pages of its segments. These are
the pieces from which its view of memory is assembled: each segment shows its bytes from the image
and zeroes behind them, and the stack is zero. Only the rest of the last page of a segment is not
known.
-/

namespace Toyix.Loader

open Library Paging Processes Pmm

variable {image : Image} {held : Set Nat} {process object : Nat} {state middle final : Loading}
  {elf : ElfImage} {phdr : ProgramHeader} {virtualAddr sizeBytes : Nat}

/-! ## Pieces -/

/-- The page below the top of the stack. -/
def stackPiece : Piece UInt8 where
  first := elfUserStackTop - elfUserStackSize
  size := elfUserStackSize
  known := fun _ => some 0

/-- The pages of a segment. -/
def segmentPiece (elf : ElfImage) (phdr : ProgramHeader) : Piece UInt8 where
  first := phdr.pVaddr
  size := (phdr.pMemsz + 4095) / 4096 * 4096
  known := fun x =>
    if x < phdr.pVaddr + phdr.pFilesz then
      some (elf.bytes.byte (phdr.pOffset + (x - phdr.pVaddr)))
    else if x < phdr.pVaddr + phdr.pMemsz then some 0
    else none

/-- The program headers from the `i`-th on that are to be loaded. -/
def ElfImage.loadHeadersFrom (elf : ElfImage) (i remaining : Nat) : List ProgramHeader :=
  ((List.range' i remaining).map fun j => elf.programHeader (elf.programHeaderOffset j)).filter
    fun phdr => phdr.pType = ptLoad

/-- The program headers that are to be loaded. -/
def ElfImage.loadHeaders (elf : ElfImage) : List ProgramHeader :=
  elf.loadHeadersFrom 0 elf.header.ePhnum

/-- The pieces of a loaded process. -/
def ElfImage.pieces (elf : ElfImage) : List (Piece UInt8) :=
  stackPiece :: elf.loadHeaders.map (segmentPiece elf)

/-- The pages of a piece. -/
def piecePages (piece : Piece UInt8) : List Nat := pagesFrom piece.first (piece.size / 4096)

/-- The pages of the stack and of the segments. -/
def ElfImage.pages (elf : ElfImage) : List Nat := elf.pieces.flatMap piecePages

theorem pieces_eq (elf : ElfImage) : elf.pieces =
    [stackPiece] ++ (elf.loadHeadersFrom 0 elf.header.ePhnum).map (segmentPiece elf) := rfl

/-! ## Growing -/

/-- What was noted as mapped between two states was not reachable before and is reachable after. -/
def Tracked (object : Nat) (state final : Loading) : Prop :=
  ∀ first size, .mapped first size ∈ final.touched → .mapped first size ∈ state.touched ∨
    ∀ x, first ≤ x → x < first + size →
      userByte state.memory object x = none ∧ (userByte final.memory object x).isSome

/-- The process is hosted as before, and what it could reach is unchanged. -/
structure Grown (image : Image) (held : Set Nat) (process object : Nat) (state final : Loading) :
    Prop where
  hosted : Hosted image held process object final
  apart : Apart object state final
  kept : ∀ x, (userByte state.memory object x).isSome →
    userByte final.memory object x = userByte state.memory object x
  tracked : Tracked object state final

theorem Grown.refl (hosted : Hosted image held process object state) :
    Grown image held process object state state :=
  ⟨hosted, Apart.refl object state, fun _ _ => rfl, fun _ _ member => Or.inl member⟩

/-- Reading the image. -/
theorem Grown.noted (hosted : Hosted image held process object state) {more : List Access}
    (reads : ∀ access ∈ more, access.InImage elf) :
    Grown image held process object state { state with touched := state.touched ++ more } := by
  refine ⟨hosted.noted _, (Apart.refl object state).noted _, fun _ _ => rfl, ?_⟩
  intro first size member
  rcases List.mem_append.mp member with earlier | isNew
  · exact Or.inl earlier
  · obtain ⟨offset, count, isRead, -⟩ := reads _ isNew
    cases isRead

/-- Tracking composes along views that grow. -/
theorem Tracked.trans (first : Tracked object state middle) (second : Tracked object middle final)
    (grew : ∀ x, (userByte state.memory object x).isSome → (userByte middle.memory object x).isSome)
    (grows : ∀ x, (userByte middle.memory object x).isSome → (userByte final.memory object x).isSome) :
    Tracked object state final := by
  intro start size member
  rcases second start size member with earlier | fresh
  · rcases first start size earlier with before | fresh
    · exact Or.inl before
    · refine Or.inr fun x low high => ⟨(fresh x low high).1, grows x (fresh x low high).2⟩
  · refine Or.inr fun x low high => ⟨?_, (fresh x low high).2⟩
    have absent := (fresh x low high).1
    rw [← Option.not_isSome_iff_eq_none] at absent ⊢
    exact fun present => absent (grew x present)

theorem Grown.grows (grown : Grown image held process object state final) {x : Nat}
    (reachable : (userByte state.memory object x).isSome) :
    (userByte final.memory object x).isSome := by
  rw [grown.kept x reachable]
  exact reachable

theorem Grown.trans (first : Grown image held process object state middle)
    (second : Grown image held process object middle final) :
    Grown image held process object state final := by
  refine ⟨second.hosted, first.apart.trans second.apart, ?_,
    first.tracked.trans second.tracked (fun _ => first.grows) fun _ => second.grows⟩
  intro x reachable
  rw [second.kept x (first.grows reachable), first.kept x reachable]

/-- A region was added. -/
theorem RegionPart.grown {result : Int}
    (mapped : RegionPart image held process object virtualAddr sizeBytes state result final)
    (isWhole : sizeBytes % 4096 = 0) : Grown image held process object state final := by
  obtain ⟨count, -, added, complete⟩ := mapped.part
  refine ⟨mapped.hosted, mapped.apart, fun x reachable => added.grows reachable, ?_⟩
  intro first size member
  rcases mapped.noted first size member with earlier | ⟨isZero, rfl, rfl⟩
  · exact Or.inl earlier
  · refine Or.inr fun x low high => added.added x low ?_
    rw [complete isZero]
    omega

/-- Mapping a region stores nothing. -/
theorem RegionPart.writes {result : Int}
    (mapped : RegionPart image held process object virtualAddr sizeBytes state result final)
    (written : Nat → Prop) : WritesOnly object written state.memory final.memory := by
  obtain ⟨count, -, added, -⟩ := mapped.part
  exact added.writes.weaken fun _ => False.elim

/-- The whole region was added. -/
theorem RegionPart.whole
    (mapped : RegionPart image held process object virtualAddr sizeBytes state 0 final)
    (isWhole : sizeBytes % 4096 = 0) :
    (∀ x, virtualAddr ≤ x → x < virtualAddr + sizeBytes →
      userByte state.memory object x = none ∧ (userByte final.memory object x).isSome) ∧
    ∀ x, ¬ (virtualAddr ≤ x ∧ x < virtualAddr + sizeBytes) →
      userByte final.memory object x = userByte state.memory object x := by
  obtain ⟨count, -, added, complete⟩ := mapped.part
  have size : 4096 * count = sizeBytes := by
    rw [complete rfl]
    omega
  constructor
  · intro x low high
    exact added.added x low (by omega)
  · intro x outside
    exact added.kept object x fun both => outside ⟨both.2.1, by omega⟩

/-- A store reaches what was reachable. -/
theorem Filled.reachable {first count : Nat} {source : Nat → UInt8}
    (filled : Filled image held process object first count source state final) {x : Nat}
    (reachable : (userByte state.memory object x).isSome) :
    (userByte final.memory object x).isSome := by
  rw [filled.reach]
  exact reachable

/-- A store to addresses that were added since is growth. -/
theorem Filled.grown {first count : Nat} {source : Nat → UInt8}
    (grown : Grown image held process object state middle)
    (filled : Filled image held process object first count source middle final)
    (fresh : ∀ x, first ≤ x → x < first + count → userByte state.memory object x = none) :
    Grown image held process object state final := by
  refine ⟨filled.hosted, grown.apart.trans filled.apart, ?_,
    grown.tracked.trans (fun _ _ member => Or.inl (filled.noted _ _ member)) (fun _ => grown.grows)
      fun _ => filled.reachable⟩
  intro x reachable
  rw [filled.view, storeView, if_neg]
  · exact grown.kept x reachable
  · rintro ⟨low, high⟩
    rw [fresh x low high] at reachable
    cases reachable

/-! ## One segment -/

/-- The addresses of a segment that the loader stores to. -/
def ProgramHeader.Stores (phdr : ProgramHeader) (x : Nat) : Prop :=
  phdr.pVaddr ≤ x ∧ x < phdr.pVaddr + phdr.pMemsz

/-- What `load_segment` leaves. -/
structure SegmentDone (image : Image) (held : Set Nat) (process object : Nat) (elf : ElfImage)
    (phdr : ProgramHeader) (state : Loading) (result : Int) (final : Loading) : Prop
    extends Grown image held process object state final where
  answer : result = elfLoaderOk ∨ result = elfLoaderErrLoadFailed
  fresh : result = elfLoaderOk → ∀ x, (segmentPiece elf phdr).Covers x →
    userByte state.memory object x = none ∧ (userByte final.memory object x).isSome
  outside : result = elfLoaderOk → ∀ x, ¬ (segmentPiece elf phdr).Covers x →
    userByte final.memory object x = userByte state.memory object x
  shown : result = elfLoaderOk → ∀ x byte, (segmentPiece elf phdr).Covers x →
    (segmentPiece elf phdr).known x = some byte → userByte final.memory object x = some byte
  writes : result = elfLoaderOk → WritesOnly object phdr.Stores state.memory final.memory
  room : ∀ pages, Room object (piecePages (segmentPiece elf phdr) ++ pages) state.memory →
    result = elfLoaderOk ∧ Room object pages final.memory

/-- A segment that was loaded is a new piece. -/
theorem SegmentDone.assembled {pieces : List (Piece UInt8)}
    (loaded : SegmentDone image held process object elf phdr state elfLoaderOk final)
    (assembled : Assembled pieces (userByte state.memory object)) :
    Assembled (pieces ++ [segmentPiece elf phdr]) (userByte final.memory object) :=
  assembled.add (fun x covers => (loaded.fresh rfl x covers).1)
    (fun x covers => (loaded.fresh rfl x covers).2) (loaded.outside rfl) (loaded.shown rfl)

theorem load_failed_not_ok : elfLoaderErrLoadFailed ≠ elfLoaderOk := by decide

/-- A segment that was not loaded. -/
theorem Grown.segment_failed (grown : Grown image held process object state final)
    (noRoom : ∀ pages, ¬ Room object (piecePages (segmentPiece elf phdr) ++ pages) state.memory) :
    SegmentDone image held process object elf phdr state elfLoaderErrLoadFailed final :=
  ⟨grown, Or.inr rfl, fun isOk => absurd isOk load_failed_not_ok,
    fun isOk => absurd isOk load_failed_not_ok, fun isOk => absurd isOk load_failed_not_ok,
    fun isOk => absurd isOk load_failed_not_ok, fun pages room => absurd room (noRoom pages)⟩

/-- The size that `load_segment` maps. -/
theorem SegmentSound.runtime_size {imageSize : Nat} (sound : SegmentSound phdr imageSize) :
    (alignUpPage ((phdr.pVaddr + phdr.pMemsz) % 2 ^ 32) + 2 ^ 32 - alignDownPage phdr.pVaddr) %
      2 ^ 32 = (phdr.pMemsz + 4095) / 4096 * 4096 := by
  have aligned := sound.aligned
  have high := sound.high
  have low := sound.low
  simp only [addressSpaceUserTop, addressSpaceUserBase] at high low
  rw [sound.memorySum, sound.rounded, sound.start]
  omega

/-- The bytes of a segment that are not in the image are zeroed. -/
theorem zero_bss_run (hosted : Hosted image held process object state)
    {imageSize : Nat} (sound : SegmentSound phdr imageSize)
    (reachable : ∀ x, phdr.pVaddr ≤ x → x < phdr.pVaddr + phdr.pMemsz →
      (userByte state.memory object x).isSome) :
    ∃ final, zeroBss process phdr state = .done elfLoaderOk final ∧
      Filled image held process object (phdr.pVaddr + phdr.pFilesz) (phdr.pMemsz - phdr.pFilesz)
        (fun _ => 0) state final := by
  have fits := sound.fits
  unfold zeroBss
  rw [ite_run]
  by_cases more : phdr.pMemsz > phdr.pFilesz
  · obtain ⟨final, ran, filled⟩ := zero_user_init_run hosted
      (show ∀ x, phdr.pVaddr + phdr.pFilesz ≤ x →
        x < phdr.pVaddr + phdr.pFilesz + (phdr.pMemsz - phdr.pFilesz) →
        (userByte state.memory object x).isSome from
          fun x low high => reachable x (by omega) (by omega))
    rw [if_pos more, sound.bssSum, bind_done ran]
    exact ⟨final, rfl, filled⟩
  · have none : phdr.pMemsz - phdr.pFilesz = 0 := by omega
    rw [if_neg more, none]
    exact ⟨state, rfl, Filled.nothing hosted _ _⟩

/-- `load_segment` for a segment that passed the checks.

Proof: after the region is mapped, all its addresses are new. The copy and the zeroes stay in the
region and meet where the bytes of the image end. -/
theorem load_segment_sat (hosted : Hosted image held process object state)
    (sound : SegmentSound phdr elf.size) (notNull : elf.address ≠ 0) :
    (loadSegment process elf phdr state).Sat
      (SegmentDone image held process object elf phdr state) := by
  have aligned := sound.aligned
  have fits := sound.fits
  have low := sound.low
  have high := sound.high
  simp only [addressSpaceUserTop, addressSpaceUserBase] at high low
  have wholePages : (phdr.pMemsz + 4095) / 4096 * 4096 % 4096 = 0 := Nat.mul_mod_left _ _
  unfold loadSegment
  rw [sound.runtime_size, sound.start]
  refine sat_bind (map_user_region_sat hosted aligned wholePages (by omega)) ?_
  intro result mapped part
  rw [ite_run]
  by_cases failed : result ≠ 0
  · rw [if_pos failed]
    exact (part.grown wholePages).segment_failed fun pages room => failed (part.room pages room).1
  obtain rfl : result = 0 := not_not.mp failed
  obtain ⟨added, others⟩ := part.whole wholePages
  have inside : ∀ x, phdr.pVaddr ≤ x → x < phdr.pVaddr + phdr.pMemsz →
      x < phdr.pVaddr + (phdr.pMemsz + 4095) / 4096 * 4096 := by
    intro x _ below
    omega
  rw [if_neg failed, bind_done (show readImage elf phdr.pOffset phdr.pFilesz mapped = _ from rfl)]
  have source : phdr.pFilesz ≠ 0 → (elf.address + phdr.pOffset) % 2 ^ 32 ≠ 0 := by
    have placed := elf.placed
    have inImage := sound.inImage
    omega
  obtain ⟨copied, copyRan, copy⟩ := copy_to_user_init_run
    (part.hosted.noted (mapped.touched ++ [.read phdr.pOffset phdr.pFilesz]))
    (elf.part phdr.pOffset phdr.pFilesz).byte
    (show ∀ x, phdr.pVaddr ≤ x → x < phdr.pVaddr + phdr.pFilesz →
      (userByte mapped.memory object x).isSome from
        fun x start below => (added x start (inside x start (by omega))).2) source
  obtain ⟨zeroed, zeroRan, zero⟩ := zero_bss_run copy.hosted sound
    fun x start below => copy.reachable (added x start (inside x start below)).2
  rw [bind_done copyRan, ite_run, if_neg (not_not.mpr rfl), zeroRan, sat_done]
  have copyView : userByte copied.memory object = storeView (userByte mapped.memory object)
      phdr.pVaddr phdr.pFilesz (elf.part phdr.pOffset phdr.pFilesz).byte := copy.view
  have reads : ∀ access ∈ [Access.read phdr.pOffset phdr.pFilesz], access.InImage elf := by
    intro access member
    exact ⟨_, _, List.mem_singleton.mp member, sound.inImage⟩
  have noted : Grown image held process object state
      { mapped with touched := mapped.touched ++ [.read phdr.pOffset phdr.pFilesz] } :=
    (part.grown wholePages).trans (Grown.noted part.hosted reads)
  have copyGrown := copy.grown noted fun x start below =>
    (added x start (inside x start (by omega))).1
  have zeroGrown := zero.grown copyGrown fun x start below =>
    (added x (by omega) (inside x (by omega) (by omega))).1
  have copyWrites : WritesOnly object phdr.Stores mapped.memory copied.memory :=
    copy.writes.weaken fun x inFile => ⟨inFile.1, by omega⟩
  have zeroWrites : WritesOnly object phdr.Stores copied.memory zeroed.memory :=
    zero.writes.weaken fun x inBss => ⟨by omega, by omega⟩
  refine ⟨zeroGrown, Or.inl rfl, ?_, ?_, ?_, fun _ =>
    ((part.writes phdr.Stores).trans copyWrites).trans zeroWrites,
    fun pages room => ⟨rfl, zero.room (copy.room (part.room pages room).2)⟩⟩
  · rintro - x ⟨start, below⟩
    obtain ⟨absent, present⟩ := added x start below
    exact ⟨absent, zero.reachable (copy.reachable present)⟩
  · rintro - x outside
    have notCovered : ¬ (phdr.pVaddr ≤ x ∧ x < phdr.pVaddr + (phdr.pMemsz + 4095) / 4096 * 4096) :=
      outside
    rw [zero.view, storeView, if_neg (by omega), copyView, storeView, if_neg (by omega),
      others x notCovered]
  · rintro - x byte ⟨start, -⟩ known
    have start : phdr.pVaddr ≤ x := start
    simp only [segmentPiece] at known
    rw [zero.view, storeView, copyView, storeView]
    by_cases inFile : x < phdr.pVaddr + phdr.pFilesz
    · rw [if_pos inFile] at known
      rw [if_neg (by omega), if_pos ⟨start, inFile⟩, elf.part_byte (by omega)]
      exact known
    · rw [if_neg inFile] at known
      split at known
      · rw [if_pos (by omega)]
        exact known
      · cases known

/-! ## All segments -/

theorem load_headers_cons (elf : ElfImage) (i remaining : Nat) :
    elf.loadHeadersFrom i (remaining + 1) =
      if (elf.programHeader (elf.programHeaderOffset i)).pType = ptLoad then
        elf.programHeader (elf.programHeaderOffset i) :: elf.loadHeadersFrom (i + 1) remaining
      else elf.loadHeadersFrom (i + 1) remaining := by
  simp only [ElfImage.loadHeadersFrom, List.range'_succ, List.map_cons, List.filter_cons]
  by_cases isLoad : (elf.programHeader (elf.programHeaderOffset i)).pType = ptLoad
  · simp [isLoad]
  · simp [isLoad]

/-- What the second loop of `elf_load_process` leaves. -/
structure SegmentsDone (image : Image) (held : Set Nat) (process object : Nat) (elf : ElfImage)
    (headers : List ProgramHeader) (state : Loading) (rc : Int) (final : Loading) : Prop
    extends Grown image held process object state final where
  answer : rc = elfLoaderOk ∨ rc = elfLoaderErrLoadFailed
  loaded : rc = elfLoaderOk → ∀ pieces, Assembled pieces (userByte state.memory object) →
    Assembled (pieces ++ headers.map (segmentPiece elf)) (userByte final.memory object)
  writes : rc = elfLoaderOk →
    WritesOnly object (fun x => ∃ phdr ∈ headers, phdr.Stores x) state.memory final.memory
  room : Room object ((headers.map (segmentPiece elf)).flatMap piecePages) state.memory →
    rc = elfLoaderOk

/-- The second loop of `elf_load_process`.

Proof: by induction on the number of headers left. -/
theorem load_segments_sat (sound : elf.Sound)
    (remaining i : Nat) (inside : i + remaining ≤ elf.header.ePhnum)
    (hosted : Hosted image held process object state) :
    (loadSegments process elf remaining i state).Sat
      (SegmentsDone image held process object elf (elf.loadHeadersFrom i remaining) state) := by
  induction remaining generalizing i state with
  | zero =>
    refine ⟨Grown.refl hosted, Or.inl rfl, ?_, fun _ =>
      WritesOnly.refl hosted.guarded.toAccounted object _, fun _ => rfl⟩
    intro _ pieces assembled
    rw [show elf.loadHeadersFrom i 0 = [] from rfl, List.map_nil, List.append_nil]
    exact assembled
  | succ remaining ih =>
    obtain ⟨more, reads, readRan⟩ := read_program_header_answers sound.room
      (show i < elf.header.ePhnum by omega)
    have segment := sound.segments i (by omega)
    have headers := load_headers_cons elf i remaining
    unfold loadSegments
    rw [bind_done (readRan state)]
    have noted : Grown image held process object state
        { state with touched := state.touched ++ more } := Grown.noted hosted reads
    have sameMemory : ({ state with touched := state.touched ++ more } : Loading).memory =
      state.memory := rfl
    generalize { state with touched := state.touched ++ more } = start at noted sameMemory
    generalize elf.programHeader (elf.programHeaderOffset i) = phdr at segment headers
    rw [ite_run, headers]
    by_cases isLoad : phdr.pType = ptLoad
    · rw [if_neg (not_not.mpr isLoad), if_pos isLoad]
      refine sat_bind (load_segment_sat noted.hosted (segment isLoad) sound.notNull) ?_
      intro rc middle done
      rw [ite_run]
      by_cases failed : rc ≠ elfLoaderOk
      · rw [if_pos failed]
        exact ⟨noted.trans done.toGrown, done.answer, fun isOk => absurd isOk failed,
          fun isOk => absurd isOk failed, fun room => (done.room _ (sameMemory ▸ room)).1⟩
      · obtain rfl : rc = elfLoaderOk := not_not.mp failed
        rw [if_neg failed]
        refine (ih (i + 1) (by omega) done.hosted).mono ?_
        intro rest final restDone
        refine ⟨(noted.trans done.toGrown).trans restDone.toGrown, restDone.answer, ?_, ?_,
          fun room => restDone.room (done.room _ (sameMemory ▸ room)).2⟩
        · intro isOk pieces assembled
          rw [← sameMemory] at assembled
          have all := restDone.loaded isOk _ (done.assembled assembled)
          rw [List.append_assoc] at all
          exact all
        · intro isOk
          have first := (done.writes rfl).weaken fun x stores =>
            (⟨phdr, List.mem_cons_self, stores⟩ :
              ∃ other ∈ phdr :: elf.loadHeadersFrom (i + 1) remaining, other.Stores x)
          have rest := (restDone.writes isOk).weaken fun x => fun ⟨other, member, stores⟩ =>
            (⟨other, List.mem_cons_of_mem _ member, stores⟩ :
              ∃ other ∈ phdr :: elf.loadHeadersFrom (i + 1) remaining, other.Stores x)
          rw [← sameMemory]
          exact first.trans rest
    · rw [if_pos isLoad, if_neg isLoad]
      refine (ih (i + 1) (by omega) noted.hosted).mono ?_
      intro rc final done
      refine ⟨noted.trans done.toGrown, done.answer, ?_, ?_, fun room => done.room (sameMemory ▸ room)⟩
      · intro isOk pieces assembled
        rw [← sameMemory] at assembled
        exact done.loaded isOk pieces assembled
      · intro isOk
        rw [← sameMemory]
        exact done.writes isOk

/-! ## The stack and the entry -/

/-- The process with its stack. -/
def withStack (fields : Process) : Process :=
  { fields with
    userStackBase := elfUserStackTop - elfUserStackSize
    userStackTop := elfUserStackTop
    userInitialEsp := elfUserStackTop }

@[simp] theorem with_stack_magic (fields : Process) : (withStack fields).magic = fields.magic := by
  cases fields
  rfl

@[simp] theorem with_stack_space (fields : Process) :
    (withStack fields).addressSpace = fields.addressSpace := by
  cases fields
  rfl

/-- The process with its entry point. -/
def withEntry (entry : Nat) (fields : Process) : Process := { fields with userEntry := entry }

/-- Fields other than the space and the magic number may change. -/
theorem Hosted.changed (hosted : Hosted image held process object state) (update : Process → Process)
    (sameMagic : ∀ fields, (update fields).magic = fields.magic)
    (sameSpace : ∀ fields, (update fields).addressSpace = fields.addressSpace) :
    Hosted image held process object { state with table := state.table.change process update } := by
  refine ⟨hosted.notNull, ?_, ?_, hosted.live, hosted.guarded⟩
  · show (Function.update state.table.objects process _ process).magic = _
    rw [Function.update_self, sameMagic]
    exact hosted.magic
  · show (Function.update state.table.objects process _ process).addressSpace = _
    rw [Function.update_self, sameSpace]
    exact hosted.space

/-- What `loadStack` leaves. -/
inductive StackDone (image : Image) (held : Set Nat) (process object : Nat) (state : Loading) :
    Int → Loading → Prop where
  | failed {final : Loading} (grown : Grown image held process object state final)
      (noRoom : ∀ pages, ¬ Room object (piecePages stackPiece ++ pages) state.memory) :
      StackDone image held process object state elfLoaderErrLoadFailed final
  | done {filled : Loading} (grown : Grown image held process object state filled)
      (fresh : ∀ x, stackPiece.Covers x →
        userByte state.memory object x = none ∧ (userByte filled.memory object x).isSome)
      (assembled : ∀ pieces, Assembled pieces (userByte state.memory object) →
        Assembled (pieces ++ [stackPiece]) (userByte filled.memory object))
      (writes : WritesOnly object stackPiece.Covers state.memory filled.memory)
      (room : ∀ pages, Room object (piecePages stackPiece ++ pages) state.memory →
        Room object pages filled.memory) :
      StackDone image held process object state elfLoaderOk
        { filled with table := filled.table.change process withStack }

/-- The stack is a new piece. -/
theorem load_stack_sat (hosted : Hosted image held process object state) :
    (loadStack process state).Sat (StackDone image held process object state) := by
  unfold loadStack
  refine sat_bind (map_user_region_sat hosted (by decide) (by decide) (by decide)) ?_
  intro result mapped part
  rw [ite_run]
  by_cases failed : result ≠ 0
  · rw [if_pos failed]
    exact .failed (part.grown (by decide)) fun pages room => failed (part.room pages room).1
  obtain rfl : result = 0 := not_not.mp failed
  obtain ⟨added, others⟩ := part.whole (by decide)
  rw [if_neg failed]
  obtain ⟨zeroed, zeroRan, zero⟩ := zero_user_init_run part.hosted
    fun x low high => (added x low high).2
  have stackRan : onTable (processSetUserStack process (elfUserStackTop - elfUserStackSize)
      elfUserStackTop) zeroed = .done ⟨⟩
        { zeroed with table := zeroed.table.change process withStack } := by
    apply on_table_done
    unfold processSetUserStack
    rw [bind_done zero.hosted.validated_table]
    rfl
  rw [bind_done zeroRan, ite_run, if_neg (not_not.mpr rfl),
    bind_done stackRan, pure_apply, sat_done]
  have fresh : ∀ x, stackPiece.Covers x →
      userByte state.memory object x = none ∧ (userByte zeroed.memory object x).isSome := by
    rintro x ⟨low, high⟩
    obtain ⟨absent, present⟩ := added x low high
    exact ⟨absent, zero.reachable present⟩
  refine .done (zero.grown (part.grown (by decide)) fun x low high => (added x low high).1) fresh ?_
    ((part.writes stackPiece.Covers).trans zero.writes)
    fun pages room => zero.room (part.room pages room).2
  intro pieces assembled
  refine assembled.add (fun x covers => (fresh x covers).1) (fun x covers => (fresh x covers).2) ?_ ?_
  · intro x outside
    have notStack : ¬ (elfUserStackTop - elfUserStackSize ≤ x ∧
      x < elfUserStackTop - elfUserStackSize + elfUserStackSize) := outside
    rw [zero.view, storeView, if_neg notStack, others x notStack]
  · rintro x byte ⟨low, high⟩ known
    rw [zero.view, storeView, if_pos ⟨low, high⟩]
    exact known

/-! ## The whole image -/

/-- An entry point in user memory. -/
def EntryInRange (entry : Nat) : Prop := addressSpaceUserBase ≤ entry ∧ entry < addressSpaceUserTop

/-- The addresses that the loader stores to. -/
def ElfImage.Stores (elf : ElfImage) (x : Nat) : Prop :=
  stackPiece.Covers x ∨ ∃ phdr ∈ elf.loadHeaders, phdr.Stores x

/-- What loading the stack and the segments leaves. -/
structure PiecesDone (image : Image) (held : Set Nat) (process object : Nat) (elf : ElfImage)
    (state : Loading) (rc : Int) (final : Loading) : Prop where
  hosted : Hosted image held process object final
  elsewhere : Elsewhere object state.memory final.memory
  kept : ∀ x, (userByte state.memory object x).isSome →
    userByte final.memory object x = userByte state.memory object x
  tracked : Tracked object state final
  answer : rc = elfLoaderOk ∨ rc = elfLoaderErrLoadFailed
  stack : rc = elfLoaderOk → ∀ x, stackPiece.Covers x →
    userByte state.memory object x = none ∧ (userByte final.memory object x).isSome
  assembled : rc = elfLoaderOk → ∀ pieces, Assembled pieces (userByte state.memory object) →
    Assembled (pieces ++ elf.pieces) (userByte final.memory object)
  writes : rc = elfLoaderOk → WritesOnly object elf.Stores state.memory final.memory
  table : ∃ update : Process → Process, final.table = state.table.change process update ∧
    (rc = elfLoaderOk → update = withStack)
  room : Room object elf.pages state.memory → rc = elfLoaderOk

/-- What `elf_load_process` leaves when the checks have passed. -/
inductive ImageDone (image : Image) (held : Set Nat) (process object : Nat) (elf : ElfImage)
    (state : Loading) : Int → Loading → Prop where
  | failed {final : Loading}
      (pieces : PiecesDone image held process object elf state elfLoaderErrLoadFailed final) :
      ImageDone image held process object elf state elfLoaderErrLoadFailed final
  | badEntry {final : Loading} (outside : ¬ EntryInRange elf.header.eEntry)
      (pieces : PiecesDone image held process object elf state elfLoaderOk final) :
      ImageDone image held process object elf state elfLoaderErrInvalid final
  | done {loaded : Loading} (inside : EntryInRange elf.header.eEntry)
      (pieces : PiecesDone image held process object elf state elfLoaderOk loaded) :
      ImageDone image held process object elf state elfLoaderOk { loaded with
        table := loaded.table.change process (withEntry elf.header.eEntry) }

theorem change_change (table : ProcessTable) (process : Nat) (first second : Process → Process) :
    (table.change process first).change process second =
      table.change process fun fields => second (first fields) := by
  simp only [ProcessTable.change, Function.update_self, Function.update_idem]

theorem change_id (table : ProcessTable) (process : Nat) : table.change process id = table := by
  simp only [ProcessTable.change, id_eq, Function.update_eq_self]

/-- The end of `elf_load_process`. -/
theorem set_entry_run (hosted : Hosted image held process object state) (entry : Nat) :
    (¬ EntryInRange entry ∧ setEntry process entry state = .done elfLoaderErrInvalid state) ∨
      (EntryInRange entry ∧ setEntry process entry state = .done elfLoaderOk { state with
        table := state.table.change process (withEntry entry) }) := by
  unfold setEntry
  rw [ite_run]
  by_cases outside : entry < addressSpaceUserBase ∨ entry ≥ addressSpaceUserTop
  · rw [if_pos outside]
    refine Or.inl ⟨?_, rfl⟩
    rintro ⟨low, high⟩
    omega
  · rw [if_neg outside]
    have ran : onTable (processSetUserEntry process entry) state = .done ⟨⟩ { state with
        table := state.table.change process (withEntry entry) } := by
      apply on_table_done
      unfold processSetUserEntry
      rw [bind_done hosted.validated_table]
      rfl
    rw [bind_done ran]
    exact Or.inr ⟨⟨by omega, by omega⟩, rfl⟩

/-- The stack and then the segments. -/
theorem load_pieces_sat (hosted : Hosted image held process object state)
    (sound : elf.Sound) :
    (loadPieces process elf elf.header state).Sat
      (PiecesDone image held process object elf state) := by
  unfold loadPieces
  refine sat_bind (load_stack_sat hosted) ?_
  rintro rc next (⟨grown, noRoom⟩ | @⟨filled, grown, fresh, stack, stackWrites, left⟩)
  · rw [ite_run, if_pos load_failed_not_ok]
    refine ⟨grown.hosted, grown.apart.toElsewhere, grown.kept, grown.tracked, Or.inr rfl,
      fun isOk => absurd isOk load_failed_not_ok, fun isOk => absurd isOk load_failed_not_ok,
      fun isOk => absurd isOk load_failed_not_ok, ⟨id, ?_, fun isOk => absurd isOk load_failed_not_ok⟩,
      fun room => absurd room (noRoom _)⟩
    rw [change_id]
    exact grown.apart.table
  rw [ite_run, if_neg (not_not.mpr rfl)]
  have stackHosted := grown.hosted.changed withStack with_stack_magic with_stack_space
  refine (load_segments_sat sound elf.header.ePhnum 0 (Nat.zero_add _).le
    stackHosted).mono ?_
  intro rc loaded done
  have later : ∀ x, (userByte filled.memory object x).isSome →
      userByte loaded.memory object x = userByte filled.memory object x := done.kept
  have tracked : Tracked object state loaded :=
    grown.tracked.trans done.tracked (fun _ => grown.grows) fun x => done.grows
  refine ⟨done.hosted, grown.apart.toElsewhere.trans done.apart.toElsewhere, ?_, tracked, done.answer,
    ?_, ?_, ?_, ⟨withStack, ?_, fun _ => rfl⟩, fun room => done.room (left _ room)⟩
  · intro x reachable
    have same := grown.kept x reachable
    rw [later x (by rw [same]; exact reachable), same]
  · intro _ x covers
    obtain ⟨absent, present⟩ := fresh x covers
    rw [later x present]
    exact ⟨absent, present⟩
  · intro isOk pieces before
    have all := done.loaded isOk _ (stack pieces before)
    rw [List.append_assoc] at all
    rw [pieces_eq]
    exact all
  · intro isOk
    have first : WritesOnly object elf.Stores state.memory filled.memory :=
      stackWrites.weaken fun x covers => Or.inl covers
    have rest : WritesOnly object elf.Stores filled.memory loaded.memory :=
      (done.writes isOk).weaken fun x stores => Or.inr stores
    exact first.trans rest
  · rw [done.apart.table, ← grown.apart.table]

/-- `elf_load_process` after the checks. -/
theorem load_image_sat (hosted : Hosted image held process object state)
    (sound : elf.Sound) :
    (loadImage process elf elf.header state).Sat (ImageDone image held process object elf state) := by
  unfold loadImage
  refine sat_bind (load_pieces_sat hosted sound) ?_
  intro rc loaded pieces
  rw [ite_run]
  by_cases failed : rc ≠ elfLoaderOk
  · obtain rfl := pieces.answer.resolve_left failed
    rw [if_pos failed]
    exact .failed pieces
  · obtain rfl : rc = elfLoaderOk := not_not.mp failed
    rw [if_neg failed]
    rcases set_entry_run pieces.hosted elf.header.eEntry with ⟨outside, ran⟩ | ⟨inside, ran⟩
    · rw [ran]
      exact .badEntry outside pieces
    · rw [ran]
      exact .done inside pieces

/-- What `elf_load_process` leaves: it refused the image and changed nothing, or it went on to load
it. -/
inductive LoadDone (image : Image) (held : Set Nat) (process object : Nat) (elf : ElfImage)
    (state : Loading) : Int → Loading → Prop where
  | refused {rc : Int} {more : List Access} (reads : ∀ access ∈ more, access.InImage elf)
      (notOk : rc ≠ elfLoaderOk) (unsound : ¬ elf.Sound) : LoadDone image held process object elf state rc
        { state with touched := state.touched ++ more }
  | loaded {rc : Int} {final : Loading} {more : List Access}
      (reads : ∀ access ∈ more, access.InImage elf) (sound : elf.Sound)
      (done : ImageDone image held process object elf
        { state with touched := state.touched ++ more } rc final) :
      LoadDone image held process object elf state rc final

theorem elf_load_process_sat (hosted : Hosted image held process object state)
    (elf : ElfImage) : (elfLoadProcess process elf state).Sat
      (LoadDone image held process object elf state) := by
  have refused : ∀ rc more, (∀ access ∈ more, access.InImage elf) → rc ≠ elfLoaderOk → ¬ elf.Sound →
      LoadDone image held process object elf state rc { state with touched := state.touched ++ more } :=
    fun _ _ reads notOk unsound => .refused reads notOk unsound
  unfold elfLoadProcess
  rw [ite_run]
  by_cases null : process = 0 ∨ elf.address = 0
  · rw [if_pos null]
    have unchanged := refused elfLoaderErrInvalid [] (fun _ absent => by cases absent) invalid_refuses
      fun sound => null.elim hosted.notNull sound.notNull
    rw [List.append_nil] at unchanged
    exact unchanged
  · obtain ⟨rc, ⟨more, reads, checked⟩, passed⟩ := check_image_answers elf
    rw [if_neg null, bind_done (checked state), ite_run]
    by_cases notOk : rc ≠ elfLoaderOk
    · rw [if_pos notOk]
      exact refused rc more reads notOk (mt passed.mpr notOk)
    · obtain rfl : rc = elfLoaderOk := not_not.mp notOk
      have sound := passed.mp rfl
      obtain ⟨headerMore, headerReads, headerRan⟩ := read_header_answers sound.large
      rw [if_neg notOk, bind_done (headerRan _)]
      refine (load_image_sat (hosted.noted _) sound).mono ?_
      intro rc final done
      rw [List.append_assoc] at done
      refine LoadDone.loaded ?_ sound done
      intro access member
      rcases List.mem_append.mp member with earlier | later
      · exact reads access earlier
      · exact headerReads access later

/-! ## The memory image -/

/-- The memory and the fields of a process after its image was loaded. -/
structure LoadedImage (elf : ElfImage) (object : Nat) (memory : MemorySystem) (fields : Process) :
    Prop where
  reachable : ∀ x, (userByte memory object x).isSome ↔ ∃ piece ∈ elf.pieces, piece.Covers x
  listed : ∃ record, memory.spaces object = some record ∧
    ∀ page, page ∈ record.userMappings.map Mapping.virtualAddr ↔
      page % 4096 = 0 ∧ ∃ piece ∈ elf.pieces, piece.Covers page
  apart : elf.pieces.Pairwise fun piece other => ∀ x, piece.Covers x → ¬ other.Covers x
  inside : ∀ piece ∈ elf.pieces, piece.first % 4096 = 0 ∧ piece.size % 4096 = 0 ∧
    addressSpaceUserBase ≤ piece.first ∧ piece.first + piece.size ≤ addressSpaceUserTop
  bytes : ∀ phdr ∈ elf.loadHeaders, ∀ k < phdr.pMemsz,
    userByte memory object (phdr.pVaddr + k) =
      some (if k < phdr.pFilesz then elf.bytes.byte (phdr.pOffset + k) else 0)
  stack : ∀ k < 4096, userByte memory object (0x6FFFF000 + k) = some 0
  userEntry : fields.userEntry = elf.header.eEntry
  userStackBase : fields.userStackBase = 0x6FFFF000
  userStackTop : fields.userStackTop = 0x70000000
  userInitialEsp : fields.userInitialEsp = 0x70000000

/-- A process without pages reaches nothing. -/
theorem fresh_view {system : MemorySystem} (inv : Accounted image held system) {record : AddressSpace}
    (isSpace : system.spaces object = some record) (fresh : record.userMappings = []) (x : Nat) :
    userByte system object x = none := by
  have sound := inv.records object record isSpace
  cases owns : userPages system object (x / 4096 * 4096) with
  | none =>
    rw [userByte, owns]
    rfl
  | some frame =>
    obtain ⟨mapping, member, -⟩ := (sound.listed _ frame).mpr owns
    rw [fresh] at member
    cases member

theorem load_headers_sound (sound : elf.Sound) (member : phdr ∈ elf.loadHeaders) :
    SegmentSound phdr elf.size := by
  obtain ⟨isHeader, isLoad⟩ := List.mem_filter.mp member
  obtain ⟨j, inRange, rfl⟩ := List.mem_map.mp isHeader
  obtain ⟨k, below, rfl⟩ := List.mem_range'.mp inRange
  refine sound.segments _ ?_ (of_decide_eq_true isLoad)
  omega

/-- The pieces of a sound image lie in user memory. -/
theorem pieces_inside (sound : elf.Sound) {piece : Piece UInt8} (member : piece ∈ elf.pieces) :
    piece.first % 4096 = 0 ∧ piece.size % 4096 = 0 ∧
      addressSpaceUserBase ≤ piece.first ∧ piece.first + piece.size ≤ addressSpaceUserTop := by
  rcases List.mem_cons.mp member with rfl | isSegment
  · exact ⟨by decide, by decide, by decide, by decide⟩
  · obtain ⟨phdr, isHeader, rfl⟩ := List.mem_map.mp isSegment
    have segment := load_headers_sound sound isHeader
    have aligned := segment.aligned
    have high := segment.high
    simp only [addressSpaceUserTop] at high
    refine ⟨aligned, Nat.mul_mod_left _ _, segment.low, ?_⟩
    show phdr.pVaddr + (phdr.pMemsz + 4095) / 4096 * 4096 ≤ 0xC0000000
    omega

/-- An address of user memory can be reached when its page is in the list of the space. -/
theorem listed_iff_reachable {system : MemorySystem} {record : AddressSpace}
    (sound : RecordSound system object record) {page : Nat} :
    page ∈ record.userMappings.map Mapping.virtualAddr ↔
      page % 4096 = 0 ∧ (userByte system object page).isSome := by
  rw [user_byte_is_some]
  constructor
  · intro member
    obtain ⟨mapping, isMapping, rfl⟩ := List.mem_map.mp member
    have owns := (sound.listed _ _).mp ⟨mapping, isMapping, rfl, rfl⟩
    have aligned := (owned_page_range owns).aligned
    have isPage : mapping.virtualAddr / 4096 * 4096 = mapping.virtualAddr := by omega
    rw [isPage]
    exact ⟨aligned, Option.isSome_iff_exists.mpr ⟨_, owns⟩⟩
  · rintro ⟨aligned, isOwned⟩
    have isPage : page / 4096 * 4096 = page := by omega
    rw [isPage] at isOwned
    obtain ⟨frame, owns⟩ := Option.isSome_iff_exists.mp isOwned
    obtain ⟨mapping, isMapping, isAddr, -⟩ := (sound.listed page frame).mpr owns
    exact List.mem_map.mpr ⟨mapping, isMapping, isAddr⟩

/-- The fields of a process whose image was loaded. -/
theorem PiecesDone.loaded_fields
    (pieces : PiecesDone image held process object elf state elfLoaderOk final) :
    ∃ before, ((final.table.change process (withEntry elf.header.eEntry)).objects process) =
      withEntry elf.header.eEntry (withStack before) := by
  obtain ⟨update, table, isUpdate⟩ := pieces.table
  refine ⟨state.table.objects process, ?_⟩
  rw [table, isUpdate rfl, change_change]
  exact Function.update_self _ _ _

/-- An image that was loaded into a process without pages is its memory image. -/
theorem loaded_image_of_pieces (assembled : Assembled elf.pieces (userByte final.memory object))
    (sound : elf.Sound) (inv : Accounted image held final.memory)
    (live : (final.memory.spaces object).isSome) {fields : Process}
    (isLoaded : ∃ before, fields = withEntry elf.header.eEntry (withStack before)) :
    LoadedImage elf object final.memory fields := by
  obtain ⟨record, isSpace⟩ := Option.isSome_iff_exists.mp live
  have recordSound := inv.records object record isSpace
  obtain ⟨before, rfl⟩ := isLoaded
  constructor
  · exact assembled.covered
  · refine ⟨record, isSpace, ?_⟩
    intro page
    rw [listed_iff_reachable recordSound, assembled.covered]
  · exact assembled.apart
  · intro piece member
    exact pieces_inside sound member
  · intro phdr member k below
    have segment := load_headers_sound sound member
    have isPiece : segmentPiece elf phdr ∈ elf.pieces :=
      List.mem_cons_of_mem _ (List.mem_map_of_mem member)
    refine assembled.shown _ isPiece _ _ ⟨Nat.le_add_right _ _, ?_⟩ ?_
    · show phdr.pVaddr + k < phdr.pVaddr + (phdr.pMemsz + 4095) / 4096 * 4096
      omega
    · simp only [segmentPiece, Nat.add_sub_cancel_left, Nat.add_lt_add_iff_left, below, ↓reduceIte]
      split <;> rfl
  · intro k below
    have isPiece : stackPiece ∈ elf.pieces := List.mem_cons_self
    refine assembled.shown _ isPiece _ _ ⟨?_, ?_⟩ rfl
    · show 0x6FFFF000 ≤ 0x6FFFF000 + k
      omega
    · show 0x6FFFF000 + k < 0x6FFFF000 + 4096
      omega
  · rfl
  · cases before
    rfl
  · cases before
    rfl
  · cases before
    rfl

/-- A successful load has loaded all pieces and set the entry. -/
theorem loaded_pieces (hosted : Hosted image held process object state)
    (loaded : elfLoadProcess process elf state = .done elfLoaderOk final) :
    ∃ touched filled, elf.Sound ∧
      PiecesDone image held process object elf { state with touched := touched } elfLoaderOk filled ∧
      final = { filled with table := filled.table.change process (withEntry elf.header.eEntry) } := by
  have outcome := (elf_load_process_sat hosted elf).of_done loaded
  generalize isCode : elfLoaderOk = rc at outcome
  cases outcome with
  | refused reads notOk => exact absurd isCode.symm notOk
  | loaded reads sound done =>
    cases done with
    | failed pieces => exact absurd isCode.symm load_failed_not_ok
    | badEntry outside pieces => exact absurd isCode.symm invalid_refuses
    | done inside pieces => exact ⟨_, _, sound, pieces, rfl⟩

/-- For every image that `elf_load_process` loads into a process without pages: the process reaches
its stack page and the pages of its segments and nothing else; these ranges do not meet and lie in
user memory; each segment shows its bytes from the image followed by zeroes, the stack is zero, and
the entry and stack fields are those of the image and the stack page. -/
theorem elf_load_process_memory_image (image : Image) (state : Loading)
    (reached : AccessReachable image state.memory) (process object : Nat) (record : AddressSpace)
    (isProcess : process ≠ 0 ∧ (state.table.objects process).magic = processMagic ∧
      (state.table.objects process).addressSpace = object)
    (isSpace : state.memory.spaces object = some record) (fresh : record.userMappings = [])
    (elf : ElfImage) (final : Loading)
    (loaded : elfLoadProcess process elf state = .done elfLoaderOk final) :
    LoadedImage elf object final.memory (final.table.objects process) := by
  have guarded := reachable_guarded reached
  have hosted : Hosted image state.memory.held process object state :=
    ⟨isProcess.1, isProcess.2.1, isProcess.2.2, Option.isSome_iff_exists.mpr ⟨record, isSpace⟩,
      guarded⟩
  obtain ⟨touched, filled, sound, pieces, rfl⟩ := loaded_pieces hosted loaded
  have nothing : Assembled [] (userByte state.memory object) :=
    Assembled.nothing (fresh_view guarded.toAccounted isSpace fresh)
  have assembled : Assembled elf.pieces (userByte filled.memory object) :=
    pieces.assembled rfl [] nothing
  exact loaded_image_of_pieces assembled sound pieces.hosted.guarded.toAccounted pieces.hosted.live
    pieces.loaded_fields

/-! ## A small image -/

/-- An image with one segment: four bytes for `0x01000000`, of six in memory. -/
def tinyBytes : List UInt8 :=
  [0x7F, 0x45, 0x4C, 0x46, 1, 1, 1, 0, 0, 0, 0, 0, 0, 0, 0, 0,
    2, 0, 3, 0, 1, 0, 0, 0, 0, 0, 0, 1, 52, 0, 0, 0, 0, 0, 0, 0, 0, 0, 0, 0, 52, 0, 32, 0, 1, 0,
    0, 0, 0, 0, 0, 0,
    1, 0, 0, 0, 84, 0, 0, 0, 0, 0, 0, 1, 0, 0, 0, 0, 4, 0, 0, 0, 6, 0, 0, 0, 5, 0, 0, 0, 0, 16, 0, 0,
    0xDE, 0xAD, 0xBE, 0xEF]

def tinyElf : ElfImage where
  address := 0x104000
  size := 88
  bytes := ⟨fun i => tinyBytes.getD i 0⟩
  placed := by decide
  bounded := by decide

/-- A table with one process in the first address space of the small machine. -/
def tinyTable : ProcessTable :=
  processInitSystem (fun _ => { Process.cleared with
    magic := processMagic, pid := 1, addressSpace := 0xD1000018 }) ⟨fun _ => 0, fun _ => 0⟩

set_option maxRecDepth 100000 in
/-- The small image is loaded into a new process. -/
theorem tiny_image_loaded : ∃ state final, AccessReachable smallImage state.memory ∧
    elfLoadProcess 0x1000 tinyElf state = .done elfLoaderOk final ∧
    userByte final.memory 0xD1000018 0x01000003 = some 0xEF ∧
    LoadedImage tinyElf 0xD1000018 final.memory (final.table.objects 0x1000) := by
  have completed : (smallAccessRun [.memory .create]).map (fun system =>
      ((system.spaces 0xD1000018).map fun record => record.userMappings.length,
        (elfLoadProcess 0x1000 tinyElf ⟨system, tinyTable, []⟩).result.map
          (Prod.map id fun final => userByte final.memory 0xD1000018 0x01000003))) =
      some (some 0, some (elfLoaderOk, some 0xEF)) := by
    decide +kernel
  obtain ⟨system, reached, facts⟩ := small_access_run_facts completed
  obtain ⟨noPages, loads⟩ := Prod.mk.inj facts
  obtain ⟨record, isSpace, isEmpty⟩ := Option.map_eq_some_iff.mp noPages
  obtain ⟨final, loaded, byte⟩ := done_of_facts loads
  exact ⟨_, final, reached, loaded, byte, elf_load_process_memory_image smallImage
    ⟨system, tinyTable, []⟩ reached 0x1000 0xD1000018 record ⟨by decide, rfl, rfl⟩ isSpace
    (List.eq_nil_of_length_eq_zero isEmpty) tinyElf final loaded⟩

end Toyix.Loader
