import Toyix.Loader.Initial

/-!
# Loading an image

`elf_load_process` of `kernel/elf_loader.c`. The header and all segments are checked first; then the
stack is mapped and zeroed, the segments are mapped, copied and zeroed in the order of their
headers, and the entry point is checked last.

Not modelled are the field `user_code_base`, which nothing reads, the flags computed from `p_flags`,
which are discarded, and console output.
-/

namespace Toyix.Loader

open Library Paging Processes Pmm

variable {elf : ElfImage}

/-! ## Reading the image -/

/-- A part of the image is read. -/
def readImage (image : ElfImage) (offset size : Nat) : LoadProgram Memory := do
  note (.read offset size)
  pure (image.part offset size)

/-- The ELF header. -/
def readHeader (image : ElfImage) : LoadProgram ElfHeader := do
  let bytes ← readImage image 0 sizeofEhdr
  pure (ElfHeader.ofBytes bytes)

/-- The program header `i`. -/
def readProgramHeader (image : ElfImage) (i : Nat) : LoadProgram ProgramHeader := do
  let bytes ← readImage image (image.programHeaderOffset i) sizeofPhdr
  pure (ProgramHeader.ofBytes bytes)

/-- `validate_elf_header`. -/
def validateElfHeader (image : ElfImage) : LoadProgram Int := do
  if image.address = 0 then pure elfLoaderErrInvalid
  else if image.size < sizeofEhdr then pure elfLoaderErrInvalid
  else do
    let header ← readHeader image
    pure (checkHeader header image.size)

/-- The first loop of `elf_load_process`: header `i` and those after it. -/
def validateSegments (image : ElfImage) : Nat → Nat → Bool → LoadProgram (Int × Bool)
  | 0, _, sawLoad => pure (elfLoaderOk, sawLoad)
  | remaining + 1, i, sawLoad => do
    let phdr ← readProgramHeader image i
    let rc := validateLoadSegment phdr image.size
    if rc ≠ elfLoaderOk then pure (rc, sawLoad)
    else validateSegments image remaining (i + 1) (if phdr.pType = ptLoad then true else sawLoad)

/-! ## Loading -/

/-- The end of `load_segment`: the bytes that are not in the image. -/
def zeroBss (process : Nat) (phdr : ProgramHeader) : LoadProgram Int := do
  if phdr.pMemsz > phdr.pFilesz then do
    let result ← processZeroUserInit process ((phdr.pVaddr + phdr.pFilesz) % 2 ^ 32)
      (phdr.pMemsz - phdr.pFilesz)
    if result ≠ 0 then pure elfLoaderErrLoadFailed else pure elfLoaderOk
  else pure elfLoaderOk

/-- `load_segment`. -/
def loadSegment (process : Nat) (image : ElfImage) (phdr : ProgramHeader) : LoadProgram Int := do
  let segmentStart := alignDownPage phdr.pVaddr
  let segmentEnd := alignUpPage ((phdr.pVaddr + phdr.pMemsz) % 2 ^ 32)
  let runtimeSize := (segmentEnd + 2 ^ 32 - segmentStart) % 2 ^ 32
  let result ← processMapUserRegion process segmentStart runtimeSize
  if result ≠ 0 then pure elfLoaderErrLoadFailed
  else do
    let contents ← readImage image phdr.pOffset phdr.pFilesz
    let result ← processCopyToUserInit process phdr.pVaddr ((image.address + phdr.pOffset) % 2 ^ 32)
      phdr.pFilesz contents.byte
    if result ≠ 0 then pure elfLoaderErrLoadFailed else zeroBss process phdr

/-- The second loop of `elf_load_process`. -/
def loadSegments (process : Nat) (image : ElfImage) : Nat → Nat → LoadProgram Int
  | 0, _ => pure elfLoaderOk
  | remaining + 1, i => do
    let phdr ← readProgramHeader image i
    if phdr.pType ≠ ptLoad then loadSegments process image remaining (i + 1)
    else do
      let rc ← loadSegment process image phdr
      if rc ≠ elfLoaderOk then pure rc else loadSegments process image remaining (i + 1)

/-- The stack of `elf_load_process`. -/
def loadStack (process : Nat) : LoadProgram Int := do
  let stackBase := elfUserStackTop - elfUserStackSize
  let result ← processMapUserRegion process stackBase elfUserStackSize
  if result ≠ 0 then pure elfLoaderErrLoadFailed
  else do
    let result ← processZeroUserInit process stackBase elfUserStackSize
    if result ≠ 0 then pure elfLoaderErrLoadFailed
    else do
      onTable (processSetUserStack process stackBase elfUserStackTop)
      pure elfLoaderOk

/-- The end of `elf_load_process`: the entry point. -/
def setEntry (process entry : Nat) : LoadProgram Int := do
  if entry < addressSpaceUserBase ∨ entry ≥ addressSpaceUserTop then pure elfLoaderErrInvalid
  else do
    onTable (processSetUserEntry process entry)
    pure elfLoaderOk

/-- The stack and the segments. -/
def loadPieces (process : Nat) (image : ElfImage) (header : ElfHeader) : LoadProgram Int := do
  let rc ← loadStack process
  if rc ≠ elfLoaderOk then pure rc else loadSegments process image header.ePhnum 0

/-- `elf_load_process` after the checks. -/
def loadImage (process : Nat) (image : ElfImage) (header : ElfHeader) : LoadProgram Int := do
  let rc ← loadPieces process image header
  if rc ≠ elfLoaderOk then pure rc else setEntry process header.eEntry

/-- The checks of `elf_load_process`. -/
def checkImage (image : ElfImage) : LoadProgram Int := do
  let rc ← validateElfHeader image
  if rc ≠ elfLoaderOk then pure rc
  else do
    let header ← readHeader image
    let (rc, sawLoad) ← validateSegments image header.ePhnum 0 false
    if rc ≠ elfLoaderOk then pure rc
    else if sawLoad = false then pure elfLoaderErrInvalid
    else pure elfLoaderOk

/-- `elf_load_process`. -/
def elfLoadProcess (process : Nat) (image : ElfImage) : LoadProgram Int := do
  if process = 0 ∨ image.address = 0 then pure elfLoaderErrInvalid
  else do
    let rc ← checkImage image
    if rc ≠ elfLoaderOk then pure rc
    else do
      let header ← readHeader image
      loadImage process image header

/-! ## The checks

They read the image and change nothing else, so that their answer depends on the image alone. -/

/-- A read inside the image. -/
def Access.InImage (elf : ElfImage) (access : Access) : Prop :=
  ∃ offset size, access = .read offset size ∧ offset + size ≤ elf.size

/-- The program gives an answer that does not depend on the state, and reads the image. -/
def Answers {α : Type} (elf : ElfImage) (program : LoadProgram α) (answer : α) : Prop :=
  ∃ more : List Access, (∀ access ∈ more, access.InImage elf) ∧
    ∀ state, program state = .done answer { state with touched := state.touched ++ more }

/-- An answer that is known. -/
theorem Answers.pure {α : Type} (elf : ElfImage) (answer : α) : Answers elf (Pure.pure answer) answer := by
  refine ⟨[], ?_, ?_⟩
  · intro access absent
    cases absent
  · intro state
    rw [pure_apply, List.append_nil]

/-- The reads of both parts. -/
theorem Answers.bind {α β : Type} {elf : ElfImage} {first : LoadProgram α} {rest : α → LoadProgram β}
    {middle : α} {answer : β} (starts : Answers elf first middle)
    (continues : Answers elf (rest middle) answer) : Answers elf (first >>= rest) answer := by
  obtain ⟨earlier, earlierInside, ranFirst⟩ := starts
  obtain ⟨later, laterInside, ranRest⟩ := continues
  refine ⟨earlier ++ later, ?_, ?_⟩
  · intro access member
    rcases List.mem_append.mp member with isEarlier | isLater
    · exact earlierInside access isEarlier
    · exact laterInside access isLater
  · intro state
    rw [bind_done (ranFirst state), ranRest, List.append_assoc]

/-- A read inside the image. -/
theorem read_image_answers {offset size : Nat} (inside : offset + size ≤ elf.size) :
    Answers elf (readImage elf offset size) (elf.part offset size) := by
  refine ⟨[.read offset size], ?_, fun state => rfl⟩
  intro access member
  exact ⟨offset, size, List.mem_singleton.mp member, inside⟩

/-- An image of that size has a header. -/
theorem read_header_answers (large : sizeofEhdr ≤ elf.size) :
    Answers elf (readHeader elf) elf.header :=
  (read_image_answers (by omega)).bind (Answers.pure elf elf.header)

/-- The program headers have been found to be inside the image. -/
theorem read_program_header_answers {i : Nat}
    (room : elf.header.ePhoff + sizeofPhdr * elf.header.ePhnum ≤ elf.size)
    (inside : i < elf.header.ePhnum) :
    Answers elf (readProgramHeader elf i) (elf.programHeader (elf.programHeaderOffset i)) := by
  refine (read_image_answers ?_).bind (Answers.pure elf _)
  have fits : sizeofPhdr * i + sizeofPhdr ≤ sizeofPhdr * elf.header.ePhnum :=
    Nat.mul_le_mul_left sizeofPhdr inside
  simp only [ElfImage.programHeaderOffset]
  omega

/-- `validate_elf_header` passes exactly the images with a valid header. -/
theorem validate_elf_header_answers (elf : ElfImage) :
    ∃ rc, Answers elf (validateElfHeader elf) rc ∧
      (rc = elfLoaderOk ↔ elf.address ≠ 0 ∧ sizeofEhdr ≤ elf.size ∧
        checkHeader elf.header elf.size = elfLoaderOk) := by
  unfold validateElfHeader
  by_cases null : elf.address = 0
  · rw [if_pos null]
    exact ⟨_, Answers.pure elf _, iff_of_false invalid_refuses fun passed => passed.1 null⟩
  · by_cases short : elf.size < sizeofEhdr
    · rw [if_neg null, if_pos short]
      exact ⟨_, Answers.pure elf _, iff_of_false invalid_refuses fun passed => by omega⟩
    · rw [if_neg null, if_neg short]
      exact ⟨_, (read_header_answers (Nat.le_of_not_lt short)).bind (Answers.pure elf _),
        ⟨fun passed => ⟨null, Nat.le_of_not_lt short, passed⟩, fun passed => passed.2.2⟩⟩

/-- The first loop passes exactly when all segments do, and notes whether there is one to load.

Proof: by induction on the number of headers left. -/
theorem validate_segments_answers
    (room : elf.header.ePhoff + sizeofPhdr * elf.header.ePhnum ≤ elf.size) (remaining i : Nat)
    (sawLoad : Bool) (inside : i + remaining ≤ elf.header.ePhnum) :
    ∃ rc saw, Answers elf (validateSegments elf remaining i sawLoad) (rc, saw) ∧
      (rc = elfLoaderOk ↔ ∀ j, i ≤ j → j < i + remaining →
        validateLoadSegment (elf.programHeader (elf.programHeaderOffset j)) elf.size = elfLoaderOk) ∧
      (rc = elfLoaderOk → (saw = true ↔ sawLoad = true ∨ ∃ j, i ≤ j ∧ j < i + remaining ∧
        (elf.programHeader (elf.programHeaderOffset j)).pType = ptLoad)) := by
  induction remaining generalizing i sawLoad with
  | zero =>
    refine ⟨elfLoaderOk, sawLoad, Answers.pure elf _, iff_of_true rfl ?_, fun _ => ?_⟩
    · intro j low high
      omega
    · refine (or_iff_left ?_).symm
      rintro ⟨j, low, high, -⟩
      omega
  | succ remaining ih =>
    have read := read_program_header_answers room (show i < elf.header.ePhnum by omega)
    generalize isHeader : elf.programHeader (elf.programHeaderOffset i) = phdr at read
    have split (j : Nat) : i ≤ j ∧ j < i + (remaining + 1) ↔
        j = i ∨ i + 1 ≤ j ∧ j < i + 1 + remaining := by omega
    by_cases failed : validateLoadSegment phdr elf.size ≠ elfLoaderOk
    · refine ⟨_, sawLoad, read.bind ?_, iff_of_false failed fun passed => failed ?_,
        fun isOk => absurd isOk failed⟩
      · rw [if_pos failed]
        exact Answers.pure elf _
      · rw [← isHeader]
        exact passed i (Nat.le_refl i) (by omega)
    · obtain ⟨rc, saw, rest, passed, load⟩ := ih (i + 1)
        (if phdr.pType = ptLoad then true else sawLoad) (by omega)
      refine ⟨rc, saw, read.bind ?_, ?_, fun isOk => ?_⟩
      · rw [if_neg failed]
        exact rest
      · simp only [passed, ← and_imp, split, or_imp, forall_and, forall_eq, isHeader, not_not.mp failed,
          true_and]
      · simp only [load isOk, ← and_assoc, split, or_and_right, exists_or, exists_eq_left, isHeader]
        by_cases isLoad : phdr.pType = ptLoad
        · simp only [isLoad, ↓reduceIte, true_or, or_true]
        · simp only [isLoad, ↓reduceIte, false_or]

/-- An image that passes the checks. -/
structure ElfImage.Sound (elf : ElfImage) : Prop where
  notNull : elf.address ≠ 0
  large : sizeofEhdr ≤ elf.size
  header : checkHeader elf.header elf.size = elfLoaderOk
  checked : ∀ j < elf.header.ePhnum,
    validateLoadSegment (elf.programHeader (elf.programHeaderOffset j)) elf.size = elfLoaderOk
  load : ∃ j < elf.header.ePhnum, (elf.programHeader (elf.programHeaderOffset j)).pType = ptLoad

/-- The program headers are inside of it, -/
theorem ElfImage.Sound.room (sound : elf.Sound) :
    elf.header.ePhoff + sizeofPhdr * elf.header.ePhnum ≤ elf.size :=
  check_header_ok sound.header

/-- and so are its segments. -/
theorem ElfImage.Sound.segments (sound : elf.Sound) (j : Nat) (inside : j < elf.header.ePhnum)
    (isLoad : (elf.programHeader (elf.programHeaderOffset j)).pType = ptLoad) :
    SegmentSound (elf.programHeader (elf.programHeaderOffset j)) elf.size :=
  validate_load_segment_ok (program_header_words elf _) (sound.checked j inside) isLoad

/-- The checks of `elf_load_process`. -/
theorem check_image_answers (elf : ElfImage) :
    ∃ rc, Answers elf (checkImage elf) rc ∧ (rc = elfLoaderOk ↔ elf.Sound) := by
  obtain ⟨rc, validated, sound⟩ := validate_elf_header_answers elf
  by_cases refused : rc ≠ elfLoaderOk
  · refine ⟨rc, validated.bind ?_, iff_of_false refused fun whole =>
      refused (sound.mpr ⟨whole.notNull, whole.large, whole.header⟩)⟩
    rw [if_pos refused]
    exact Answers.pure elf rc
  · obtain ⟨notNull, large, header⟩ := sound.mp (not_not.mp refused)
    obtain ⟨segmentsRc, saw, checked, passed, load⟩ := validate_segments_answers (check_header_ok header)
      elf.header.ePhnum 0 false (by omega)
    simp only [Nat.zero_add, Nat.zero_le, true_and, true_implies, Bool.false_eq_true, false_or] at passed load
    have answers : ∀ answer, Answers elf (if segmentsRc ≠ elfLoaderOk then pure segmentsRc
        else if saw = false then pure elfLoaderErrInvalid else pure elfLoaderOk) answer →
        Answers elf (checkImage elf) answer := by
      intro answer tail
      refine validated.bind ?_
      rw [if_neg refused]
      exact (read_header_answers large).bind (checked.bind tail)
    by_cases segmentRefused : segmentsRc ≠ elfLoaderOk
    · refine ⟨segmentsRc, answers _ ?_, iff_of_false segmentRefused fun whole =>
        segmentRefused (passed.mpr whole.checked)⟩
      rw [if_pos segmentRefused]
      exact Answers.pure elf _
    · have load := load (not_not.mp segmentRefused)
      by_cases nothing : saw = false
      · refine ⟨elfLoaderErrInvalid, answers _ ?_, iff_of_false invalid_refuses fun whole => ?_⟩
        · rw [if_neg segmentRefused, if_pos nothing]
          exact Answers.pure elf _
        · exact Bool.noConfusion (nothing.symm.trans (load.mpr whole.load))
      · refine ⟨elfLoaderOk, answers _ ?_, iff_of_true rfl ⟨notNull, large, header,
          passed.mp (not_not.mp segmentRefused), load.mp (Bool.of_not_eq_false nothing)⟩⟩
        rw [if_neg segmentRefused, if_neg nothing]
        exact Answers.pure elf _

end Toyix.Loader
