import Toyix.Loader.MemoryImage

/-!
# Rejected images

An image that `elf_load_process` finds unacceptable should leave the process as it was. The checks
of the headers come before anything is mapped, but the entry point is checked last. An image that
passes the other checks and whose pieces can all be loaded, with an entry point outside of user
memory, is rejected with its pages mapped and its stack set. If the pieces cannot be loaded, the
answer is another one.
-/

namespace Toyix.Loader

open Library Paging Processes Pmm

variable {image : Image} {held : Set Nat} {process object : Nat} {state final : Loading}
  {elf : ElfImage}

/-- The codes for an image that is itself unacceptable. -/
def ImageRejected (rc : Int) : Prop :=
  rc = elfLoaderErrInvalid ∨ rc = elfLoaderErrUnsupported ∨ rc = elfLoaderErrTooLarge

instance (rc : Int) : Decidable (ImageRejected rc) := inferInstanceAs (Decidable (_ ∨ _ ∨ _))

/-- The process, its memory and the set of free frames are as before. -/
structure Unchanged (process object : Nat) (state final : Loading) : Prop where
  pages : userPages final.memory object = userPages state.memory object
  bytes : userByte final.memory object = userByte state.memory object
  record : final.memory.spaces object = state.memory.spaces object
  fields : final.table.objects process = state.table.objects process
  frames : ∀ frame, FrameUsed final.memory.machine.pmm frame ↔
    FrameUsed state.memory.machine.pmm frame

theorem Unchanged.noted (process object : Nat) (state : Loading) (touched : List Access) :
    Unchanged process object state { state with touched := touched } :=
  ⟨rfl, rfl, rfl, rfl, fun _ => Iff.rfl⟩

/-- A rejected image changes nothing. -/
def RejectionLaw (process object : Nat) (elf : ElfImage) (state : Loading) : Prop :=
  ∀ rc final, elfLoadProcess process elf state = .done rc final → ImageRejected rc →
    Unchanged process object state final

/-- The stack and the segments cannot be loaded: a page for them is mapped already, or two of them
need it, or there are fewer free frames below a limit than a number for each page. -/
def CannotLoad (object : Nat) (elf : ElfImage) (memory : MemorySystem) (limit each : Nat) : Prop :=
  (∃ page ∈ elf.pages, (userPages memory object page).isSome) ∨ ¬ elf.pages.Nodup ∨
    freeBelow limit memory.machine.pmm < each * elf.pages.length

/-! ## What can be loaded -/

/-- The pages of a piece. -/
theorem covers_page {piece : Piece UInt8} {page : Nat}
    (member : page ∈ piecePages piece) :
    piece.Covers page ∧ page % 4096 = piece.first % 4096 := by
  obtain ⟨i, inside, rfl⟩ := List.mem_map.mp member
  have inside := List.mem_range.mp inside
  exact ⟨⟨Nat.le_add_right _ _, by omega⟩, by omega⟩

/-- The mapped pages of a process, one piece for each. -/
theorem mapped_assembled {system : MemorySystem} {record : AddressSpace}
    (sound : RecordSound system object record) :
    Assembled (record.userMappings.map fun mapping => (⟨mapping.virtualAddr, 4096, fun _ => none⟩ : Piece UInt8))
      (userByte system object) := by
  have aligned {mapping : Mapping} (member : mapping ∈ record.userMappings) :
      mapping.virtualAddr % 4096 = 0 :=
    ((listed_iff_reachable sound).mp (List.mem_map_of_mem member)).1
  constructor
  · intro x
    have reach : (userByte system object x).isSome = (userByte system object (x / 4096 * 4096)).isSome := by
      rw [user_byte_is_some, user_byte_is_some, Nat.mul_div_cancel _ (by decide)]
    rw [reach]
    constructor
    · intro isSome
      obtain ⟨mapping, member, isPage⟩ := List.mem_map.mp ((listed_iff_reachable sound).mpr
        ⟨Nat.mul_mod_left _ _, isSome⟩)
      refine ⟨_, List.mem_map_of_mem member, ?_, ?_⟩
      · show mapping.virtualAddr ≤ x
        omega
      · show x < mapping.virtualAddr + 4096
        omega
    · rintro ⟨piece, isPiece, low, high⟩
      obtain ⟨mapping, member, rfl⟩ := List.mem_map.mp isPiece
      have low : mapping.virtualAddr ≤ x := low
      have high : x < mapping.virtualAddr + 4096 := high
      have isAligned := aligned member
      have isPage : x / 4096 * 4096 = mapping.virtualAddr := by omega
      rw [isPage]
      exact ((listed_iff_reachable sound).mp (List.mem_map_of_mem member)).2
  · rw [List.pairwise_map]
    have once := List.pairwise_map.mp sound.once
    refine (List.Pairwise.and_mem.mp once).imp ?_
    rintro mapping other ⟨isMapping, isOther, different⟩ x ⟨low, high⟩ ⟨low', high'⟩
    have isAligned := aligned isMapping
    have isAligned' := aligned isOther
    simp only at low high low' high'
    omega
  · intro piece isPiece x value _ known
    obtain ⟨mapping, -, rfl⟩ := List.mem_map.mp isPiece
    cases known

/-- Pages with free frames are no more than there are free frames. -/
theorem pages_le_free {memory : MemorySystem} {pmm : PmmState} (inv : Accounted image held memory)
    {pages : List Nat} (nodup : pages.Nodup)
    (each : ∀ page ∈ pages, ∃ frame, userPages memory object page = some frame ∧ ¬ FrameUsed pmm frame) :
    pages.length ≤ freeBelow pmmMaxFrames pmm := by
  rw [← List.toFinset_card_of_nodup nodup]
  refine Finset.card_le_card_of_injOn (fun page => (userPages memory object page).getD 0 / 4096) ?_ ?_
  · intro page member
    obtain ⟨frame, owns, free⟩ := each page (List.mem_toFinset.mp member)
    obtain ⟨aligned, low, high⟩ := (inv.owned.permitted owns).1
    simp only [owns, Option.getD_some]
    refine Finset.mem_coe.mpr (Finset.mem_filter.mpr ⟨Memory.mem_clearBits.mpr ⟨?_, ?_⟩, ?_⟩)
    · simp only [pmmMaxFrames]
      omega
    · exact Bool.eq_false_iff.mpr free
    · omega
  · intro page member other otherMember same
    obtain ⟨frame, owns, -⟩ := each page (List.mem_toFinset.mp member)
    obtain ⟨otherFrame, otherOwns, -⟩ := each other (List.mem_toFinset.mp otherMember)
    simp only [owns, otherOwns, Option.getD_some] at same
    have aligned := (inv.owned.permitted owns).aligned
    have otherAligned := (inv.owned.permitted otherOwns).aligned
    obtain rfl : frame = otherFrame := by omega
    exact (Owner.page.inj (inv.owned.sound.single owns otherOwns)).2

/-- Where the pieces were loaded they could be. -/
theorem PiecesDone.can_load (pieces : PiecesDone image held process object elf state elfLoaderOk final)
    (hosted : Hosted image held process object state) (elfSound : elf.Sound) :
    ¬ CannotLoad object elf state.memory pmmMaxFrames 1 := by
  obtain ⟨record, isSpace⟩ := Option.isSome_iff_exists.mp hosted.live
  have sound := hosted.guarded.records object record isSpace
  have assembled := pieces.assembled rfl _ (mapped_assembled sound)
  obtain ⟨-, apart, across⟩ := List.pairwise_append.mp assembled.apart
  have covered {page : Nat} (member : page ∈ elf.pages) :
      ∃ piece ∈ elf.pieces, piece.Covers page ∧ page % 4096 = 0 := by
    obtain ⟨piece, isPiece, inPiece⟩ := List.mem_flatMap.mp member
    obtain ⟨covers, sameOffset⟩ := covers_page inPiece
    exact ⟨piece, isPiece, covers, sameOffset.trans (pieces_inside elfSound isPiece).1⟩
  have unmapped {page : Nat} (member : page ∈ elf.pages) : userPages state.memory object page = none := by
    obtain ⟨piece, isPiece, covers, -⟩ := covered member
    cases owns : userPages state.memory object page with
    | none => rfl
    | some frame =>
      obtain ⟨mapping, isMapping, rfl, -⟩ := (sound.listed page frame).mpr owns
      exact absurd covers (across _ (List.mem_map_of_mem isMapping) piece isPiece _
        ⟨Nat.le_refl _, Nat.lt_add_of_pos_right (Nat.succ_pos 4095)⟩)
  have nodup : elf.pages.Nodup := by
    refine List.nodup_flatMap.mpr ⟨?_, ?_⟩
    · intro piece _
      refine List.nodup_range.map ?_
      intro i j same
      simp only at same
      omega
    · refine apart.imp ?_
      intro piece other disjoint page inPiece inOther
      exact disjoint page (covers_page inPiece).1 (covers_page inOther).1
  rintro (⟨page, member, isMapped⟩ | twice | few)
  · rw [unmapped member] at isMapped
    cases isMapped
  · exact twice nodup
  · rw [Nat.one_mul] at few
    have each (page : Nat) (member : page ∈ elf.pages) : ∃ frame,
        userPages final.memory object page = some frame ∧
          ¬ FrameUsed state.memory.machine.pmm frame := by
      obtain ⟨piece, isPiece, covers, aligned⟩ := covered member
      have reachable := (assembled.covered page).mpr ⟨piece, List.mem_append_right _ isPiece, covers⟩
      rw [user_byte_is_some, show page / 4096 * 4096 = page by omega] at reachable
      obtain ⟨frame, owns⟩ := Option.isSome_iff_exists.mp reachable
      refine ⟨frame, owns, ((pieces.writes rfl).pages page frame owns).resolve_left ?_⟩
      rw [unmapped member]
      exact (Option.some_ne_none frame).symm
    exact absurd few (Nat.not_lt.mpr (pages_le_free pieces.hosted.guarded.toAccounted nodup each))

/-- There is room for a sound image that can be loaded with four frames for each page. -/
theorem ElfImage.Sound.room_of_pages (sound : elf.Sound) {memory : MemorySystem}
    (can : ¬ CannotLoad object elf memory 4096 4) : Room object elf.pages memory := by
  obtain ⟨unmapped, rest⟩ := not_or.mp can
  obtain ⟨once, enough⟩ := not_or.mp rest
  have range (page : Nat) (member : page ∈ elf.pages) : PageRange (some object) page := by
    obtain ⟨piece, isPiece, inPiece⟩ := List.mem_flatMap.mp member
    obtain ⟨⟨low, high⟩, sameOffset⟩ := covers_page inPiece
    obtain ⟨aligned, -, base, top⟩ := pieces_inside sound isPiece
    simp only [addressSpaceUserBase, addressSpaceUserTop] at base top
    exact ⟨sameOffset.trans aligned, by omega, by omega⟩
  refine ⟨range, ?_, not_not.mp once, Nat.not_lt.mp enough⟩
  intro page member
  have isPage := Nat.div_mul_cancel (Nat.dvd_of_mod_eq_zero (range page member).aligned)
  rw [← Option.not_isSome_iff_eq_none, user_byte_is_some, isPage]
  exact fun isMapped => unmapped ⟨page, member, isMapped⟩

/-! ## The law -/

/-- The small image with its entry at `0x00800000`. -/
def lowEntryElf : ElfImage where
  address := 0x104000
  size := 88
  bytes := ⟨fun i => (tinyBytes.set 26 0x80 |>.set 27 0).getD i 0⟩
  placed := tinyElf.placed
  bounded := tinyElf.bounded

end Toyix.Loader
