import Toyix.Paging.Spaces

/-!
# ELF images and their validation

The format of `include/kernel/elf32.h` and the checks of `kernel/elf_loader.c`. Headers are decoded
from the bytes of the image; fields that no check and no load uses (section headers, `p_paddr`,
`p_flags`, `p_align`, `e_flags`) are left out. All sums are modulo `2 ^ 32`.

A segment that passes the checks lies in the image and in user memory, and none of the sums made
with it wraps.
-/

namespace Toyix.Loader

open Library Paging Pmm

/-! ## The format -/

def eiMag0 : Nat := 0
def eiMag1 : Nat := 1
def eiMag2 : Nat := 2
def eiMag3 : Nat := 3
def eiClass : Nat := 4
def eiData : Nat := 5
def eiVersion : Nat := 6
def elfMag0 : UInt8 := 0x7F
def elfMag1 : UInt8 := 0x45
def elfMag2 : UInt8 := 0x4C
def elfMag3 : UInt8 := 0x46
def elfClass32 : UInt8 := 1
def elfData2Lsb : UInt8 := 1
def evCurrent : Nat := 1
def etExec : Nat := 2
def em386 : Nat := 3
def ptLoad : Nat := 1
def sizeofEhdr : Nat := 52
def sizeofPhdr : Nat := 32

/-- The fields of `elf32_ehdr_t` that are used. -/
structure ElfHeader where
  eIdent : Nat → UInt8
  eType : Nat
  eMachine : Nat
  eVersion : Nat
  eEntry : Nat
  ePhoff : Nat
  eEhsize : Nat
  ePhentsize : Nat
  ePhnum : Nat

/-- The fields of `elf32_phdr_t` that are used. -/
structure ProgramHeader where
  pType : Nat
  pOffset : Nat
  pVaddr : Nat
  pFilesz : Nat
  pMemsz : Nat

/-- The bytes of an image, where they are, and how many there are. -/
structure ElfImage where
  address : Nat
  size : Nat
  bytes : Memory
  placed : address + size ≤ 2 ^ 32
  bounded : size < 2 ^ 32

/-- A field of two bytes. -/
def half (bytes : Memory) (offset : Nat) : Nat :=
  (bytes.byte offset).toNat + 2 ^ 8 * (bytes.byte (offset + 1)).toNat

def ElfHeader.ofBytes (bytes : Memory) : ElfHeader where
  eIdent := bytes.byte
  eType := half bytes 16
  eMachine := half bytes 18
  eVersion := bytes.read32 20
  eEntry := bytes.read32 24
  ePhoff := bytes.read32 28
  eEhsize := half bytes 40
  ePhentsize := half bytes 42
  ePhnum := half bytes 44

def ProgramHeader.ofBytes (bytes : Memory) : ProgramHeader where
  pType := bytes.read32 0
  pOffset := bytes.read32 4
  pVaddr := bytes.read32 8
  pFilesz := bytes.read32 16
  pMemsz := bytes.read32 20

namespace ElfImage

/-- A part of the image. -/
def part (image : ElfImage) (offset size : Nat) : Memory :=
  ⟨fun i => if i < size then image.bytes.byte (offset + i) else 0⟩

theorem part_byte (image : ElfImage) {offset size i : Nat} (inside : i < size) :
    (image.part offset size).byte i = image.bytes.byte (offset + i) := if_pos inside

def header (image : ElfImage) : ElfHeader := ElfHeader.ofBytes (image.part 0 sizeofEhdr)

/-- The program header at an offset. -/
def programHeader (image : ElfImage) (offset : Nat) : ProgramHeader :=
  ProgramHeader.ofBytes (image.part offset sizeofPhdr)

/-- The offset of `program_headers[i]`. -/
def programHeaderOffset (image : ElfImage) (i : Nat) : Nat := image.header.ePhoff + sizeofPhdr * i

end ElfImage

/-! ## The checks -/

def elfLoaderOk : Int := 0
def elfLoaderErrInvalid : Int := -1
def elfLoaderErrUnsupported : Int := -2
def elfLoaderErrTooLarge : Int := -3
def elfLoaderErrLoadFailed : Int := -4
def elfUserStackTop : Nat := 0x70000000
def elfUserStackSize : Nat := 4096
def elfMaxImageMemory : Nat := 1024 * 1024

def alignDownPage (value : Nat) : Nat := value &&& (2 ^ 32 - pmmPageSize)

def alignUpPage (value : Nat) : Nat :=
  ((value + pmmPageSize - 1) % 2 ^ 32) &&& (2 ^ 32 - pmmPageSize)

def rangeOverflows (start size : Nat) : Prop := (start + size) % 2 ^ 32 < start

instance (start size : Nat) : Decidable (rangeOverflows start size) :=
  inferInstanceAs (Decidable (_ < _))

/-- `validate_elf_header` after the size of the image has been checked. -/
def checkHeader (header : ElfHeader) (imageSize : Nat) : Int :=
  if header.eIdent eiMag0 ≠ elfMag0 ∨ header.eIdent eiMag1 ≠ elfMag1 ∨
      header.eIdent eiMag2 ≠ elfMag2 ∨ header.eIdent eiMag3 ≠ elfMag3 then elfLoaderErrInvalid
  else if header.eIdent eiClass ≠ elfClass32 then elfLoaderErrUnsupported
  else if header.eIdent eiData ≠ elfData2Lsb then elfLoaderErrUnsupported
  else if (header.eIdent eiVersion).toNat ≠ evCurrent then elfLoaderErrUnsupported
  else if header.eType ≠ etExec then elfLoaderErrUnsupported
  else if header.eMachine ≠ em386 then elfLoaderErrUnsupported
  else if header.eVersion ≠ evCurrent then elfLoaderErrUnsupported
  else if header.eEhsize ≠ sizeofEhdr then elfLoaderErrInvalid
  else if header.ePhoff = 0 ∨ header.ePhnum = 0 then elfLoaderErrInvalid
  else if header.ePhentsize ≠ sizeofPhdr then elfLoaderErrInvalid
  else
    let phdrBytes := header.ePhnum * sizeofPhdr % 2 ^ 32
    if rangeOverflows header.ePhoff phdrBytes then elfLoaderErrInvalid
    else if (header.ePhoff + phdrBytes) % 2 ^ 32 > imageSize then elfLoaderErrInvalid
    else elfLoaderOk

def validateLoadSegment (phdr : ProgramHeader) (imageSize : Nat) : Int :=
  if phdr.pType ≠ ptLoad then elfLoaderOk
  else if phdr.pMemsz = 0 then elfLoaderErrInvalid
  else if phdr.pFilesz > phdr.pMemsz then elfLoaderErrInvalid
  else if rangeOverflows phdr.pOffset phdr.pFilesz then elfLoaderErrInvalid
  else if (phdr.pOffset + phdr.pFilesz) % 2 ^ 32 > imageSize then elfLoaderErrInvalid
  else if rangeOverflows phdr.pVaddr phdr.pMemsz then elfLoaderErrInvalid
  else if phdr.pMemsz > elfMaxImageMemory then elfLoaderErrTooLarge
  else if phdr.pVaddr < addressSpaceUserBase ∨ phdr.pVaddr ≥ addressSpaceUserTop then
    elfLoaderErrInvalid
  else if (phdr.pVaddr + phdr.pMemsz) % 2 ^ 32 > addressSpaceUserTop then elfLoaderErrInvalid
  else if phdr.pVaddr &&& (pmmPageSize - 1) ≠ 0 then elfLoaderErrUnsupported
  else elfLoaderOk

/-! ## What the checks establish -/

/-- A check that refuses was not met. -/
theorem passes_check {condition : Prop} [Decidable condition] {code rest : Int}
    (refuses : code ≠ elfLoaderOk) :
    (if condition then code else rest) = elfLoaderOk ↔ ¬ condition ∧ rest = elfLoaderOk := by
  by_cases holds : condition
  · simp [holds, refuses]
  · simp [holds]

theorem invalid_refuses : elfLoaderErrInvalid ≠ elfLoaderOk := by decide

theorem unsupported_refuses : elfLoaderErrUnsupported ≠ elfLoaderOk := by decide

theorem too_large_refuses : elfLoaderErrTooLarge ≠ elfLoaderOk := by decide

theorem phnum_lt (image : ElfImage) : image.header.ePhnum < 2 ^ 16 := by
  have low := ((image.part 0 sizeofEhdr).byte 44).toNat_lt
  have high := ((image.part 0 sizeofEhdr).byte (44 + 1)).toNat_lt
  simp only [ElfImage.header, ElfHeader.ofBytes, half]
  omega

/-- A header that passes leaves room for the program headers in the image. -/
theorem check_header_ok {image : ElfImage} (passed : checkHeader image.header image.size = elfLoaderOk) :
    image.header.ePhoff + sizeofPhdr * image.header.ePhnum ≤ image.size := by
  have offsetBounded : image.header.ePhoff < 2 ^ 32 := Memory.read32_lt _ _
  have countBounded := phnum_lt image
  simp only [checkHeader, passes_check invalid_refuses, passes_check unsupported_refuses] at passed
  obtain ⟨-, -, -, -, -, -, -, -, -, -, noWrap, inside, -⟩ := passed
  simp only [rangeOverflows, sizeofPhdr] at noWrap inside ⊢
  omega

/-- What is known of a `PT_LOAD` segment that passes: none of the sums made with it wraps, its
contents are in the image and its pages are in user memory. -/
structure SegmentSound (phdr : ProgramHeader) (imageSize : Nat) : Prop where
  notEmpty : 0 < phdr.pMemsz
  fits : phdr.pFilesz ≤ phdr.pMemsz
  short : phdr.pMemsz ≤ elfMaxImageMemory
  fileSum : (phdr.pOffset + phdr.pFilesz) % 2 ^ 32 = phdr.pOffset + phdr.pFilesz
  inImage : phdr.pOffset + phdr.pFilesz ≤ imageSize
  memorySum : (phdr.pVaddr + phdr.pMemsz) % 2 ^ 32 = phdr.pVaddr + phdr.pMemsz
  bssSum : (phdr.pVaddr + phdr.pFilesz) % 2 ^ 32 = phdr.pVaddr + phdr.pFilesz
  low : addressSpaceUserBase ≤ phdr.pVaddr
  high : phdr.pVaddr + phdr.pMemsz ≤ addressSpaceUserTop
  aligned : phdr.pVaddr % 4096 = 0
  start : alignDownPage phdr.pVaddr = phdr.pVaddr
  roundingSum : (phdr.pVaddr + phdr.pMemsz + pmmPageSize - 1) % 2 ^ 32 =
    phdr.pVaddr + phdr.pMemsz + pmmPageSize - 1
  rounded : alignUpPage (phdr.pVaddr + phdr.pMemsz) = (phdr.pVaddr + phdr.pMemsz + 4095) / 4096 * 4096

theorem align_up_page_eq {value : Nat} (bounded : value ≤ 0xFFFFF000) :
    alignUpPage value = (value + 4095) / 4096 * 4096 := by
  have small : (value + pmmPageSize - 1) % 2 ^ 32 = value + 4095 := by
    simp only [pmmPageSize]
    omega
  rw [alignUpPage, small]
  exact land_high_mask (value + 4095) 12 (by omega) (by decide)

/-- A program header consists of words. -/
structure WordFields (phdr : ProgramHeader) : Prop where
  offset : phdr.pOffset < 2 ^ 32
  vaddr : phdr.pVaddr < 2 ^ 32
  filesz : phdr.pFilesz < 2 ^ 32
  memsz : phdr.pMemsz < 2 ^ 32

theorem program_header_words (image : ElfImage) (offset : Nat) :
    WordFields (image.programHeader offset) :=
  ⟨Memory.read32_lt _ _, Memory.read32_lt _ _, Memory.read32_lt _ _, Memory.read32_lt _ _⟩

/-- The checks of a segment establish all of `SegmentSound`. -/
theorem validate_load_segment_ok {phdr : ProgramHeader} {imageSize : Nat} (words : WordFields phdr)
    (passed : validateLoadSegment phdr imageSize = elfLoaderOk) (isLoad : phdr.pType = ptLoad) :
    SegmentSound phdr imageSize := by
  obtain ⟨offsetBounded, vaddrBounded, fileBounded, memoryBounded⟩ := words
  rw [validateLoadSegment, if_neg (not_not.mpr isLoad)] at passed
  simp only [passes_check invalid_refuses, passes_check unsupported_refuses,
    passes_check too_large_refuses] at passed
  obtain ⟨notEmpty, fits, fileFits, inImage, memoryFits, short, inRange, high, aligned, -⟩ := passed
  simp only [rangeOverflows, addressSpaceUserTop, addressSpaceUserBase, elfMaxImageMemory] at *
  have pageAligned : phdr.pVaddr % 4096 = 0 := by
    have masked : phdr.pVaddr &&& (pmmPageSize - 1) = phdr.pVaddr % 4096 :=
      Nat.and_two_pow_sub_one_eq_mod phdr.pVaddr 12
    omega
  have start : alignDownPage phdr.pVaddr = phdr.pVaddr / 4096 * 4096 :=
    land_high_mask phdr.pVaddr 12 vaddrBounded (by decide)
  have rounded := align_up_page_eq (show phdr.pVaddr + phdr.pMemsz ≤ 0xFFFFF000 by omega)
  constructor
  case rounded => exact rounded
  case roundingSum =>
    simp only [pmmPageSize]
    omega
  case short =>
    simp only [elfMaxImageMemory]
    omega
  case low =>
    simp only [addressSpaceUserBase]
    omega
  case high =>
    simp only [addressSpaceUserTop]
    omega
  all_goals omega

end Toyix.Loader
