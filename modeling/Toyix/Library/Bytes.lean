import Mathlib.Tactic.Common
import Toyix.Library.Words

/-!
# Byte-addressed memory

A memory gives every address a byte. Words of 32 bits are stored in four
consecutive bytes, least significant first. Each write law says which bytes
change and that every other byte, and every word that does not meet the written
bytes, is kept.
-/

namespace Library

/-- The byte stored at every address. -/
@[ext] structure Memory where
  byte : Nat → UInt8

namespace Memory

/-- The little-endian word at an address. -/
def read32 (memory : Memory) (address : Nat) : Nat :=
  (memory.byte address).toNat + 2 ^ 8 * (memory.byte (address + 1)).toNat +
    2 ^ 16 * (memory.byte (address + 2)).toNat + 2 ^ 24 * (memory.byte (address + 3)).toNat

/-- Store one byte. -/
def write8 (memory : Memory) (address : Nat) (byte : UInt8) : Memory where
  byte x := if x = address then byte else memory.byte x

/-- Store a word in four bytes, least significant first. -/
def write32 (memory : Memory) (address value : Nat) : Memory where
  byte x :=
    if x = address then UInt8.ofNat value
    else if x = address + 1 then UInt8.ofNat (value / 2 ^ 8)
    else if x = address + 2 then UInt8.ofNat (value / 2 ^ 16)
    else if x = address + 3 then UInt8.ofNat (value / 2 ^ 24)
    else memory.byte x

/-- Store one byte value in `count` consecutive places. -/
def fill (memory : Memory) (address count : Nat) (byte : UInt8) : Memory where
  byte x := if address ≤ x ∧ x < address + count then byte else memory.byte x

/-- Store the first `count` bytes of `source` from `address` on. -/
def copyIn (memory : Memory) (address count : Nat) (source : Nat → UInt8) : Memory where
  byte x := if address ≤ x ∧ x < address + count then source (x - address) else memory.byte x

/-- A stored word fits in 32 bits. -/
theorem read32_lt (memory : Memory) (address : Nat) : memory.read32 address < 2 ^ 32 := by
  have b0 := (memory.byte address).toNat_lt
  have b1 := (memory.byte (address + 1)).toNat_lt
  have b2 := (memory.byte (address + 2)).toNat_lt
  have b3 := (memory.byte (address + 3)).toNat_lt
  simp only [read32]
  omega

/-- A word depends on its four bytes only. -/
theorem read32_congr {memory other : Memory} {address : Nat}
    (same : ∀ x, address ≤ x → x < address + 4 → other.byte x = memory.byte x) :
    other.read32 address = memory.read32 address := by
  simp only [read32, same address (by omega) (by omega), same (address + 1) (by omega) (by omega),
    same (address + 2) (by omega) (by omega), same (address + 3) (by omega) (by omega)]

section Memory

variable (memory : Memory)

/-- A word write changes its four bytes only. -/
theorem write32_apply_outside (address value x : Nat) (outside : x < address ∨ address + 4 ≤ x) :
    (memory.write32 address value).byte x = memory.byte x := by
  have h0 : x ≠ address := by omega
  have h1 : x ≠ address + 1 := by omega
  have h2 : x ≠ address + 2 := by omega
  have h3 : x ≠ address + 3 := by omega
  simp [write32, h0, h1, h2, h3]

/-- A written word is read back. -/
theorem read32_write32 (address value : Nat) (bounded : value < 2 ^ 32) :
    (memory.write32 address value).read32 address = value := by
  simp [read32, write32]
  omega

/-- A word write keeps every word it does not meet. -/
theorem read32_write32_of_disjoint (address value other : Nat)
    (disjoint : other + 4 ≤ address ∨ address + 4 ≤ other) :
    (memory.write32 address value).read32 other = memory.read32 other := by
  apply read32_congr
  intro x low high
  exact write32_apply_outside memory address value x (by omega)

/-- A fill changes its range only. -/
theorem fill_apply_outside (address count : Nat) (byte : UInt8) (x : Nat)
    (outside : x < address ∨ address + count ≤ x) :
    (memory.fill address count byte).byte x = memory.byte x := by
  have missed : ¬ (address ≤ x ∧ x < address + count) := by omega
  simp [fill, missed]

/-- Inside its range a fill leaves its byte. -/
theorem fill_apply_inside (address count : Nat) (byte : UInt8) (x : Nat) (low : address ≤ x)
    (high : x < address + count) : (memory.fill address count byte).byte x = byte := by
  simp [fill, low, high]

/-- A copy changes its range only. -/
theorem copyIn_apply_outside (address count : Nat) (source : Nat → UInt8) (x : Nat)
    (outside : x < address ∨ address + count ≤ x) :
    (memory.copyIn address count source).byte x = memory.byte x := by
  have missed : ¬ (address ≤ x ∧ x < address + count) := by omega
  simp [copyIn, missed]

/-- Inside its range a copy leaves the source. -/
theorem copyIn_apply_inside (address count : Nat) (source : Nat → UInt8) (x : Nat)
    (low : address ≤ x) (high : x < address + count) :
    (memory.copyIn address count source).byte x = source (x - address) := by
  simp [copyIn, low, high]

/-- A fill keeps every word it does not meet. -/
theorem read32_fill_of_disjoint (address count : Nat) (byte : UInt8) (other : Nat)
    (disjoint : other + 4 ≤ address ∨ address + count ≤ other) :
    (memory.fill address count byte).read32 other = memory.read32 other := by
  apply read32_congr
  intro x low high
  exact fill_apply_outside memory address count byte x (by omega)

end Memory

end Memory

end Library
