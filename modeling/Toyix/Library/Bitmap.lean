import Mathlib.Data.Finset.Card
import Toyix.Library.Bytes

/-!
# Bit sets packed into bytes

Bit `index` of a memory is bit `index % 8` of byte `index / 8`. Testing, setting
and clearing use the masks a C program uses; the laws say that setting or clearing
changes exactly the addressed bit. The clear bits below a bound form a finite set, from
which setting removes an element and to which clearing adds one.
-/

namespace Library.Memory

variable {memory : Memory}

/-- The mask of one bit inside its byte. -/
def bitMask (index : Nat) : UInt8 := 1 <<< UInt8.ofNat (index % 8)

def bitTest (memory : Memory) (index : Nat) : Bool :=
  memory.byte (index / 8) &&& bitMask index != 0

def bitSet (memory : Memory) (index : Nat) : Memory :=
  memory.write8 (index / 8) (memory.byte (index / 8) ||| bitMask index)

def bitClear (memory : Memory) (index : Nat) : Memory :=
  memory.write8 (index / 8) (memory.byte (index / 8) &&& ~~~ bitMask index)

/-- A mask has one bit. -/
theorem getLsbD_bitMask (index position : Nat) (small : position < 8) :
    (bitMask index).toBitVec.getLsbD position = decide (position = index % 8) := by
  have finite : ∀ bit position : Fin 8,
      ((1 : UInt8) <<< UInt8.ofNat bit.val).toBitVec.getLsbD position.val =
        decide (position.val = bit.val) := by decide
  exact finite ⟨index % 8, Nat.mod_lt _ (by decide)⟩ ⟨position, small⟩

/-- Testing reads the addressed bit. -/
theorem bitTest_eq (memory : Memory) (index : Nat) :
    memory.bitTest index = (memory.byte (index / 8)).toBitVec.getLsbD (index % 8) := by
  have small : index % 8 < 8 := Nat.mod_lt _ (by decide)
  have masked : (memory.byte (index / 8) &&& bitMask index = 0) ↔
      (memory.byte (index / 8)).toBitVec.getLsbD (index % 8) = false := by
    rw [← UInt8.toBitVec_inj, BitVec.eq_of_getLsbD_eq_iff]
    constructor
    · intro zero
      have bit := zero (index % 8) small
      rw [UInt8.toBitVec_and, BitVec.getLsbD_and, getLsbD_bitMask index _ small] at bit
      simpa using bit
    · intro clear position bounded
      rw [UInt8.toBitVec_and, BitVec.getLsbD_and, getLsbD_bitMask index _ bounded]
      by_cases same : position = index % 8
      · simp [same, clear]
      · simp [same]
  cases bit : (memory.byte (index / 8)).toBitVec.getLsbD (index % 8) with
  | true =>
    have nonzero : memory.byte (index / 8) &&& bitMask index ≠ 0 := by
      intro zero
      simp [bit] at masked
      exact masked zero
    simpa [bitTest] using nonzero
  | false => simpa [bitTest] using masked.mpr bit

/-- Setting a bit changes that bit only. -/
theorem bitTest_bitSet (memory : Memory) (index tested : Nat) :
    (memory.bitSet index).bitTest tested = (decide (tested = index) || memory.bitTest tested) := by
  rw [bitTest_eq, bitTest_eq]
  have small : tested % 8 < 8 := Nat.mod_lt _ (by decide)
  by_cases sameByte : tested / 8 = index / 8
  · have sameBit : tested % 8 = index % 8 ↔ tested = index := by omega
    simp only [bitSet, write8, sameByte, ↓reduceIte, UInt8.toBitVec_or, BitVec.getLsbD_or,
      getLsbD_bitMask index _ small, sameBit]
    exact Bool.or_comm _ _
  · have different : tested ≠ index := by
      rintro rfl
      exact sameByte rfl
    simp [bitSet, write8, sameByte, different]

/-- Clearing a bit changes that bit only. -/
theorem bitTest_bitClear (memory : Memory) (index tested : Nat) :
    (memory.bitClear index).bitTest tested =
      (decide (tested ≠ index) && memory.bitTest tested) := by
  rw [bitTest_eq, bitTest_eq]
  have small : tested % 8 < 8 := Nat.mod_lt _ (by decide)
  by_cases sameByte : tested / 8 = index / 8
  · have sameBit : tested % 8 = index % 8 ↔ tested = index := by omega
    simp only [bitClear, write8, sameByte, ↓reduceIte, UInt8.toBitVec_and, UInt8.toBitVec_not,
      BitVec.getLsbD_and, BitVec.getLsbD_not, small, decide_true, Bool.true_and,
      getLsbD_bitMask index _ small, sameBit, decide_not]
    exact Bool.and_comm _ _
  · have different : tested ≠ index := by
      rintro rfl
      exact sameByte rfl
    simp [bitClear, write8, sameByte, different]

/-- A memory is determined by its bits. -/
theorem ext_of_bits {other : Memory} (same : ∀ index, other.bitTest index = memory.bitTest index) :
    other = memory := by
  apply Memory.ext
  funext address
  rw [← UInt8.toBitVec_inj]
  apply BitVec.eq_of_getLsbD_eq
  intro position small
  have bit := same (8 * address + position)
  have index : (8 * address + position) / 8 = address ∧ (8 * address + position) % 8 = position := by
    omega
  rw [bitTest_eq, bitTest_eq, index.1, index.2] at bit
  exact bit

/-! ## Clear bits -/

/-- The clear bits below a bound. -/
def clearBits (memory : Memory) (bound : Nat) : Finset Nat :=
  (Finset.range bound).filter fun index => memory.bitTest index = false

theorem mem_clearBits {bound index : Nat} :
    index ∈ memory.clearBits bound ↔ index < bound ∧ memory.bitTest index = false := by
  rw [clearBits, Finset.mem_filter, Finset.mem_range]

theorem card_clearBits_le (memory : Memory) (bound : Nat) : (memory.clearBits bound).card ≤ bound :=
  (Finset.card_filter_le _ _).trans_eq (Finset.card_range bound)

/-- Setting a clear bit leaves one clear bit less. -/
theorem card_clearBits_bitSet {bound index : Nat} (inside : index < bound)
    (clear : memory.bitTest index = false) :
    ((memory.bitSet index).clearBits bound).card + 1 = (memory.clearBits bound).card := by
  have isClear : index ∈ memory.clearBits bound := mem_clearBits.mpr ⟨inside, clear⟩
  have erased : (memory.bitSet index).clearBits bound = (memory.clearBits bound).erase index := by
    ext tested
    rw [Finset.mem_erase, mem_clearBits, mem_clearBits, bitTest_bitSet, Bool.or_eq_false_iff,
      decide_eq_false_iff_not]
    exact and_left_comm
  rw [erased, Finset.card_erase_add_one isClear]

/-- Clearing a set bit adds one clear bit. -/
theorem card_clearBits_bitClear {bound index : Nat} (inside : index < bound)
    (isSet : memory.bitTest index = true) :
    ((memory.bitClear index).clearBits bound).card = (memory.clearBits bound).card + 1 := by
  have notClear : index ∉ memory.clearBits bound := by
    rw [mem_clearBits, isSet]
    simp
  have inserted : (memory.bitClear index).clearBits bound = insert index (memory.clearBits bound) := by
    ext tested
    rw [Finset.mem_insert, mem_clearBits, mem_clearBits, bitTest_bitClear]
    by_cases same : tested = index
    · simp [same, inside]
    · simp [same]
  rw [inserted, Finset.card_insert_of_notMem notClear]

end Library.Memory
