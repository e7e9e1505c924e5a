import Mathlib.Data.Nat.Bitwise
import Mathlib.Tactic.Ring

/-!
# 32-bit words

Machine words are natural numbers below `2 ^ 32`. Clearing low bits rounds down
to a power of two, keeping low bits is a remainder, and joining a multiple of a
power of two with a smaller value is an addition. A signed word is an integer in
two's complement.
-/

namespace Library

/-- What holds of the 256 bytes by their numbers holds of every byte. -/
theorem forall_byte {P : UInt8 → Prop} (numbers : ∀ n < 256, P (UInt8.ofNat n)) (byte : UInt8) :
    P byte := by
  have named := numbers byte.toNat byte.toNat_lt
  rwa [UInt8.ofNat_toNat] at named

/-- The mask `~(2 ^ k - 1)` of a 32-bit word rounds down to a multiple of `2 ^ k`. -/
theorem land_high_mask (value k : Nat) (bounded : value < 2 ^ 32) (narrow : k ≤ 32) :
    value &&& (2 ^ 32 - 2 ^ k) = value / 2 ^ k * 2 ^ k := by
  have mask : 2 ^ 32 - 2 ^ k = 2 ^ k * (2 ^ (32 - k) - 1) := by
    rw [Nat.mul_sub, ← Nat.pow_add, Nat.mul_one]
    congr 2
    omega
  rw [mask, Nat.mul_comm (value / 2 ^ k)]
  apply Nat.eq_of_testBit_eq
  intro i
  rw [Nat.testBit_and, Nat.testBit_two_pow_mul, Nat.testBit_two_pow_mul,
    Nat.testBit_two_pow_sub_one, Nat.testBit_div_two_pow]
  by_cases low : k ≤ i
  · have position : k + (i - k) = i := by omega
    by_cases high : i < 32
    · have inside : i - k < 32 - k := by omega
      simp [low, inside]
    · have clear : value.testBit i = false :=
        Nat.testBit_lt_two_pow (lt_of_lt_of_le bounded (Nat.pow_le_pow_right (by decide) (by omega)))
      simp [clear, position, Nat.add_comm]
  · simp [low]

/-- Joining a multiple of `2 ^ k` with a value below `2 ^ k` adds them. -/
theorem lor_eq_add (high low k : Nat) (aligned : high % 2 ^ k = 0) (small : low < 2 ^ k) :
    high ||| low = high + low := by
  have split : high = 2 ^ k * (high / 2 ^ k) := by
    have parts := Nat.div_add_mod high (2 ^ k)
    omega
  rw [split]
  exact (Nat.two_pow_add_eq_or_of_lt small (high / 2 ^ k)).symm

/-! ## Signed words -/

/-- A value as a signed word. -/
def int32 (value : Int) : Int := Int.bmod value (2 ^ 32)

/-- A value in the range of a signed word is kept. -/
theorem int32_of_range {value : Int} (low : -2 ^ 31 ≤ value) (high : value < 2 ^ 31) :
    int32 value = value := by
  apply Int.bmod_eq_of_le <;> omega

/-- A word with its top bit set is negative. -/
theorem int32_high {word : Nat} (high : 2 ^ 31 ≤ word) (bounded : word < 2 ^ 32) :
    int32 word < 0 := by
  have shifted : int32 word = int32 (word - (2 ^ 32 : Nat)) :=
    (Int.sub_bmod_right word (2 ^ 32)).symm
  rw [shifted, int32_of_range (by omega) (by omega)]
  omega

end Library
