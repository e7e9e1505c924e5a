import Mathlib.Order.Basic

/-!
# Terminated strings

A string in a memory that can be read at some addresses only: bytes that are not zero, followed by
a zero byte. A string has one length, and it does not depend on what lies behind its terminator.
-/

namespace Library

/-- A string of the given length starts at the address. -/
structure StringAt (read : Nat → Option UInt8) (address length : Nat) : Prop where
  before : ∀ i < length, ∃ byte, read (address + i) = some byte ∧ byte ≠ 0
  terminator : read (address + length) = some 0

variable {read read' : Nat → Option UInt8} {address length other : Nat}

section StringAt

variable (string : StringAt read address length)

include string

/-- No string ends inside another one. -/
theorem StringAt.not_shorter (string' : StringAt read address other) : length ≤ other := by
  by_contra shorter
  obtain ⟨byte, isByte, notZero⟩ := string.before other (Nat.lt_of_not_le shorter)
  rw [string'.terminator] at isByte
  exact notZero (Option.some.inj isByte).symm

theorem StringAt.unique (string' : StringAt read address other) : length = other :=
  Nat.le_antisymm (string.not_shorter string') (string'.not_shorter string)

theorem StringAt.congr (same : ∀ i ≤ length, read' (address + i) = read (address + i)) :
    StringAt read' address length := by
  constructor
  · intro i inside
    rw [same i (Nat.le_of_lt inside)]
    exact string.before i inside
  · rw [same length (Nat.le_refl length)]
    exact string.terminator

/-- Every byte of a string can be read. -/
theorem StringAt.readable {i : Nat} (inside : i ≤ length) : (read (address + i)).isSome := by
  by_cases isLast : i = length
  · rw [isLast, string.terminator]
    rfl
  · obtain ⟨byte, isByte, -⟩ := string.before i (Nat.lt_of_le_of_ne inside isLast)
    rw [isByte]
    rfl

end StringAt

theorem StringAt.nil (terminator : read address = some 0) : StringAt read address 0 :=
  ⟨fun _ inside => absurd inside (Nat.not_lt_zero _), terminator⟩

theorem StringAt.cons {byte : UInt8} (isByte : read address = some byte) (notZero : byte ≠ 0)
    (rest : StringAt read (address + 1) length) : StringAt read address (length + 1) := by
  constructor
  · intro i inside
    cases i with
    | zero => exact ⟨byte, isByte, notZero⟩
    | succ i =>
      obtain ⟨next, isNext, nextNotZero⟩ := rest.before i (Nat.lt_of_succ_lt_succ inside)
      rw [Nat.add_assoc, Nat.add_comm 1 i] at isNext
      exact ⟨next, isNext, nextNotZero⟩
  · have terminator := rest.terminator
    rw [Nat.add_assoc, Nat.add_comm 1 length] at terminator
    exact terminator

theorem StringAt.tail (string : StringAt read address (length + 1)) :
    StringAt read (address + 1) length := by
  constructor
  · intro i inside
    rw [Nat.add_assoc, Nat.add_comm 1 i]
    exact string.before (i + 1) (Nat.succ_lt_succ inside)
  · rw [Nat.add_assoc, Nat.add_comm 1 length]
    exact string.terminator

end Library
