import Mathlib.Data.Nat.Digits.Defs
import Mathlib.Data.Nat.Digits.Lemmas
import Mathlib.Tactic.Common
import Mathlib.Tactic.Ring

/-!
# Decimal numerals

A numeral is a list of decimal digits, the most significant one first. `value` reads it from the left,
as a loop does that multiplies by ten and adds; `spelling` is the numeral that repeated division by ten
yields. A loop that starts from what it has read so far is described by `valueFrom`.
-/

namespace Library.Numerals

def isDecimal (ch : Char) : Bool := decide ('0' ≤ ch) && decide (ch ≤ '9')

/-- The digit that a character stands for. -/
def digitOf (ch : Char) : Nat := ch.toNat - 48

/-- The character of a digit. -/
def digitChar (digit : Nat) : Char := Char.ofNat (48 + digit)

/-- Continue a number by the digits of a numeral. -/
def valueFrom (start : Nat) (digits : List Char) : Nat :=
  digits.foldl (fun value ch => value * 10 + digitOf ch) start

def value (digits : List Char) : Nat := valueFrom 0 digits

/-- The numeral of a positive number; zero has none. -/
def spelling (number : Nat) : List Char := (Nat.digits 10 number).reverse.map digitChar

@[simp] theorem valueFrom_nil (start : Nat) : valueFrom start [] = start := rfl

@[simp] theorem valueFrom_cons (start : Nat) (ch : Char) (digits : List Char) :
    valueFrom start (ch :: digits) = valueFrom (start * 10 + digitOf ch) digits := by
  simp only [valueFrom, List.foldl_cons]

theorem valueFrom_append (start : Nat) (digits more : List Char) :
    valueFrom start (digits ++ more) = valueFrom (valueFrom start digits) more :=
  List.foldl_append

/-- A numeral is at least what has been read of it. -/
theorem le_valueFrom (start : Nat) (digits : List Char) : start ≤ valueFrom start digits := by
  induction digits generalizing start with
  | nil => exact Nat.le_refl start
  | cons ch rest ih =>
    have next := ih (start * 10 + digitOf ch)
    rw [valueFrom_cons]
    omega

theorem isDecimal_iff (ch : Char) : isDecimal ch = true ↔ 48 ≤ ch.toNat ∧ ch.toNat ≤ 57 := by
  rw [isDecimal, Bool.and_eq_true, decide_eq_true_eq, decide_eq_true_eq]
  exact Iff.rfl

theorem toNat_digitChar {digit : Nat} (small : digit < 10) : (digitChar digit).toNat = 48 + digit := by
  have valid : (48 + digit).isValidChar := Or.inl (by omega)
  rw [digitChar, Char.ofNat, dif_pos valid]
  rfl

theorem isDecimal_digitChar {digit : Nat} (small : digit < 10) : isDecimal (digitChar digit) = true := by
  rw [isDecimal_iff, toNat_digitChar small]
  omega

theorem digitOf_digitChar {digit : Nat} (small : digit < 10) : digitOf (digitChar digit) = digit := by
  rw [digitOf, toNat_digitChar small]
  omega

/-- A numeral is spelled in decimal digits. -/
theorem spelling_decimal (number : Nat) : ∀ ch ∈ spelling number, isDecimal ch = true := by
  intro ch member
  obtain ⟨digit, isDigit, rfl⟩ := List.mem_map.mp member
  exact isDecimal_digitChar (Nat.digits_lt_base (by decide) (List.mem_reverse.mp isDigit))

theorem spelling_ne_nil {number : Nat} (positive : number ≠ 0) : spelling number ≠ [] := by
  rw [spelling, ne_eq, List.map_eq_nil_iff, List.reverse_eq_nil_iff]
  exact Nat.digits_ne_nil_iff_ne_zero.mpr positive

/-- The last digit of a numeral is the remainder, the others are those of the quotient. -/
theorem spelling_eq {number : Nat} (positive : number ≠ 0) :
    spelling number = spelling (number / 10) ++ [digitChar (number % 10)] := by
  have digits : Nat.digits 10 number = number % 10 :: Nat.digits 10 (number / 10) :=
    Nat.digits_def' (by decide) (Nat.pos_of_ne_zero positive)
  rw [spelling, digits, List.reverse_cons, List.map_append]
  rfl

/-- Reading what was spelled gives the number back.

Proof: by induction on the number, from its last digit. -/
theorem value_spelling (number : Nat) : value (spelling number) = number := by
  induction number using Nat.strong_induction_on with
  | _ number ih =>
    by_cases isZero : number = 0
    · subst isZero
      rfl
    · have quotient := ih (number / 10) (by omega)
      have small : number % 10 < 10 := Nat.mod_lt _ (by decide)
      rw [value] at quotient
      rw [spelling_eq isZero, value, valueFrom_append, quotient, valueFrom_cons, valueFrom_nil,
        digitOf_digitChar small]
      omega

end Library.Numerals
