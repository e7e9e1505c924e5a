import Toyix.User.Shell
import Toyix.Library.Numerals
import Mathlib.Data.List.TakeWhile

/-!
# Numbers that are typed and printed

`parse_u32` of the kernel monitor and `toyix_atoi` of the user library read a number from a string; the
console and the user library print one. A string is the list of its characters before the terminator, and
a pointer into it is the list of those that remain.

`parse_u32` tests before each digit that the value stays in 32 bits and accepts exactly the numbers that
do. `toyix_atoi` has no such test.
-/

namespace Toyix.Text

open Library Library.Numerals Toyix.User

variable {ch : Char} {text : List Char}

/-! ## The monitor -/

def kcharIsSpace (ch : Char) : Bool :=
  ch = ' ' || ch = '\t' || ch = '\n' || ch = '\r' || ch = '\x0b' || ch = '\x0c'

def kcharIsDigit (ch : Char) : Bool := decide ('0' ≤ ch) && decide (ch ≤ '9')

/-- The loop over the digits: the value, whether there was any digit, and what follows; nothing if the
value would leave 32 bits. -/
def parseDigits : List Char → Nat → Bool → Option (Nat × Bool × List Char)
  | [], value, any => some (value, any, [])
  | ch :: text, value, any =>
    if kcharIsDigit ch then
      let digit := ch.toNat - 48
      if value > (0xFFFFFFFF - digit) / 10 then none
      else parseDigits text ((value * 10 + digit) % 2 ^ 32) true
    else some (value, any, ch :: text)

/-- `parse_u32`: the result and what `*out` is afterwards. -/
def parseU32 (text : List Char) (out : Nat) : Bool × Nat :=
  match parseDigits (text.dropWhile kcharIsSpace) 0 false with
  | none => (false, out)
  | some (value, any, rest) => if rest ≠ [] then (false, out) else (any, value)

/-! ## Printing -/

/-- The loop that fills `buffer`, the last digit first; `room` is what is left of it. -/
def fillDigits : Nat → Nat → List Char
  | 0, _ => []
  | room + 1, value =>
    if value > 0 then Char.ofNat (48 + value % 10) :: fillDigits room (value / 10) else []

/-- The characters that are emitted for a number, from a buffer of eleven characters. -/
def writeDigits (value : Nat) : List Char :=
  if value = 0 then ['0'] else (fillDigits 11 value).reverse

def consoleRawWriteU32Dec (value : UInt32) : List Char := writeDigits value.toNat

def toyixWriteUint (value : UInt32) : List Char := writeDigits value.toNat

theorem fill_digits_eq (room value : Nat) (fits : value < 10 ^ room) :
    (fillDigits room value).reverse = spelling value := by
  induction room generalizing value with
  | zero =>
    obtain rfl : value = 0 := by omega
    rfl
  | succ room ih =>
    by_cases isZero : value = 0
    · subst isZero
      rfl
    · have quotient := ih (value / 10) (by rw [Nat.pow_succ] at fits; omega)
      rw [fillDigits, if_pos (Nat.pos_of_ne_zero isZero), List.reverse_cons, quotient,
        spelling_eq isZero]
      rfl

/-- A printed number is a numeral that stands for it. -/
theorem write_digits_numeral {number : Nat} (small : number < 2 ^ 32) :
    writeDigits number ≠ [] ∧ (∀ ch ∈ writeDigits number, isDecimal ch = true) ∧
      value (writeDigits number) = number := by
  by_cases isZero : number = 0
  · have isDigit : writeDigits 0 = ['0'] := rfl
    rw [isZero, isDigit]
    refine ⟨List.cons_ne_nil _ _, ?_, rfl⟩
    intro ch member
    rw [List.mem_singleton.mp member]
    rfl
  · rw [writeDigits, if_neg isZero, fill_digits_eq 11 number (by omega)]
    exact ⟨spelling_ne_nil isZero, spelling_decimal number, value_spelling number⟩

/-! ## What the monitor accepts -/

/-- Optional whitespace, then one or more decimal digits and nothing else; `number` is their value. -/
def MonitorNumber (text : List Char) (number : Nat) : Prop :=
  ∃ blanks digits, text = blanks ++ digits ∧ (∀ ch ∈ blanks, kcharIsSpace ch = true) ∧ digits ≠ [] ∧
    (∀ ch ∈ digits, kcharIsDigit ch = true) ∧ number = value digits

/-- A digit is not whitespace. -/
theorem digit_not_space (isDigit : isDecimal ch = true) : kcharIsSpace ch = false := by
  have range := (isDecimal_iff ch).mp isDigit
  rw [← Bool.not_eq_true]
  intro isSpace
  simp only [kcharIsSpace, Bool.or_eq_true, decide_eq_true_eq] at isSpace
  rcases isSpace with ((((rfl | rfl) | rfl) | rfl) | rfl) | rfl <;> simp at range

/-- The loop stops at the first character that is no digit, with the value of the digits before it, or
before the first digit that takes the value out of 32 bits.

Proof: by induction on the text. The test before a digit is exact, and a value that is too large stays
so, whatever follows. -/
theorem parse_digits_run (text : List Char) (start : Nat) (any : Bool) (small : start < 2 ^ 32) :
    parseDigits text start any =
      if valueFrom start (text.takeWhile kcharIsDigit) < 2 ^ 32 then
        some (valueFrom start (text.takeWhile kcharIsDigit),
          any || decide (text.takeWhile kcharIsDigit ≠ []), text.dropWhile kcharIsDigit)
      else none := by
  induction text generalizing start any with
  | nil =>
    rw [List.takeWhile_nil, valueFrom_nil, if_pos small]
    simp [parseDigits]
  | cons ch rest ih =>
    by_cases isDigit : kcharIsDigit ch = true
    · have digitSmall := (isDecimal_iff ch).mp isDigit
      rw [parseDigits, if_pos isDigit, List.takeWhile_cons_of_pos isDigit,
        List.dropWhile_cons_of_pos isDigit, valueFrom_cons]
      have digitIs : digitOf ch = ch.toNat - 48 := rfl
      have grows := le_valueFrom (start * 10 + digitOf ch) (rest.takeWhile kcharIsDigit)
      dsimp only
      by_cases tooLarge : start > (0xFFFFFFFF - (ch.toNat - 48)) / 10
      · rw [if_pos tooLarge, if_neg (by omega)]
      · have fits : start * 10 + (ch.toNat - 48) < 2 ^ 32 := by omega
        rw [if_neg tooLarge, Nat.mod_eq_of_lt fits, ih _ true fits, digitIs]
        simp
    · rw [parseDigits, if_neg isDigit, List.takeWhile_cons_of_neg isDigit,
        List.dropWhile_cons_of_neg isDigit, valueFrom_nil, if_pos small]
      simp

/-- The digits that follow the whitespace are all of the rest. -/
theorem monitor_number_iff (text : List Char) (number : Nat) : MonitorNumber text number ↔
    (text.dropWhile kcharIsSpace).takeWhile kcharIsDigit ≠ [] ∧
      (text.dropWhile kcharIsSpace).dropWhile kcharIsDigit = [] ∧
      number = value ((text.dropWhile kcharIsSpace).takeWhile kcharIsDigit) := by
  constructor
  · rintro ⟨blanks, digits, rfl, areBlanks, notEmpty, areDigits, rfl⟩
    have noBlanks : digits.dropWhile kcharIsSpace = digits := by
      cases digits with
      | nil => rfl
      | cons ch rest =>
        have notSpace := digit_not_space (areDigits ch List.mem_cons_self)
        exact List.dropWhile_cons_of_neg (Bool.not_eq_true _ ▸ notSpace)
    have all : digits.takeWhile kcharIsDigit = digits := List.takeWhile_eq_self_iff.mpr areDigits
    have none : digits.dropWhile kcharIsDigit = [] := List.dropWhile_eq_nil_iff.mpr areDigits
    rw [List.dropWhile_append_of_pos areBlanks, noBlanks, all, none]
    exact ⟨notEmpty, rfl, rfl⟩
  · rintro ⟨notEmpty, isEnd, rfl⟩
    refine ⟨text.takeWhile kcharIsSpace, text.dropWhile kcharIsSpace,
      List.takeWhile_append_dropWhile.symm, ?_, ?_, List.dropWhile_eq_nil_iff.mp isEnd, ?_⟩
    · exact fun ch member => List.mem_takeWhile_imp member
    · intro isNil
      rw [isNil] at notEmpty
      exact notEmpty rfl
    · rw [List.takeWhile_eq_self_iff.mpr (List.dropWhile_eq_nil_iff.mp isEnd)]

theorem parse_u32_run (text : List Char) (out : Nat) :
    (∀ number, MonitorNumber text number → number < 2 ^ 32 → parseU32 text out = (true, number)) ∧
      ((parseU32 text out).1 = true → ∃ number, MonitorNumber text number ∧ number < 2 ^ 32) := by
  have run := parse_digits_run (text.dropWhile kcharIsSpace) 0 false (by decide)
  constructor
  · intro number isNumber small
    obtain ⟨notEmpty, isEnd, isValue⟩ := (monitor_number_iff text number).mp isNumber
    rw [isValue, value] at small
    rw [if_pos small, isEnd] at run
    rw [parseU32, run, isValue]
    simp [notEmpty, value]
  · intro accepted
    rw [parseU32, run] at accepted
    split at accepted
    · cases accepted
    · rename_i value any rest isResult
      split at isResult
      · rename_i small
        obtain ⟨rfl, rest⟩ := Prod.mk.inj (Option.some.inj isResult)
        obtain ⟨rfl, rfl⟩ := Prod.mk.inj rest
        split at accepted
        · cases accepted
        · rename_i isEnd
          refine ⟨_, (monitor_number_iff text _).mpr ⟨?_, not_not.mp isEnd, rfl⟩, small⟩
          simpa using accepted
      · cases isResult

/-- `parse_u32` accepts exactly optional whitespace and one or more digits whose value fits 32 bits, and
then stores that value. It reads back what the console and the user library print for a number.

Proof: the loop computes the value of the digits or stops when it leaves 32 bits; a printed number is a
numeral of its own value. -/
theorem parse_u32_exact (text : List Char) (out : Nat) (printed : UInt32) :
    ((parseU32 text out).1 = true ↔ ∃ number, MonitorNumber text number ∧ number ≤ 2 ^ 32 - 1) ∧
      (∀ number, MonitorNumber text number → number ≤ 2 ^ 32 - 1 → parseU32 text out = (true, number)) ∧
      parseU32 (consoleRawWriteU32Dec printed) out = (true, printed.toNat) ∧
      parseU32 (toyixWriteUint printed) out = (true, printed.toNat) := by
  obtain ⟨accepts, onlyThose⟩ := parse_u32_run text out
  have readsBack : parseU32 (writeDigits printed.toNat) out = (true, printed.toNat) := by
    obtain ⟨notEmpty, areDigits, isValue⟩ := write_digits_numeral printed.toNat_lt
    apply (parse_u32_run _ out).1
    · exact ⟨[], _, rfl, fun _ member => absurd member List.not_mem_nil, notEmpty, areDigits,
        isValue.symm⟩
    · exact printed.toNat_lt
  refine ⟨?_, ?_, readsBack, readsBack⟩
  · constructor
    · intro accepted
      obtain ⟨number, isNumber, small⟩ := onlyThose accepted
      exact ⟨number, isNumber, by omega⟩
    · rintro ⟨number, isNumber, small⟩
      rw [accepts number isNumber (by omega)]
  · intro number isNumber small
    exact accepts number isNumber (by omega)

/-- The largest number, after whitespace. -/
theorem parse_u32_largest : parseU32 " 4294967295".toList 7 = (true, 4294967295) := by
  have isText : " 4294967295".toList = [' '] ++ writeDigits 4294967295 := by rfl
  have isNumber : MonitorNumber " 4294967295".toList 4294967295 := by
    obtain ⟨notEmpty, digits, isValue⟩ := write_digits_numeral (show 4294967295 < 2 ^ 32 by decide)
    exact ⟨[' '], writeDigits 4294967295, isText, by simp [kcharIsSpace], notEmpty, digits,
      isValue.symm⟩
  exact (parse_u32_exact _ 7 0).2.1 4294967295 isNumber (by decide)

/-! ## The user library -/

/-- `toyix_atoi`: the result and what `*out_value` is afterwards. -/
def toyixAtoiCall (text : List Char) (outValue : Int) : Bool × Int :=
  match toyixAtoi text with
  | none => (false, outValue)
  | some value => (true, value)

/-- The result of a signed operation, unless it overflows. -/
def exactI32 (value : Int) : Option Int :=
  if -2 ^ 31 ≤ value ∧ value ≤ 2 ^ 31 - 1 then some value else none

/-- The loop over the digits in `toyix_atoi`, unless an operation overflows. -/
def digitsExact (digits : List Char) (start : Int) : Option Int :=
  digits.foldlM (fun value ch => do
    let tens ← exactI32 (value * 10)
    exactI32 (tens + ((ch.toNat : Int) - 48))) start

/-- No operation of the call overflows. -/
def NoOverflow (text : List Char) : Prop :=
  let (negative, text) := splitSign (text.dropWhile toyixIsspace)
  ∃ value, digitsExact (text.takeWhile isDigit) 0 = some value ∧
    (negative = true → (exactI32 (-value)).isSome = true)

/-- Optional whitespace, an optional sign, one or more decimal digits and optional whitespace; `number`
is the integer that the sign and the digits denote. -/
def TypedNumber (text : List Char) (number : Int) : Prop :=
  ∃ blanks sign digits trailing, text = blanks ++ sign ++ digits ++ trailing ∧
    (∀ ch ∈ blanks, toyixIsspace ch = true) ∧ digits ≠ [] ∧ (∀ ch ∈ digits, isDigit ch = true) ∧
    (∀ ch ∈ trailing, toyixIsspace ch = true) ∧
    ((sign = [] ∨ sign = ['+']) ∧ number = value digits ∨ sign = ['-'] ∧ number = -(value digits : Int))

/-- `cmd_exit`: the code with which the shell ends, if it does. -/
def cmdExit (argv : List (List Char)) (shell : Shell) : Shell × Option Int :=
  match argv with
  | [_] => (shell, some 0)
  | [_, text] =>
    match toyixAtoi text with
    | none => (shell.print "exit: expected numeric code", none)
    | some code => (shell, some code)
  | _ => (shell.print "usage: exit [CODE]", none)

/-! ## What the user library accepts -/

theorem digit_not_blank (digit : isDigit ch = true) :
    toyixIsspace ch = false ∧ ch ≠ '-' ∧ ch ≠ '+' := by
  have range := (isDecimal_iff ch).mp digit
  refine ⟨?_, ?_, ?_⟩
  · rw [← Bool.not_eq_true]
    intro isSpace
    simp only [toyixIsspace, Bool.or_eq_true, decide_eq_true_eq] at isSpace
    rcases isSpace with ((rfl | rfl) | rfl) | rfl <;> simp at range
  · rintro rfl
    simp at range
  · rintro rfl
    simp at range

theorem blank_not_digit (isSpace : toyixIsspace ch = true) : isDigit ch = false := by
  rw [← Bool.not_eq_true]
  intro digit
  rw [(digit_not_blank digit).1] at isSpace
  cases isSpace

/-- The sign that was split off. -/
theorem split_sign_parts (text : List Char) : ∃ sign, text = sign ++ (splitSign text).2 ∧
    ((sign = [] ∨ sign = ['+']) ∧ (splitSign text).1 = false ∨
      sign = ['-'] ∧ (splitSign text).1 = true) := by
  unfold splitSign
  split
  · exact ⟨['-'], rfl, Or.inr ⟨rfl, rfl⟩⟩
  · exact ⟨['+'], rfl, Or.inl ⟨Or.inr rfl, rfl⟩⟩
  · exact ⟨[], rfl, Or.inl ⟨Or.inl rfl, rfl⟩⟩

theorem split_sign_digit (digit : isDigit ch = true) (rest : List Char) :
    splitSign (ch :: rest) = (false, ch :: rest) := by
  obtain ⟨-, notMinus, notPlus⟩ := digit_not_blank digit
  unfold splitSign
  split
  · rename_i same
    exact absurd (List.cons.inj same).1 notMinus
  · rename_i same
    exact absurd (List.cons.inj same).1 notPlus
  · rfl

/-- The sign, the digits and what follows them, as `toyix_atoi` finds them. -/
theorem typed_number_iff (text : List Char) (number : Int) : TypedNumber text number ↔
    (splitSign (text.dropWhile toyixIsspace)).2.takeWhile isDigit ≠ [] ∧
      ((splitSign (text.dropWhile toyixIsspace)).2.dropWhile isDigit).dropWhile toyixIsspace = [] ∧
      number = if (splitSign (text.dropWhile toyixIsspace)).1 = true then
          -(value ((splitSign (text.dropWhile toyixIsspace)).2.takeWhile isDigit) : Int)
        else value ((splitSign (text.dropWhile toyixIsspace)).2.takeWhile isDigit) := by
  constructor
  · rintro ⟨blanks, sign, digits, trailing, rfl, areBlanks, notEmpty, areDigits, areTrailing, signed⟩
    have digitsOnly : (digits ++ trailing).takeWhile isDigit = digits := by
      have stops : trailing.takeWhile isDigit = [] := by
        cases trailing with
        | nil => rfl
        | cons ch rest =>
          have notDigit := blank_not_digit (areTrailing ch List.mem_cons_self)
          exact List.takeWhile_cons_of_neg (Bool.not_eq_true _ ▸ notDigit)
      rw [List.takeWhile_append_of_pos areDigits, stops, List.append_nil]
    have restOnly : ((digits ++ trailing).dropWhile isDigit).dropWhile toyixIsspace = [] := by
      rw [List.dropWhile_append_of_pos areDigits, List.dropWhile_eq_nil_iff]
      intro ch member
      exact areTrailing ch ((List.dropWhile_sublist isDigit).mem member)
    have skips : (blanks ++ sign ++ digits ++ trailing).dropWhile toyixIsspace =
        sign ++ (digits ++ trailing) := by
      rw [List.append_assoc, List.append_assoc, List.dropWhile_append_of_pos areBlanks]
      cases digits with
      | nil => exact absurd rfl notEmpty
      | cons ch rest =>
        have notBlank := (digit_not_blank (areDigits ch List.mem_cons_self)).1
        rcases signed with ⟨rfl | rfl, -⟩ | ⟨rfl, -⟩
        · exact List.dropWhile_cons_of_neg (Bool.not_eq_true _ ▸ notBlank)
        · exact List.dropWhile_cons_of_neg (by decide)
        · exact List.dropWhile_cons_of_neg (by decide)
    rw [skips]
    rcases signed with ⟨rfl | rfl, isNumber⟩ | ⟨rfl, isNumber⟩
    · have splits : splitSign ([] ++ (digits ++ trailing)) = (false, digits ++ trailing) := by
        cases digits with
        | nil => exact absurd rfl notEmpty
        | cons ch rest => exact split_sign_digit (areDigits ch List.mem_cons_self) _
      rw [splits]
      dsimp only
      rw [digitsOnly, restOnly]
      exact ⟨notEmpty, rfl, isNumber⟩
    · change (digits ++ trailing).takeWhile isDigit ≠ [] ∧
        ((digits ++ trailing).dropWhile isDigit).dropWhile toyixIsspace = [] ∧
        number = value ((digits ++ trailing).takeWhile isDigit)
      rw [digitsOnly, restOnly]
      exact ⟨notEmpty, rfl, isNumber⟩
    · change (digits ++ trailing).takeWhile isDigit ≠ [] ∧
        ((digits ++ trailing).dropWhile isDigit).dropWhile toyixIsspace = [] ∧
        number = -(value ((digits ++ trailing).takeWhile isDigit) : Int)
      rw [digitsOnly, restOnly]
      exact ⟨notEmpty, rfl, isNumber⟩
  · rintro ⟨notEmpty, isEnd, isNumber⟩
    obtain ⟨sign, parts, signed⟩ := split_sign_parts (text.dropWhile toyixIsspace)
    refine ⟨text.takeWhile toyixIsspace, sign, _, (splitSign (text.dropWhile toyixIsspace)).2.dropWhile
      isDigit, ?_, fun ch member => List.mem_takeWhile_imp member, notEmpty,
      fun ch member => List.mem_takeWhile_imp member, List.dropWhile_eq_nil_iff.mp isEnd, ?_⟩
    · rw [List.append_assoc, List.takeWhile_append_dropWhile, List.append_assoc, ← parts,
        List.takeWhile_append_dropWhile]
    · rcases signed with ⟨plus, notNegative⟩ | ⟨minus, negative⟩
      · rw [notNegative] at isNumber
        exact Or.inl ⟨plus, isNumber⟩
      · rw [negative] at isNumber
        exact Or.inr ⟨minus, isNumber⟩

/-- A text denotes at most one number. -/
theorem typed_number_unique {number other : Int} (isNumber : TypedNumber text number)
    (isOther : TypedNumber text other) : number = other := by
  obtain ⟨-, -, first⟩ := (typed_number_iff text number).mp isNumber
  obtain ⟨-, -, second⟩ := (typed_number_iff text other).mp isOther
  exact first.trans second.symm

/-! ## Overflow -/

/-- The loop overflows exactly when the value of the digits is too large. -/
theorem digits_exact_run (digits : List Char) (start : Nat) (areDigits : ∀ ch ∈ digits, isDigit ch = true)
    (small : start < 2 ^ 31) :
    digitsExact digits start =
      if valueFrom start digits < 2 ^ 31 then some (valueFrom start digits : Int) else none := by
  induction digits generalizing start with
  | nil =>
    rw [valueFrom_nil, if_pos small]
    rfl
  | cons ch rest ih =>
    have range := (isDecimal_iff ch).mp (areDigits ch List.mem_cons_self)
    have grows := le_valueFrom (start * 10 + digitOf ch) rest
    have digitIs : digitOf ch = ch.toNat - 48 := rfl
    have isNext : ((start : Int) * 10 + ((ch.toNat : Int) - 48)) =
        ((start * 10 + digitOf ch : Nat) : Int) := by
      omega
    have unfolds : digitsExact (ch :: rest) start =
        (exactI32 ((start : Int) * 10)).bind fun tens =>
          (exactI32 (tens + ((ch.toNat : Int) - 48))).bind fun next => digitsExact rest next := by
      simp only [digitsExact, List.foldlM_cons, Option.bind_eq_bind, Option.bind_assoc]
    rw [unfolds, valueFrom_cons]
    by_cases fits : start * 10 + digitOf ch < 2 ^ 31
    · have tens : exactI32 ((start : Int) * 10) = some ((start : Int) * 10) := if_pos (by omega)
      have next : exactI32 ((start : Int) * 10 + ((ch.toNat : Int) - 48)) =
          some ((start * 10 + digitOf ch : Nat) : Int) := by
        rw [isNext]
        exact if_pos (by omega)
      rw [tens, Option.bind_some, next, Option.bind_some]
      exact ih _ (fun ch member => areDigits ch (List.mem_cons_of_mem _ member)) fits
    · rw [if_neg (by omega)]
      by_cases tensFit : (start : Int) * 10 ≤ 2 ^ 31 - 1
      · have tens : exactI32 ((start : Int) * 10) = some ((start : Int) * 10) := if_pos (by omega)
        have next : exactI32 ((start : Int) * 10 + ((ch.toNat : Int) - 48)) = none := by
          rw [isNext]
          exact if_neg (by omega)
        rw [tens, Option.bind_some, next]
        rfl
      · have tens : exactI32 ((start : Int) * 10) = none := if_neg (by omega)
        rw [tens]
        rfl

/-- Without overflow the loop computes the value of the digits. -/
theorem digits_value_run (digits : List Char) (start : Nat) (areDigits : ∀ ch ∈ digits, isDigit ch = true)
    (fits : valueFrom start digits < 2 ^ 31) :
    digits.foldl (fun value ch => int32 (value * 10 + ((ch.toNat : Int) - 48))) (start : Int) =
      valueFrom start digits := by
  induction digits generalizing start with
  | nil => rfl
  | cons ch rest ih =>
    have range := (isDecimal_iff ch).mp (areDigits ch List.mem_cons_self)
    have grows := le_valueFrom (start * 10 + digitOf ch) rest
    have digitIs : digitOf ch = ch.toNat - 48 := rfl
    rw [valueFrom_cons] at fits ⊢
    have isNext : int32 ((start : Int) * 10 + ((ch.toNat : Int) - 48)) =
        ((start * 10 + digitOf ch : Nat) : Int) := by
      rw [int32_of_range (by omega) (by omega)]
      omega
    rw [List.foldl_cons, isNext]
    exact ih _ (fun ch member => areDigits ch (List.mem_cons_of_mem _ member)) fits

/-- `toyix_atoi` accepts exactly the numbers of 32 bits, stores them and does not overflow, and leaves
`*out_value` alone otherwise. The commands of the shell act on the number that was typed. -/
structure AtoiExact (text : List Char) : Prop where
  accepts : ∀ number outValue, TypedNumber text number → -2 ^ 31 ≤ number → number ≤ 2 ^ 31 - 1 →
    toyixAtoiCall text outValue = (true, number) ∧ NoOverflow text
  refuses : ∀ outValue, (∀ number, TypedNumber text number →
    ¬ (-2 ^ 31 ≤ number ∧ number ≤ 2 ^ 31 - 1)) → toyixAtoiCall text outValue = (false, outValue)
  pid : ∀ pid, pidArgument text = some pid → TypedNumber text pid.toNat
  exit : ∀ name shell code, (cmdExit [name, text] shell).2 = some code → TypedNumber text code

/-- The digits that `toyix_atoi` finds. -/
def foundDigits (text : List Char) : List Char :=
  (splitSign (text.dropWhile toyixIsspace)).2.takeWhile isDigit

theorem found_digits (text : List Char) : ∀ ch ∈ foundDigits text, isDigit ch = true :=
  fun _ member => List.mem_takeWhile_imp member

/-- What is not a number is refused. -/
theorem atoi_none (isNone : toyixAtoi text = none) (number : Int) : ¬ TypedNumber text number := by
  rw [typed_number_iff]
  rintro ⟨notEmpty, isEnd, -⟩
  simp only [toyixAtoi] at isNone
  rw [if_neg notEmpty, if_neg (not_not.mpr isEnd)] at isNone
  cases isNone

/-- What is accepted is a number; its value is right when it is small enough. -/
theorem atoi_some {parsed : Int} (isParsed : toyixAtoi text = some parsed) :
    ∃ number, TypedNumber text number ∧ number.natAbs = value (foundDigits text) ∧
      (number.natAbs < 2 ^ 31 → parsed = number) := by
  simp only [toyixAtoi] at isParsed
  split at isParsed
  · cases isParsed
  · rename_i notEmpty
    split at isParsed
    · cases isParsed
    · rename_i isEnd
      have typed := (typed_number_iff text _).mpr ⟨notEmpty, not_not.mp isEnd, rfl⟩
      have isAbs : (if (splitSign (text.dropWhile toyixIsspace)).1 = true then
          -(value (foundDigits text) : Int) else value (foundDigits text)).natAbs =
          value (foundDigits text) := by
        split
        · rw [Int.natAbs_neg, Int.natAbs_natCast]
        · rw [Int.natAbs_natCast]
      refine ⟨_, typed, isAbs, ?_⟩
      intro small
      have fits : valueFrom 0 (foundDigits text) < 2 ^ 31 := lt_of_eq_of_lt isAbs.symm small
      have isValue : digitsValue (foundDigits text) = value (foundDigits text) :=
        digits_value_run _ 0 (found_digits text) fits
      rw [← Option.some.inj isParsed]
      change (if _ then int32 (-digitsValue (foundDigits text)) else
        digitsValue (foundDigits text)) = _
      rw [isValue, int32_of_range]
      · rfl
      · have positive : (0 : Int) ≤ value (foundDigits text) := Int.natCast_nonneg _
        have bounded : (value (foundDigits text) : Int) < 2 ^ 31 := by exact_mod_cast fits
        omega
      · have positive : (0 : Int) ≤ value (foundDigits text) := Int.natCast_nonneg _
        omega

/-- A call overflows when the digits denote a number above the range. -/
theorem no_overflow_iff : NoOverflow text ↔ value (foundDigits text) < 2 ^ 31 := by
  have run := digits_exact_run (foundDigits text) 0 (found_digits text) (by decide)
  constructor
  · rintro ⟨result, isResult, -⟩
    by_contra large
    have large' : ¬ valueFrom 0 (foundDigits text) < 2 ^ 31 := large
    rw [if_neg large'] at run
    cases run.symm.trans isResult
  · intro small
    have small' : valueFrom 0 (foundDigits text) < 2 ^ 31 := small
    rw [if_pos small'] at run
    refine ⟨_, run, fun _ => ?_⟩
    rw [exactI32, if_pos (by omega)]
    rfl

/-- What is refused is refused after the loop: a text such as `99999999999x`, whose digits denote a
number above the range, makes the call overflow before it is turned down. -/
theorem refused_after_overflow (refused : toyixAtoi text = none)
    (large : 2 ^ 31 ≤ value (foundDigits text)) (outValue : Int) :
    toyixAtoiCall text outValue = (false, outValue) ∧ ¬ NoOverflow text := by
  rw [no_overflow_iff, Nat.not_lt, toyixAtoiCall, refused]
  exact ⟨rfl, large⟩

/-- `toyix_atoi` is exact on a text if and only if the text is not a number of absolute value 2^31 or
more.

Proof: the loop overflows exactly when the digits denote such a number. Without overflow the result is
the number typed. A text with larger digits is accepted all the same, so that a number out of range is
not refused, and -2^31 is computed with an overflow. -/
theorem atoi_exact_iff (text : List Char) :
    AtoiExact text ↔ ∀ number, TypedNumber text number → number.natAbs < 2 ^ 31 := by
  constructor
  · intro exact_ number isNumber
    by_contra large
    cases isParsed : toyixAtoi text with
    | none => exact atoi_none isParsed number isNumber
    | some parsed =>
      obtain ⟨other, isOther, isAbs, -⟩ := atoi_some isParsed
      obtain rfl := typed_number_unique isNumber isOther
      by_cases inRange : -2 ^ 31 ≤ number ∧ number ≤ 2 ^ 31 - 1
      · have noOverflow := (exact_.accepts number 0 isNumber inRange.1 inRange.2).2
        rw [no_overflow_iff, ← isAbs] at noOverflow
        exact large noOverflow
      · have refused := exact_.refuses 0 fun other isOther => by
          rw [← typed_number_unique isNumber isOther]
          exact inRange
        simp [toyixAtoiCall, isParsed] at refused
  · intro small
    have parsedIs {parsed : Int} (isParsed : toyixAtoi text = some parsed) :
        TypedNumber text parsed ∧ parsed.natAbs < 2 ^ 31 ∧ NoOverflow text := by
      obtain ⟨number, isNumber, isAbs, same⟩ := atoi_some isParsed
      have isSmall := small number isNumber
      rw [same isSmall, no_overflow_iff, ← isAbs]
      exact ⟨isNumber, isSmall, isSmall⟩
    constructor
    · intro number outValue isNumber low high
      cases isParsed : toyixAtoi text with
      | none => exact absurd isNumber (atoi_none isParsed number)
      | some parsed =>
        obtain ⟨isTyped, -, noOverflow⟩ := parsedIs isParsed
        rw [toyixAtoiCall, isParsed, typed_number_unique isNumber isTyped]
        exact ⟨rfl, noOverflow⟩
    · intro outValue outside
      cases isParsed : toyixAtoi text with
      | none => rw [toyixAtoiCall, isParsed]
      | some parsed =>
        obtain ⟨isTyped, isSmall, -⟩ := parsedIs isParsed
        exact absurd ⟨by omega, by omega⟩ (outside parsed isTyped)
    · intro pid isPid
      rw [pidArgument] at isPid
      split at isPid
      · cases isPid
      · rename_i parsed isParsed
        obtain ⟨isTyped, isSmall, -⟩ := parsedIs isParsed
        split at isPid
        · cases isPid
        · rename_i positive
          obtain rfl := Option.some.inj isPid
          have same : ((UInt32.ofNat parsed.toNat).toNat : Int) = parsed := by
            rw [UInt32.toNat_ofNat_of_lt' (by simp only [UInt32.size]; omega)]
            omega
          rw [same]
          exact isTyped
    · intro name shell code isCode
      simp only [cmdExit] at isCode
      split at isCode
      · cases isCode
      · rename_i parsed isParsed
        obtain rfl : parsed = code := Option.some.inj isCode
        exact (parsedIs isParsed).1

/-- `4294967297` is accepted as the pid 1. -/
theorem large_number_accepted : ¬ AtoiExact "4294967297".toList := by
  intro exact_
  have accepted : toyixAtoiCall "4294967297".toList 0 = (true, 1) := by decide
  have refused := exact_.refuses 0 fun number isNumber => by
    obtain ⟨-, -, isValue⟩ := (typed_number_iff _ number).mp isNumber
    have same : number = 4294967297 := isValue.trans (by decide)
    omega
  rw [accepted] at refused
  cases refused

end Toyix.Text
