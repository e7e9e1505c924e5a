import Mathlib.Data.List.Induction
import Toyix.Library.Words

/-!
# Shift and caps lock

`keyboard_irq_handler` of `drivers/input/keyboard.c` turns scancodes into characters. It keeps
one bit for both shift keys and one bit for caps lock. A history is the list of the scancodes
handled so far, the oldest first; which keys are held and how often caps lock was pressed is read
off the history alone, and the bits of the driver are compared with that.

A scancode with the high bit set is the release of a key, any other one a press of it.
-/

namespace Toyix.Input

def scLshift : UInt8 := 0x2A
def scRshift : UInt8 := 0x36
def scCapslock : UInt8 := 0x3A

/-- A table of characters with designated entries; the others are zero. -/
def asciiTable (entries : List (UInt8 × Char)) (scancode : UInt8) : UInt8 :=
  match entries.lookup scancode with
  | some ch => ch.toUInt8
  | none => 0

def plainKeys : List (UInt8 × Char) :=
  [(0x02, '1'), (0x03, '2'), (0x04, '3'), (0x05, '4'), (0x06, '5'), (0x07, '6'), (0x08, '7'),
    (0x09, '8'), (0x0A, '9'), (0x0B, '0'), (0x0C, '-'), (0x0D, '='), (0x0E, '\x08'), (0x0F, '\t'),
    (0x10, 'q'), (0x11, 'w'), (0x12, 'e'), (0x13, 'r'), (0x14, 't'), (0x15, 'y'), (0x16, 'u'),
    (0x17, 'i'), (0x18, 'o'), (0x19, 'p'), (0x1A, '['), (0x1B, ']'), (0x1C, '\n'),
    (0x1E, 'a'), (0x1F, 's'), (0x20, 'd'), (0x21, 'f'), (0x22, 'g'), (0x23, 'h'), (0x24, 'j'),
    (0x25, 'k'), (0x26, 'l'), (0x27, ';'), (0x28, '\x27'), (0x29, '\x60'),
    (0x2B, '\\'), (0x2C, 'z'), (0x2D, 'x'), (0x2E, 'c'), (0x2F, 'v'), (0x30, 'b'), (0x31, 'n'),
    (0x32, 'm'), (0x33, ','), (0x34, '.'), (0x35, '/'), (0x39, ' ')]

def shiftedKeys : List (UInt8 × Char) :=
  [(0x02, '!'), (0x03, '@'), (0x04, '#'), (0x05, '$'), (0x06, '%'), (0x07, '^'), (0x08, '&'),
    (0x09, '*'), (0x0A, '('), (0x0B, ')'), (0x0C, '_'), (0x0D, '+'),
    (0x1A, '\x7b'), (0x1B, '\x7d'), (0x27, ':'), (0x28, '\x22'), (0x29, '~'),
    (0x2B, '|'), (0x33, '<'), (0x34, '>'), (0x35, '?')]

/-- `scancode_set1_ascii`. -/
def scancodeSet1Ascii : UInt8 → UInt8 := asciiTable plainKeys

/-- `scancode_set1_shifted_ascii`. -/
def scancodeSet1ShiftedAscii : UInt8 → UInt8 := asciiTable shiftedKeys

def asciiIsLower (ch : UInt8) : Bool := decide (97 ≤ ch ∧ ch ≤ 122)

def asciiIsUpper (ch : UInt8) : Bool := decide (65 ≤ ch ∧ ch ≤ 90)

def asciiToUpper (ch : UInt8) : UInt8 := if asciiIsLower ch then ch - 97 + 65 else ch

/-- `keyboard_shift_down` and `keyboard_caps_lock`, which are 0 or 1. -/
structure Modifiers where
  shiftDown : Bool
  capsLock : Bool
  deriving DecidableEq

/-- `keyboard_translate_scancode`. -/
def keyboardTranslateScancode (modifiers : Modifiers) (scancode : UInt8) : UInt8 :=
  let base := scancodeSet1Ascii scancode
  if base = 0 then 0
  else if asciiIsLower base || asciiIsUpper base then
    let upper := modifiers.shiftDown ^^ modifiers.capsLock
    if upper then asciiToUpper base else base
  else if modifiers.shiftDown && scancodeSet1ShiftedAscii scancode != 0 then
    scancodeSet1ShiftedAscii scancode
  else base

/-- `keyboard_handle_modifier`. -/
def keyboardHandleModifier (scancode : UInt8) (modifiers : Modifiers) : Modifiers :=
  let released := decide (scancode &&& 0x80 ≠ 0)
  let code := scancode &&& 0x7F
  if code = scLshift ∨ code = scRshift then { modifiers with shiftDown := !released }
  else if released = false ∧ code = scCapslock then
    { modifiers with capsLock := !modifiers.capsLock }
  else modifiers

/-- `keyboard_is_modifier`. -/
def keyboardIsModifier (scancode : UInt8) : Bool :=
  let code := scancode &&& 0x7F
  decide (code = scLshift ∨ code = scRshift ∨ code = scCapslock)

/-- `keyboard_irq_handler`, with the character that is given to `keyboard_deliver_char`. -/
def keyboardIrqHandler (scancode : UInt8) (modifiers : Modifiers) : Modifiers × Option UInt8 :=
  if keyboardIsModifier scancode then (keyboardHandleModifier scancode modifiers, none)
  else if scancode &&& 0x80 ≠ 0 then (modifiers, none)
  else if scancode < 128 then
    let ch := keyboardTranslateScancode modifiers scancode
    (modifiers, if ch ≠ 0 then some ch else none)
  else (modifiers, none)

/-- The bits of the driver after a history, from those that `keyboard_init` sets. -/
def modifiersAfter (history : List UInt8) : Modifiers :=
  history.foldl (fun modifiers scancode => (keyboardIrqHandler scancode modifiers).1) ⟨false, false⟩

/-- The character delivered for a key that is pressed after a history. -/
def delivered (history : List UInt8) (scancode : UInt8) : Option UInt8 :=
  (keyboardIrqHandler scancode (modifiersAfter history)).2

/-! ## What a history says -/

/-- The release of a key. -/
def release (key : UInt8) : UInt8 := key ||| 0x80

/-- A key is held when it was pressed and not released since. -/
def keyHeld (key : UInt8) (history : List UInt8) : Bool :=
  history.foldl (fun held scancode =>
    if scancode = key then true else if scancode = release key then false else held) false

def shiftHeld (history : List UInt8) : Bool := keyHeld scLshift history || keyHeld scRshift history

/-- Whether caps lock was pressed an odd number of times. -/
def capsOn (history : List UInt8) : Bool := decide (history.count scCapslock % 2 = 1)

/-- The key is a letter. -/
def LetterKey (scancode : UInt8) : Prop := asciiIsLower (scancodeSet1Ascii scancode)

/-- The key has a symbol and a shifted symbol. -/
def SymbolKey (scancode : UInt8) : Prop :=
  ¬ LetterKey scancode ∧ scancodeSet1ShiftedAscii scancode ≠ 0

instance (scancode : UInt8) : Decidable (LetterKey scancode) := inferInstanceAs (Decidable (_ = true))

instance (scancode : UInt8) : Decidable (SymbolKey scancode) := inferInstanceAs (Decidable (_ ∧ _))

/-- The character delivered for a key is the one its history asks for. -/
structure KeyPressLaw (history : List UInt8) (scancode : UInt8) : Prop where
  letter : LetterKey scancode → delivered history scancode =
    some (if shiftHeld history ^^ capsOn history then asciiToUpper (scancodeSet1Ascii scancode)
      else scancodeSet1Ascii scancode)
  symbol : SymbolKey scancode → delivered history scancode =
    some (if shiftHeld history then scancodeSet1ShiftedAscii scancode
      else scancodeSet1Ascii scancode)

/-- The last scancode of a shift key in a history. -/
def lastShift (history : List UInt8) : Option UInt8 :=
  history.reverse.find? fun scancode =>
    decide (scancode &&& 0x7F = scLshift ∨ scancode &&& 0x7F = scRshift)

/-- One shift key was released last, and the other one is held. -/
def OtherShiftHeld (history : List UInt8) : Prop :=
  (lastShift history = some (release scLshift) ∧ keyHeld scRshift history = true) ∨
    (lastShift history = some (release scRshift) ∧ keyHeld scLshift history = true)

instance (history : List UInt8) : Decidable (OtherShiftHeld history) :=
  inferInstanceAs (Decidable (_ ∨ _))

/-! ## One scancode -/

/-- The four scancodes of the shift keys. -/
theorem shift_scancode (scancode : UInt8)
    (isShift : scancode &&& 0x7F = scLshift ∨ scancode &&& 0x7F = scRshift) :
    scancode = scLshift ∨ scancode = scRshift ∨ scancode = release scLshift ∨
      scancode = release scRshift := by
  revert isShift
  apply Library.forall_byte (P := fun scancode =>
    scancode &&& 0x7F = scLshift ∨ scancode &&& 0x7F = scRshift →
      scancode = scLshift ∨ scancode = scRshift ∨ scancode = release scLshift ∨
        scancode = release scRshift)
  decide +kernel

/-- What a scancode does to the bits of the driver. -/
theorem handler_modifiers (scancode : UInt8) (modifiers : Modifiers) :
    (keyboardIrqHandler scancode modifiers).1 =
      { shiftDown :=
          if scancode &&& 0x7F = scLshift ∨ scancode &&& 0x7F = scRshift then
            decide (scancode = scLshift ∨ scancode = scRshift)
          else modifiers.shiftDown
        capsLock := if scancode = scCapslock then !modifiers.capsLock else modifiers.capsLock } := by
  obtain ⟨shiftDown, capsLock⟩ := modifiers
  apply Library.forall_byte (P := fun scancode =>
    (keyboardIrqHandler scancode ⟨shiftDown, capsLock⟩).1 =
      { shiftDown :=
          if scancode &&& 0x7F = scLshift ∨ scancode &&& 0x7F = scRshift then
            decide (scancode = scLshift ∨ scancode = scRshift)
          else shiftDown
        capsLock := if scancode = scCapslock then !capsLock else capsLock })
  cases shiftDown <;> cases capsLock <;> decide +kernel

/-- What a table holds for a key is one of its entries. -/
theorem ascii_table_entry {entries : List (UInt8 × Char)} {scancode : UInt8}
    (filled : asciiTable entries scancode ≠ 0) :
    ∃ entry ∈ entries, entry.1 = scancode ∧ asciiTable entries scancode = entry.2.toUInt8 := by
  unfold asciiTable at filled ⊢
  cases found : entries.lookup scancode with
  | none =>
    rw [found] at filled
    exact absurd rfl filled
  | some ch =>
    obtain ⟨before, after, split, -⟩ := List.lookup_eq_some_iff.mp found
    have isEntry : (scancode, ch) ∈ entries := by
      rw [split]
      exact List.mem_append_right before List.mem_cons_self
    exact ⟨(scancode, ch), isEntry, rfl, rfl⟩

/-- The scancode is the press of a key that is no modifier. -/
def Ordinary (scancode : UInt8) : Prop :=
  keyboardIsModifier scancode = false ∧ scancode &&& 0x80 = 0 ∧ scancode < 128

instance (scancode : UInt8) : Decidable (Ordinary scancode) := inferInstanceAs (Decidable (_ ∧ _))

theorem letter_key_facts {scancode : UInt8} (isLetter : LetterKey scancode) :
    Ordinary scancode ∧
      asciiToUpper (scancodeSet1Ascii scancode) ≠ scancodeSet1Ascii scancode ∧
      scancodeSet1Ascii scancode ≠ 0 ∧ asciiToUpper (scancodeSet1Ascii scancode) ≠ 0 := by
  have filled : asciiTable plainKeys scancode ≠ 0 := by
    intro isZero
    rw [LetterKey, scancodeSet1Ascii, isZero] at isLetter
    cases isLetter
  obtain ⟨entry, isEntry, rfl, shows⟩ := ascii_table_entry filled
  rw [LetterKey] at isLetter
  simp only [scancodeSet1Ascii, shows] at isLetter ⊢
  revert isLetter
  revert entry
  decide +kernel

theorem symbol_key_facts {scancode : UInt8} (isSymbol : SymbolKey scancode) :
    Ordinary scancode ∧ scancodeSet1ShiftedAscii scancode ≠ scancodeSet1Ascii scancode ∧
      scancodeSet1Ascii scancode ≠ 0 ∧ asciiIsLower (scancodeSet1Ascii scancode) = false ∧
      asciiIsUpper (scancodeSet1Ascii scancode) = false := by
  obtain ⟨-, filled⟩ := isSymbol
  obtain ⟨entry, isEntry, rfl, shows⟩ := ascii_table_entry filled
  rw [scancodeSet1ShiftedAscii, shows]
  clear filled shows
  revert entry
  decide +kernel

theorem handler_ordinary {scancode : UInt8} (ordinary : Ordinary scancode) (modifiers : Modifiers) :
    (keyboardIrqHandler scancode modifiers).2 =
      if keyboardTranslateScancode modifiers scancode ≠ 0 then
        some (keyboardTranslateScancode modifiers scancode) else none := by
  obtain ⟨notModifier, pressed, low⟩ := ordinary
  simp only [keyboardIrqHandler, notModifier, Bool.false_eq_true, ↓reduceIte, pressed, ne_eq,
    not_true_eq_false, low]

/-- What the driver delivers for a letter. -/
theorem handler_letter {scancode : UInt8} (isLetter : LetterKey scancode) (modifiers : Modifiers) :
    (keyboardIrqHandler scancode modifiers).2 =
      some (if modifiers.shiftDown ^^ modifiers.capsLock then
        asciiToUpper (scancodeSet1Ascii scancode) else scancodeSet1Ascii scancode) := by
  obtain ⟨ordinary, -, filled, upperFilled⟩ := letter_key_facts isLetter
  have isLower : asciiIsLower (scancodeSet1Ascii scancode) = true := isLetter
  rw [handler_ordinary ordinary]
  simp only [keyboardTranslateScancode, filled, ↓reduceIte, isLower, Bool.true_or]
  cases modifiers.shiftDown ^^ modifiers.capsLock <;> simp [upperFilled, filled]

/-- What the driver delivers for a key with a shifted symbol. -/
theorem handler_symbol {scancode : UInt8} (isSymbol : SymbolKey scancode) (modifiers : Modifiers) :
    (keyboardIrqHandler scancode modifiers).2 =
      some (if modifiers.shiftDown then scancodeSet1ShiftedAscii scancode
        else scancodeSet1Ascii scancode) := by
  obtain ⟨ordinary, -, filled, notLower, notUpper⟩ := symbol_key_facts isSymbol
  have shiftedFilled := isSymbol.2
  rw [handler_ordinary ordinary]
  simp only [keyboardTranslateScancode, filled, ↓reduceIte, notLower, notUpper, Bool.or_self,
    Bool.false_eq_true]
  cases modifiers.shiftDown <;> simp [shiftedFilled, filled]

/-! ## Whole histories -/

theorem modifiers_after_snoc (history : List UInt8) (scancode : UInt8) :
    modifiersAfter (history ++ [scancode]) =
      (keyboardIrqHandler scancode (modifiersAfter history)).1 := by
  simp only [modifiersAfter, List.foldl_append, List.foldl_cons, List.foldl_nil]

theorem key_held_snoc (key : UInt8) (history : List UInt8) (scancode : UInt8) :
    keyHeld key (history ++ [scancode]) =
      if scancode = key then true
      else if scancode = release key then false else keyHeld key history := by
  simp only [keyHeld, List.foldl_append, List.foldl_cons, List.foldl_nil]

theorem last_shift_snoc (history : List UInt8) (scancode : UInt8) :
    lastShift (history ++ [scancode]) =
      if scancode &&& 0x7F = scLshift ∨ scancode &&& 0x7F = scRshift then some scancode
      else lastShift history := by
  simp only [lastShift, List.reverse_append, List.reverse_cons, List.reverse_nil, List.nil_append,
    List.singleton_append, List.find?_cons]
  by_cases isShift : scancode &&& 0x7F = scLshift ∨ scancode &&& 0x7F = scRshift
  · rw [if_pos isShift, decide_eq_true isShift]
  · rw [if_neg isShift, decide_eq_false isShift]

/-- The bit for caps lock is right. -/
theorem caps_lock_right (history : List UInt8) :
    (modifiersAfter history).capsLock = capsOn history := by
  induction history using List.reverseRecOn with
  | nil => rfl
  | append_singleton history scancode ih =>
    rw [modifiers_after_snoc, handler_modifiers, capsOn, List.count_append, List.count_singleton]
    simp only [ih, capsOn]
    by_cases isCaps : scancode = scCapslock
    · subst isCaps
      simp only [↓reduceIte, beq_self_eq_true]
      rw [← decide_not, decide_eq_decide]
      omega
    · simp only [isCaps, ↓reduceIte, beq_iff_eq, Nat.add_zero]

/-- The bit for shift tells whether the last scancode of a shift key was a press. -/
theorem shift_down_last (history : List UInt8) :
    (modifiersAfter history).shiftDown =
      decide (lastShift history = some scLshift ∨ lastShift history = some scRshift) := by
  induction history using List.reverseRecOn with
  | nil => rfl
  | append_singleton history scancode ih =>
    rw [modifiers_after_snoc, handler_modifiers, last_shift_snoc]
    by_cases isShift : scancode &&& 0x7F = scLshift ∨ scancode &&& 0x7F = scRshift
    · simp only [if_pos isShift, Option.some.injEq]
    · simp only [if_neg isShift, ih]

/-- The key that the last scancode of a shift key belongs to is held when that was a press. -/
theorem last_shift_held (history : List UInt8) :
    match lastShift history with
    | none => keyHeld scLshift history = false ∧ keyHeld scRshift history = false
    | some scancode =>
      (scancode = scLshift ∧ keyHeld scLshift history = true) ∨
      (scancode = scRshift ∧ keyHeld scRshift history = true) ∨
      (scancode = release scLshift ∧ keyHeld scLshift history = false) ∨
      (scancode = release scRshift ∧ keyHeld scRshift history = false) := by
  induction history using List.reverseRecOn with
  | nil => exact ⟨rfl, rfl⟩
  | append_singleton history scancode ih =>
    rw [last_shift_snoc, key_held_snoc, key_held_snoc]
    by_cases isShift : scancode &&& 0x7F = scLshift ∨ scancode &&& 0x7F = scRshift
    · rw [if_pos isShift]
      rcases shift_scancode scancode isShift with rfl | rfl | rfl | rfl
      · exact .inl ⟨rfl, rfl⟩
      · exact .inr (.inl ⟨rfl, rfl⟩)
      · exact .inr (.inr (.inl ⟨rfl, rfl⟩))
      · exact .inr (.inr (.inr ⟨rfl, rfl⟩))
    · have notShift : scancode ≠ scLshift ∧ scancode ≠ scRshift ∧ scancode ≠ release scLshift ∧
          scancode ≠ release scRshift := by
        refine ⟨?_, ?_, ?_, ?_⟩ <;> rintro rfl <;> exact isShift (by decide)
      obtain ⟨notLeft, notRight, notLeftUp, notRightUp⟩ := notShift
      simp only [if_neg isShift, if_neg notLeft, if_neg notRight, if_neg notLeftUp, if_neg notRightUp]
      exact ih

/-- The bit for shift is wrong exactly when one shift key was released while the other is held. -/
theorem shift_down_right_iff (history : List UInt8) :
    (modifiersAfter history).shiftDown = shiftHeld history ↔ ¬ OtherShiftHeld history := by
  have held := last_shift_held history
  rw [shift_down_last, shiftHeld, OtherShiftHeld]
  cases last : lastShift history with
  | none =>
    simp only [last] at held
    simp [held.1, held.2]
  | some scancode =>
    simp only [last] at held
    rcases held with ⟨rfl, isHeld⟩ | ⟨rfl, isHeld⟩ | ⟨rfl, isHeld⟩ | ⟨rfl, isHeld⟩
    · have pressed : scLshift ≠ release scLshift ∧ scLshift ≠ release scRshift := by decide
      simp [isHeld, pressed]
    · have pressed : scRshift ≠ release scLshift ∧ scRshift ≠ release scRshift := by decide
      simp [isHeld, pressed]
    · have released : release scLshift ≠ scLshift ∧ release scLshift ≠ scRshift ∧
          release scLshift ≠ release scRshift := by decide
      simp [isHeld, released]
    · have released : release scRshift ≠ scLshift ∧ release scRshift ≠ scRshift ∧
          release scRshift ≠ release scLshift := by decide
      simp [isHeld, released]

/-- A choice between two different characters tells the bit. -/
theorem choice_injective {first second : UInt8} (differ : first ≠ second) {bit held : Bool}
    (same : (if bit then first else second) = if held then first else second) : bit = held := by
  cases bit with
  | false =>
    cases held with
    | false => rfl
    | true => exact absurd same.symm differ
  | true =>
    cases held with
    | false => exact absurd same differ
    | true => rfl

/-- A key press gives the character that its history asks for exactly when the key has only one
character, or it is not the case that one shift key was released and the other one is still held.

Proof: the bit for caps lock is always right. The two characters of a key differ, so the right one
is delivered just when the bit for shift is right. -/
theorem key_press_law_iff (history : List UInt8) (scancode : UInt8) :
    KeyPressLaw history scancode ↔
      ((LetterKey scancode ∨ SymbolKey scancode) → ¬ OtherShiftHeld history) := by
  rw [← shift_down_right_iff]
  constructor
  · rintro ⟨letter, symbol⟩ (isLetter | isSymbol)
    · have shown := letter isLetter
      rw [delivered, handler_letter isLetter, caps_lock_right] at shown
      have same := choice_injective (letter_key_facts isLetter).2.1 (Option.some.inj shown)
      exact Bool.xor_left_inj.mp same
    · have shown := symbol isSymbol
      rw [delivered, handler_symbol isSymbol] at shown
      exact choice_injective (symbol_key_facts isSymbol).2.1 (Option.some.inj shown)
  · intro right
    constructor
    · intro isLetter
      rw [delivered, handler_letter isLetter, caps_lock_right, right (.inl isLetter)]
    · intro isSymbol
      rw [delivered, handler_symbol isSymbol, right (.inr isSymbol)]

/-- Left shift is held, right shift is pressed and released, and the letter comes out small. -/
theorem held_shift_ignored :
    shiftHeld [scLshift, scRshift, release scRshift] = true ∧
      capsOn [scLshift, scRshift, release scRshift] = false ∧
      delivered [scLshift, scRshift, release scRshift] 0x1E = some 97 ∧
      ¬ KeyPressLaw [scLshift, scRshift, release scRshift] 0x1E := by
  refine ⟨by decide, by decide, by decide, ?_⟩
  intro law
  have wrong := law.letter (by decide)
  revert wrong
  decide

end Toyix.Input
