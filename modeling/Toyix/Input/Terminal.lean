import Toyix.Library.Splitting
import Toyix.Library.Words

/-!
# The line discipline

`terminal_readline` of `kernel/terminal.c`. It takes characters from `keyboard_getchar_blocking`, edits
the line in the buffer of its caller and echoes what it does to the console. The characters come from a
stream; when it is used up the call waits for the next one. The buffer is exactly as long as the caller
says, and a write outside of it has no result.

What the user means is the line edited by the characters typed; what the user sees is the line that the
echoed characters leave on the screen. Both are the contents of the buffer whenever the call waits.
-/

namespace Toyix.Input

def backspace : UInt8 := 8
def newline : UInt8 := 10
def carriageReturn : UInt8 := 13
def delete : UInt8 := 127
def blank : UInt8 := 32

/-! ## The call -/

/-- The test of the source; a `char` has a sign. -/
def terminalIsPrintable (ch : UInt8) : Bool := decide (ch.toInt8 ≥ 32) && decide (ch.toInt8 ≤ 126)

/-- The variables of a call, and what it has echoed. -/
structure Line where
  buffer : List UInt8
  length : Nat
  echoed : List UInt8
deriving DecidableEq

/-- `buffer[i] = ch`. -/
def storeChar (buffer : List UInt8) (i : Nat) (ch : UInt8) : Option (List UInt8) :=
  if i < buffer.length then some (buffer.set i ch) else none

/-- The part of the loop for a character that does not end the line. -/
def editLine (ch : UInt8) (line : Line) : Option Line :=
  if ch = backspace ∨ ch = delete then
    if line.length > 0 then do
      let length := line.length - 1
      let buffer ← storeChar line.buffer length 0
      some ⟨buffer, length, line.echoed ++ [backspace, blank, backspace]⟩
    else some line
  else if terminalIsPrintable ch then
    if line.length + 1 < line.buffer.length then do
      let buffer ← storeChar line.buffer line.length ch
      let length := line.length + 1
      let buffer ← storeChar buffer length 0
      some ⟨buffer, length, line.echoed ++ [ch]⟩
    else some line
  else some line

/-- A call that has returned the length of its line, with what is left of the stream; or a call that
waits for another character. -/
inductive Readline where
  | returned (line : Line) (rest : List UInt8)
  | waiting (line : Line)
deriving DecidableEq

def readlineFrom : List UInt8 → Line → Option Readline
  | [], line => some (.waiting line)
  | ch :: stream, line => do
    let ch := if ch = carriageReturn then newline else ch
    if ch = newline then
      let buffer ← storeChar line.buffer line.length 0
      some (.returned ⟨buffer, line.length, line.echoed ++ [newline]⟩ stream)
    else
      let line ← editLine ch line
      readlineFrom stream line

def terminalReadline (buffer stream : List UInt8) : Option Readline :=
  if buffer.length = 0 then some (.returned ⟨buffer, 0, []⟩ stream)
  else do
    let buffer ← storeChar buffer 0 0
    readlineFrom stream ⟨buffer, 0, []⟩

/-! ## What is meant and what is seen -/

def endsLine (ch : UInt8) : Bool := ch = newline || ch = carriageReturn

def Printable (ch : UInt8) : Prop := 32 ≤ ch.toNat ∧ ch.toNat ≤ 126

instance (ch : UInt8) : Decidable (Printable ch) := inferInstanceAs (Decidable (_ ∧ _))

/-- One character typed: a printable one is appended if there is room for it and a terminator, a
backspace or 127 deletes the last one, and any other is ignored. -/
def edit (size : Nat) (text : List UInt8) (ch : UInt8) : List UInt8 :=
  if ch = backspace ∨ ch = delete then text.dropLast
  else if Printable ch ∧ text.length + 1 < size then text ++ [ch]
  else text

/-- The line that the characters typed leave. -/
def edited (size : Nat) (typed : List UInt8) : List UInt8 := typed.foldl (edit size) []

/-- The line that the characters echoed leave on the screen: a printable one appends itself, and
backspace, blank, backspace removes the last one; nothing else is understood. -/
def seen : List UInt8 → List UInt8 → Option (List UInt8)
  | text, [] => some text
  | text, 8 :: 32 :: 8 :: echoed => seen text.dropLast echoed
  | text, ch :: echoed => if Printable ch then seen (text ++ [ch]) echoed else none

/-- The buffer holds the line that was typed, which is the one that is seen. -/
structure Agrees (size : Nat) (typed : List UInt8) (line : Line) : Prop where
  whole : line.buffer.length = size
  fits : line.length < size
  holds : line.buffer.take line.length = edited size typed
  terminated : line.buffer[line.length]? = some 0
  printable : ∀ ch ∈ edited size typed, Printable ch
  shows : seen [] line.echoed = some (edited size typed)

/-! ## One character -/

variable {size : Nat} {typed : List UInt8} {line : Line} {ch : UInt8} {stream : List UInt8}

theorem printable_iff (ch : UInt8) : terminalIsPrintable ch = true ↔ Printable ch := by
  apply Library.forall_byte (P := fun ch => terminalIsPrintable ch = true ↔ Printable ch)
  decide +kernel

theorem store_char_inside {buffer : List UInt8} {i : Nat} (inside : i < buffer.length) (ch : UInt8) :
    storeChar buffer i ch = some (buffer.set i ch) := if_pos inside

theorem edited_snoc (size : Nat) (typed : List UInt8) (ch : UInt8) :
    edited size (typed ++ [ch]) = edit size (edited size typed) ch := by
  rw [edited, List.foldl_append]
  rfl

theorem seen_printed (text echoed : List UInt8) (isPrintable : Printable ch) :
    seen text (ch :: echoed) = seen (text ++ [ch]) echoed := by
  rw [seen, if_pos isPrintable]
  rintro others rfl -
  exact absurd isPrintable (by decide)

/-- What is echoed later goes on from what is seen. -/
theorem seen_append {text echoed after : List UInt8} (later : List UInt8)
    (shows : seen text echoed = some after) : seen text (echoed ++ later) = seen after later := by
  fun_induction seen text echoed with
  | case1 text => rw [List.nil_append, Option.some.inj shows]
  | case2 text echoed ih => exact ih shows
  | case3 text ch echoed notErasure isPrintable ih =>
    rw [List.cons_append, seen_printed _ _ isPrintable]
    exact ih shows
  | case4 => cases shows

section Agrees

variable (agrees : Agrees size typed line)

include agrees

theorem Agrees.length : (edited size typed).length = line.length := by
  have fits := agrees.fits
  rw [← agrees.holds, List.length_take, agrees.whole]
  omega

theorem Agrees.unchanged (same : edited size (typed ++ [ch]) = edited size typed) :
    Agrees size (typed ++ [ch]) line := by
  constructor
  · exact agrees.whole
  · exact agrees.fits
  · rw [same]
    exact agrees.holds
  · exact agrees.terminated
  · rw [same]
    exact agrees.printable
  · rw [same]
    exact agrees.shows

/-- A backspace on a line that is not empty. -/
theorem Agrees.erase (same : edited size (typed ++ [ch]) = (edited size typed).dropLast)
    (notEmpty : line.length > 0) :
    Agrees size (typed ++ [ch]) ⟨line.buffer.set (line.length - 1) 0, line.length - 1,
      line.echoed ++ [backspace, blank, backspace]⟩ := by
  have fits := agrees.fits
  have isSize := agrees.whole
  constructor
  · rw [List.length_set, isSize]
  · dsimp only
    omega
  · dsimp only
    rw [same, ← agrees.holds, List.dropLast_take (by omega), List.take_set_of_le (Nat.le_refl _)]
  · exact List.getElem?_set_self (by omega)
  · intro other member
    rw [same] at member
    exact agrees.printable other (List.dropLast_subset _ member)
  · rw [seen_append _ agrees.shows, same]
    rfl

/-- A printable character on a line that has room for it. -/
theorem Agrees.append (same : edited size (typed ++ [ch]) = edited size typed ++ [ch])
    (isPrintable : Printable ch) (room : line.length + 1 < size) :
    Agrees size (typed ++ [ch]) ⟨(line.buffer.set line.length ch).set (line.length + 1) 0,
      line.length + 1, line.echoed ++ [ch]⟩ := by
  have isSize := agrees.whole
  constructor
  · rw [List.length_set, List.length_set, isSize]
  · exact room
  · dsimp only
    rw [same, ← agrees.holds, List.take_set_of_le (Nat.le_refl _), List.take_add_one,
      List.take_set_of_le (Nat.le_refl _), List.getElem?_set_self (by omega)]
    rfl
  · apply List.getElem?_set_self
    rw [List.length_set]
    omega
  · intro other member
    rw [same, List.mem_append, List.mem_singleton] at member
    cases member with
    | inl earlier => exact agrees.printable other earlier
    | inr isNew => exact isNew ▸ isPrintable
  · rw [seen_append _ agrees.shows, same, seen_printed _ _ isPrintable, seen]

/-- One round of the loop. -/
theorem edit_line_agrees (ch : UInt8) :
    ∃ next, editLine ch line = some next ∧ Agrees size (typed ++ [ch]) next := by
  have fits := agrees.fits
  have isSize := agrees.whole
  have isLength := agrees.length
  have isEdit := edited_snoc size typed ch
  rw [edit] at isEdit
  rw [editLine]
  by_cases erases : ch = backspace ∨ ch = delete
  · rw [if_pos erases] at isEdit ⊢
    by_cases notEmpty : line.length > 0
    · rw [if_pos notEmpty]
      dsimp only
      rw [store_char_inside (by omega)]
      exact ⟨_, rfl, agrees.erase isEdit notEmpty⟩
    · rw [if_neg notEmpty]
      have isEmpty : edited size typed = [] := List.eq_nil_of_length_eq_zero (by omega)
      refine ⟨line, rfl, agrees.unchanged ?_⟩
      rw [isEdit, isEmpty]
      rfl
  · rw [if_neg erases] at isEdit ⊢
    by_cases isPrintable : Printable ch
    · rw [if_pos ((printable_iff ch).mpr isPrintable)]
      by_cases room : line.length + 1 < size
      · rw [if_pos ⟨isPrintable, by omega⟩] at isEdit
        rw [if_pos (by omega), store_char_inside (by omega)]
        dsimp only [Option.bind_eq_bind, Option.bind_some]
        rw [store_char_inside (by rw [List.length_set]; omega)]
        exact ⟨_, rfl, agrees.append isEdit isPrintable room⟩
      · rw [if_neg (by omega)] at isEdit
        rw [if_neg (by omega)]
        exact ⟨line, rfl, agrees.unchanged isEdit⟩
    · rw [if_neg fun both => isPrintable both.1] at isEdit
      rw [if_neg fun isPrint => isPrintable ((printable_iff ch).mp isPrint)]
      exact ⟨line, rfl, agrees.unchanged isEdit⟩

end Agrees

/-! ## A whole call -/

/-- The loop reads a character that does not end the line. -/
theorem readline_from_cons (goesOn : endsLine ch = false) :
    readlineFrom (ch :: stream) line = (editLine ch line).bind (readlineFrom stream) := by
  simp only [endsLine, Bool.or_eq_false_iff, decide_eq_false_iff_not] at goesOn
  obtain ⟨notNewline, notReturn⟩ := goesOn
  rw [readlineFrom]
  simp only [notReturn, notNewline, ↓reduceIte, Option.bind_eq_bind]

/-- The loop reads a character that ends the line. -/
theorem readline_from_end (agrees : Agrees size typed line) (ends : endsLine ch = true) :
    readlineFrom (ch :: stream) line =
      some (.returned { line with echoed := line.echoed ++ [newline] } stream) := by
  have same : line.buffer.set line.length 0 = line.buffer := by
    obtain ⟨inside, isNul⟩ := List.getElem?_eq_some_iff.mp agrees.terminated
    have itself := List.set_getElem_self inside
    rwa [isNul] at itself
  have inside : line.length < line.buffer.length := by
    rw [agrees.whole]
    exact agrees.fits
  have isNewline : (if ch = carriageReturn then newline else ch) = newline := by
    simp only [endsLine, Bool.or_eq_true, decide_eq_true_eq] at ends
    rcases ends with rfl | rfl <;> rfl
  rw [readlineFrom, isNewline]
  simp only [↓reduceIte, store_char_inside inside, same, Option.bind_eq_bind, Option.bind_some]

/-- The loop, by induction on what is typed before it goes on. -/
theorem readline_from_run {more : List UInt8} (agrees : Agrees size typed line)
    (goesOn : ∀ ch ∈ more, endsLine ch = false) :
    ∃ next, readlineFrom (more ++ stream) line = readlineFrom stream next ∧
      Agrees size (typed ++ more) next := by
  induction more generalizing typed line with
  | nil => exact ⟨line, rfl, by rwa [List.append_nil]⟩
  | cons ch more ih =>
    obtain ⟨next, edits, nextAgrees⟩ := edit_line_agrees agrees ch
    obtain ⟨last, ran, lastAgrees⟩ := ih nextAgrees fun other member =>
      goesOn other (List.mem_cons_of_mem _ member)
    refine ⟨last, ?_, ?_⟩
    · rw [List.cons_append, readline_from_cons (goesOn ch List.mem_cons_self), edits]
      exact ran
    · rw [List.append_assoc] at lastAgrees
      exact lastAgrees

/-- A call that has read some characters, none of which ends the line. -/
theorem terminal_readline_run {buffer typed : List UInt8} (notEmpty : 1 ≤ buffer.length)
    (goesOn : ∀ ch ∈ typed, endsLine ch = false) (stream : List UInt8) :
    ∃ line, terminalReadline buffer (typed ++ stream) = readlineFrom stream line ∧
      Agrees buffer.length typed line := by
  have start : Agrees buffer.length [] ⟨buffer.set 0 0, 0, []⟩ := by
    constructor
    · exact List.length_set
    · exact notEmpty
    · rfl
    · exact List.getElem?_set_self notEmpty
    · exact fun _ member => absurd member List.not_mem_nil
    · rfl
  rw [terminalReadline, if_neg (by omega), store_char_inside notEmpty]
  exact readline_from_run start goesOn

/-- For every buffer and every stream with an end of line: while the call reads the characters before
it, the buffer always holds the line that was typed, terminated, which is also the line that is seen;
the call returns when it has read the first end of line, with the length of that line, and leaves the
rest of the stream. It never writes outside the buffer.

Proof: each round of the loop keeps the agreement; the rounds before the end of the line by induction on
the characters typed. -/
theorem readline_edits_and_echoes (buffer stream : List UInt8) (notEmpty : 1 ≤ buffer.length)
    (ends : ∃ ch ∈ stream, endsLine ch = true) :
    (∀ typed, typed <+: stream.takeWhile (fun ch => !endsLine ch) →
      ∃ line, terminalReadline buffer typed = some (.waiting line) ∧
        Agrees buffer.length typed line) ∧
    ∃ line, terminalReadline buffer stream =
        some (.returned { line with echoed := line.echoed ++ [newline] }
          (stream.drop ((stream.takeWhile fun ch => !endsLine ch).length + 1))) ∧
      Agrees buffer.length (stream.takeWhile fun ch => !endsLine ch) line := by
  have goesOn : ∀ ch ∈ stream.takeWhile fun ch => !endsLine ch, endsLine ch = false := by
    intro ch member
    simpa using List.mem_takeWhile_imp member
  constructor
  · intro typed before
    obtain ⟨line, ran, agrees⟩ := terminal_readline_run notEmpty
      (fun ch member => goesOn ch (before.subset member)) []
    rw [List.append_nil] at ran
    exact ⟨line, ran, agrees⟩
  · have split := List.takeWhile_append_dropWhile (p := fun ch => !endsLine ch) (l := stream)
    cases isRest : stream.dropWhile fun ch => !endsLine ch with
    | nil =>
      obtain ⟨ch, member, isEnd⟩ := ends
      have goes := List.dropWhile_eq_nil_iff.mp isRest ch member
      rw [isEnd] at goes
      cases goes
    | cons ch rest =>
      have isEnd : endsLine ch = true := by simpa using Library.Splitting.head_dropWhile isRest
      obtain ⟨line, ran, agrees⟩ := terminal_readline_run notEmpty goesOn (ch :: rest)
      refine ⟨line, ?_, agrees⟩
      rw [isRest] at split
      rw [split, readline_from_end agrees isEnd] at ran
      rw [ran]
      have isLeft : stream.drop ((stream.takeWhile fun ch => !endsLine ch).length + 1) = rest := by
        have dropped := congrArg (List.drop (stream.takeWhile fun ch => !endsLine ch).length) split
        rw [List.drop_left] at dropped
        rw [← List.drop_drop, ← dropped]
        rfl
      rw [isLeft]

/-- The stream of the kernel's own test of the line discipline, and a buffer of three cells: two
characters fit, the third is neither stored nor echoed, and one is deleted again. -/
theorem readline_edits_short_line :
    ∃ line, terminalReadline [9, 9, 9] [97, 98, 99, 8, 68, 10, 120] =
        some (.returned { line with echoed := line.echoed ++ [newline] } [120]) ∧
      Agrees 3 [97, 98, 99, 8, 68] line ∧ line.buffer.take line.length = [97, 68] := by
  obtain ⟨-, line, ran, agrees⟩ :=
    readline_edits_and_echoes [9, 9, 9] [97, 98, 99, 8, 68, 10, 120] (by decide)
      ⟨10, by decide, by decide⟩
  have holds : line.buffer.take line.length = [97, 68] := agrees.holds
  exact ⟨line, ran, agrees, holds⟩

end Toyix.Input
