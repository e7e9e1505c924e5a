import Toyix.Text.Numbers
import Toyix.Library.Splitting

/-!
# The words of a command line

The shell and the kernel monitor split a line in place: they overwrite separators with terminators and
collect pointers to the words. The cells of a line are its characters and the terminator; a pointer is a
position, and an access outside the cells has no result. So has a loop that does not end within as many
rounds as there are cells.

The shell overwrites the separator behind each word and goes on after it; it stops when there is no more
room. The monitor overwrites every separator before it looks for the next word; it refuses a line with
more words than there is room for.
-/

namespace Toyix.Text

open Library.Splitting Toyix.User

def nul : Char := '\x00'

/-! ## The loops -/

/-- `while (test(*p)) ++p;` -/
def skipWhile (test : Char → Bool) (cells : List Char) : Nat → Nat → Option Nat
  | 0, _ => none
  | fuel + 1, p => do
    let ch ← cells[p]?
    if test ch then skipWhile test cells fuel (p + 1) else some p

/-- `while (kchar_is_space(*cursor)) { *cursor = '\0'; cursor++; }` -/
def eraseSpaces : Nat → List Char → Nat → Option (Nat × List Char)
  | 0, _, _ => none
  | fuel + 1, cells, cursor => do
    let ch ← cells[cursor]?
    if kcharIsSpace ch then eraseSpaces fuel (cells.set cursor nul) (cursor + 1)
    else some (cursor, cells)

/-- The loop of the shell's `tokenize`. -/
def tokenizeFrom (maxArgs : Nat) : Nat → List Char → List Nat → Nat → Option (List Nat × List Char)
  | 0, _, _, _ => none
  | fuel + 1, cells, argv, p => do
    let ch ← cells[p]?
    if ch = nul then some (argv, cells)
    else
      let p ← skipWhile toyixIsspace cells (cells.length + 1) p
      let ch ← cells[p]?
      if ch = nul then some (argv, cells)
      else if argv.length ≥ maxArgs then some (argv, cells)
      else
        let argv := argv ++ [p]
        let p ← skipWhile (fun ch => ch ≠ nul && !toyixIsspace ch) cells (cells.length + 1) p
        let ch ← cells[p]?
        if ch ≠ nul then tokenizeFrom maxArgs fuel (cells.set p nul) argv (p + 1)
        else tokenizeFrom maxArgs fuel cells argv p

/-- `tokenize` of the shell: `argv` and the cells afterwards. -/
def shellTokenize (line : List Char) (maxArgs : Nat) : Option (List Nat × List Char) :=
  tokenizeFrom maxArgs (line.length + 1) line [] 0

/-- The loop of the monitor's `tokenize_line`; no argument vector when it returns 0. -/
def tokenizeLineFrom (maxArgs : Nat) :
    Nat → List Char → List Nat → Nat → Option (Option (List Nat) × List Char)
  | 0, _, _, _ => none
  | fuel + 1, cells, argv, cursor => do
    let ch ← cells[cursor]?
    if ch = nul then some (some argv, cells)
    else
      let (cursor, cells) ← eraseSpaces (cells.length + 1) cells cursor
      let ch ← cells[cursor]?
      if ch = nul then some (some argv, cells)
      else if argv.length ≥ maxArgs then some (none, cells)
      else
        let argv := argv ++ [cursor]
        let cursor ← skipWhile (fun ch => ch ≠ nul && !kcharIsSpace ch) cells (cells.length + 1) cursor
        tokenizeLineFrom maxArgs fuel cells argv cursor

/-- `tokenize_line` of the monitor. -/
def tokenizeLine (line : List Char) (maxArgs : Nat) : Option (Option (List Nat) × List Char) :=
  if maxArgs = 0 then some (none, line) else tokenizeLineFrom maxArgs (line.length + 1) line [] 0

/-! ## Cells -/

variable {cells cells' final rest word run remain : List Char} {p start begins fuel : Nat} {ch : Char}
  {isSpace : Char → Bool}

theorem cell_read (here : cells.drop p = ch :: rest) : cells[p]? = some ch := by
  have head : (cells.drop p)[0]? = cells[p + 0]? := List.getElem?_drop
  rw [here] at head
  exact head.symm

theorem cell_next (here : cells.drop p = ch :: rest) : cells.drop (p + 1) = rest := by
  rw [← List.drop_drop, here]
  rfl

theorem cells_after (here : cells.drop p = run ++ rest) : cells.drop (p + run.length) = rest := by
  rw [← List.drop_drop, here, List.drop_left]

theorem run_shorter (here : cells.drop p = run ++ rest) : run.length < cells.length + 1 := by
  have length := congrArg List.length here
  rw [List.length_drop, List.length_append] at length
  omega

/-- The characters of a word are at a position. -/
def Spelled (cells : List Char) (start : Nat) (word : List Char) : Prop :=
  nul ∉ word ∧ ∀ i, i < word.length → cells[start + i]? = word[i]?

/-- A word and its terminator are at a position. -/
def HasString (cells : List Char) (start : Nat) (word : List Char) : Prop :=
  Spelled cells start word ∧ cells[start + word.length]? = some nul

theorem spelled_here (here : cells.drop start = word ++ rest) (noNul : nul ∉ word) :
    Spelled cells start word := by
  refine ⟨noNul, ?_⟩
  intro i inside
  have read : (cells.drop start)[i]? = cells[start + i]? := List.getElem?_drop
  rw [← read, here, List.getElem?_append_left inside]

/-- Some separators were overwritten with terminators, and nothing else was. -/
def Marked (isSpace : Char → Bool) (cells cells' : List Char) : Prop :=
  ∀ q : Nat, cells'[q]? = cells[q]? ∨
    cells'[q]? = some nul ∧ ∃ ch, cells[q]? = some ch ∧ isSpace ch = true

theorem Marked.refl (isSpace : Char → Bool) (cells : List Char) : Marked isSpace cells cells :=
  fun _ => Or.inl rfl

theorem Marked.trans (earlier : Marked isSpace cells cells') (later : Marked isSpace cells' final) :
    Marked isSpace cells final := by
  intro q
  rcases later q with same | ⟨marked, ch, was, separates⟩
  · rw [same]
    exact earlier q
  · refine Or.inr ⟨marked, ?_⟩
    rcases earlier q with same | ⟨-, separator⟩
    · exact ⟨ch, same ▸ was, separates⟩
    · exact separator

theorem Marked.set (read : cells[p]? = some ch) (separates : isSpace ch = true) :
    Marked isSpace cells (cells.set p nul) := by
  intro q
  by_cases same : p = q
  · subst same
    exact Or.inr ⟨List.getElem?_set_self (List.getElem?_eq_some_iff.mp read).1, ch, read, separates⟩
  · exact Or.inl (List.getElem?_set_ne same)

/-- A terminator stays. -/
theorem Marked.terminator (marked : Marked isSpace cells cells') (terminated : cells[p]? = some nul) :
    cells'[p]? = some nul := by
  rcases marked p with same | ⟨isNul, -⟩
  · rw [same]
    exact terminated
  · exact isNul

/-- A word has no separators, so it stays. -/
theorem Spelled.marked (spelled : Spelled cells start word) (solid : ∀ ch ∈ word, isSpace ch = false)
    (marked : Marked isSpace cells cells') : Spelled cells' start word := by
  refine ⟨spelled.1, fun i inside => ?_⟩
  rcases marked (start + i) with same | ⟨-, ch, was, separates⟩
  · rw [same]
    exact spelled.2 i inside
  · rw [spelled.2 i inside] at was
    rw [solid ch (List.mem_of_getElem? was)] at separates
    cases separates

/-! ## What the inner loops do -/

/-- A loop passes a run of characters that meet its test and stops at the first one that does not. -/
theorem skip_while_run {test : Char → Bool} {stop : Char}
    (here : cells.drop p = run ++ stop :: rest) (passes : ∀ ch ∈ run, test ch = true)
    (stops : test stop = false) (enough : run.length < fuel) :
    skipWhile test cells fuel p = some (p + run.length) := by
  induction run generalizing p fuel with
  | nil =>
    cases fuel with
    | zero => exact absurd enough (Nat.not_lt_zero _)
    | succ fuel =>
      rw [skipWhile, cell_read here]
      simp [stops]
  | cons ch run ih =>
    cases fuel with
    | zero => exact absurd enough (Nat.not_lt_zero _)
    | succ fuel =>
      have next := ih (cell_next here) (fun ch member => passes ch (List.mem_cons_of_mem _ member))
        (Nat.lt_of_succ_lt_succ enough)
      rw [skipWhile, cell_read here]
      simp only [Option.bind_eq_bind, Option.bind_some, passes ch List.mem_cons_self, ↓reduceIte]
      rw [next, List.length_cons]
      congr 1
      omega

/-- Erasing a run of separators leaves everything else. -/
theorem erase_spaces_run {stop : Char} (here : cells.drop p = run ++ stop :: rest)
    (passes : ∀ ch ∈ run, kcharIsSpace ch = true) (stops : kcharIsSpace stop = false)
    (enough : run.length < fuel) :
    ∃ cells', eraseSpaces fuel cells p = some (p + run.length, cells') ∧
      Marked kcharIsSpace cells cells' ∧ cells'.drop (p + run.length) = stop :: rest ∧
      (run ≠ [] → cells'[p]? = some nul) := by
  induction run generalizing p fuel cells with
  | nil =>
    cases fuel with
    | zero => exact absurd enough (Nat.not_lt_zero _)
    | succ fuel =>
      refine ⟨cells, ?_, .refl _ cells, here, fun notEmpty => absurd rfl notEmpty⟩
      rw [eraseSpaces, cell_read here]
      simp [stops]
  | cons ch run ih =>
    cases fuel with
    | zero => exact absurd enough (Nat.not_lt_zero _)
    | succ fuel =>
      have read := cell_read here
      have separates := passes ch List.mem_cons_self
      have rest' : (cells.set p nul).drop (p + 1) = run ++ stop :: rest := by
        rw [List.drop_set_of_lt (Nat.lt_succ_self p)]
        exact cell_next here
      obtain ⟨cells', ran, marked, after, -⟩ := ih rest'
        (fun ch member => passes ch (List.mem_cons_of_mem _ member)) (Nat.lt_of_succ_lt_succ enough)
      rw [Nat.add_right_comm] at ran after
      refine ⟨cells', ?_, (Marked.set read separates).trans marked, after, fun _ => ?_⟩
      · rw [eraseSpaces, read]
        simp only [Option.bind_eq_bind, Option.bind_some, separates, ↓reduceIte]
        exact ran
      · exact marked.terminator (List.getElem?_set_self (List.getElem?_eq_some_iff.mp read).1)

/-- The separators in front of a text, and the first character that is none. -/
theorem blanks_run (isSpace : Char → Bool) (notSpace : isSpace nul = false)
    (here : cells.drop p = rest ++ [nul]) :
    ∃ stop tail, rest.dropWhile isSpace ++ [nul] = stop :: tail ∧ isSpace stop = false ∧
      cells.drop p = rest.takeWhile isSpace ++ stop :: tail ∧
      ∀ ch ∈ rest.takeWhile isSpace, isSpace ch = true := by
  have run : cells.drop p = rest.takeWhile isSpace ++ (rest.dropWhile isSpace ++ [nul]) := by
    rw [here, ← List.append_assoc, List.takeWhile_append_dropWhile]
  have blanks : ∀ ch ∈ rest.takeWhile isSpace, isSpace ch = true :=
    fun _ member => List.mem_takeWhile_imp member
  cases dropped : rest.dropWhile isSpace with
  | nil =>
    rw [dropped] at run
    exact ⟨nul, [], rfl, notSpace, run, blanks⟩
  | cons first others =>
    rw [dropped] at run
    exact ⟨first, others ++ [nul], rfl, head_dropWhile dropped, run, blanks⟩

/-! ## One word -/

/-- The next word of a text begins at a position, and a text remains behind it. -/
structure NextWord (isSpace : Char → Bool) (cells : List Char) (p : Nat) (rest : List Char)
    (begins : Nat) (word remain : List Char) : Prop where
  read : ∃ first, cells[begins]? = some first ∧ first ≠ nul
  ends : skipWhile (fun ch => ch ≠ nul && !isSpace ch) cells (cells.length + 1) begins =
    some (begins + word.length)
  spelled : Spelled cells begins word
  solid : ∀ ch ∈ word, isSpace ch = false
  behind : cells.drop (begins + word.length) = remain ++ [nul]
  noNul : nul ∉ remain
  followed : ∀ ch ∈ remain.head?, isSpace ch = true
  shorter : remain.length < rest.length
  first : words isSpace rest = word :: words isSpace remain
  position : ∀ room, starts isSpace (room + 1) p rest =
    begins :: starts isSpace room (begins + word.length) remain

/-- Behind the separators there is the terminator or a word. -/
theorem next_word (noNul : nul ∉ rest) (here : cells.drop (p + (rest.takeWhile isSpace).length) =
      rest.dropWhile isSpace ++ [nul]) :
    (cells[p + (rest.takeWhile isSpace).length]? = some nul ∧ words isSpace rest = [] ∧
      ∀ room, starts isSpace room p rest = []) ∨
    ∃ word remain, NextWord isSpace cells p rest (p + (rest.takeWhile isSpace).length) word remain := by
  cases dropped : rest.dropWhile isSpace with
  | nil =>
    rw [dropped] at here
    refine Or.inl ⟨cell_read here, ?_, ?_⟩
    · rw [← words_dropWhile, dropped, words_nil]
    · intro room
      cases room with
      | zero => rfl
      | succ room => simp only [starts, dropped]
  | cons first others =>
    rw [dropped] at here
    refine Or.inr ⟨(first :: others).takeWhile fun ch => !isSpace ch,
      (first :: others).dropWhile fun ch => !isSpace ch, ?_⟩
    have notSpace := head_dropWhile dropped
    have inRest : ∀ ch ∈ first :: others, ch ∈ rest :=
      fun ch member => (List.dropWhile_sublist isSpace).mem (dropped ▸ member)
    have notNul : ∀ ch ∈ first :: others, ch ≠ nul := by
      rintro ch member rfl
      exact noNul (inRest nul member)
    have run : cells.drop (p + (rest.takeWhile isSpace).length) =
        ((first :: others).takeWhile fun ch => !isSpace ch) ++
          (((first :: others).dropWhile fun ch => !isSpace ch) ++ [nul]) := by
      rw [here, ← List.append_assoc, List.takeWhile_append_dropWhile]
    have solid : ∀ ch ∈ (first :: others).takeWhile fun ch => !isSpace ch, isSpace ch = false := by
      intro ch member
      simpa using List.mem_takeWhile_imp member
    have passes : ∀ ch ∈ (first :: others).takeWhile fun ch => !isSpace ch,
        (ch ≠ nul && !isSpace ch) = true := by
      intro ch member
      simp [notNul ch ((List.takeWhile_sublist _).mem member), solid ch member]
    have shorter : ((first :: others).dropWhile fun ch => !isSpace ch).length < rest.length := by
      have whole := (List.dropWhile_sublist isSpace (l := rest)).length_le
      have tail := (List.dropWhile_sublist (fun ch => !isSpace ch) (l := others)).length_le
      rw [dropped, List.length_cons] at whole
      rw [List.dropWhile_cons_of_pos (by simp [notSpace])]
      omega
    have followed : ∀ ch ∈ ((first :: others).dropWhile fun ch => !isSpace ch).head?,
        isSpace ch = true := by
      intro ch isHead
      obtain ⟨tail, remains⟩ := List.head?_eq_some_iff.mp isHead
      simpa using head_dropWhile remains
    refine ⟨⟨first, cell_read here, notNul first List.mem_cons_self⟩, ?_, spelled_here run ?_, solid,
      cells_after run, ?_, followed, shorter, words_step dropped, ?_⟩
    · cases remains : (first :: others).dropWhile fun ch => !isSpace ch with
      | nil =>
        rw [remains] at run
        exact skip_while_run run passes (by simp) (run_shorter run)
      | cons sep tail =>
        rw [remains] at run
        have separates := head_dropWhile remains
        exact skip_while_run run passes (by simp [separates]) (run_shorter run)
    · exact fun member => notNul nul ((List.takeWhile_sublist _).mem member) rfl
    · exact fun member => notNul nul ((List.dropWhile_sublist _).mem member) rfl
    · intro room
      simp only [starts, dropped]

/-! ## The shell -/

/-- The shell overwrites the separator behind a word, if there is one, and goes on behind it. -/
theorem NextWord.terminated (next : NextWord toyixIsspace cells p rest begins word remain) :
    ∃ cells' q after, Marked toyixIsspace cells cells' ∧ HasString cells' begins word ∧
      cells'.drop q = after ++ [nul] ∧ nul ∉ after ∧ after.length ≤ remain.length ∧
      words toyixIsspace after = words toyixIsspace remain ∧
      (∀ room, starts toyixIsspace room q after =
        starts toyixIsspace room (begins + word.length) remain) ∧
      ∀ {α : Type} (go : List Char → Nat → Option α),
        (cells[begins + word.length]?.bind fun ch =>
          if ch ≠ nul then go (cells.set (begins + word.length) nul) (begins + word.length + 1)
          else go cells (begins + word.length)) = go cells' q := by
  obtain ⟨-, -, spelled, solid, behind, noNul, followed, -⟩ := next
  cases remain with
  | nil =>
    have readEnd : cells[begins + word.length]? = some nul := cell_read behind
    refine ⟨cells, _, [], .refl _ cells, ⟨spelled, readEnd⟩, behind, noNul, Nat.le_refl _, rfl,
      fun _ => rfl, fun go => ?_⟩
    rw [readEnd]
    rfl
  | cons sep after =>
    have separates : toyixIsspace sep = true := followed sep rfl
    have notNul : sep ≠ nul := by
      rintro rfl
      exact noNul List.mem_cons_self
    have readSep : cells[begins + word.length]? = some sep := cell_read behind
    have marked := Marked.set readSep separates
    refine ⟨_, begins + word.length + 1, after, marked, ⟨spelled.marked solid marked, ?_⟩, ?_,
      fun member => noNul (List.mem_cons_of_mem _ member), Nat.le_succ _,
      (words_cons_space separates after).symm,
      fun room => (starts_cons_space separates room _ after).symm, fun go => ?_⟩
    · exact List.getElem?_set_self (List.getElem?_eq_some_iff.mp readSep).1
    · rw [List.drop_set_of_lt (Nat.lt_succ_self _)]
      exact cell_next behind
    · rw [readSep, Option.bind_some, if_pos notNul]

/-- The loop of the shell, by induction on its rounds: each round terminates one more word, and later
rounds overwrite separators only. -/
theorem tokenize_from_run (maxArgs : Nat) (argv : List Nat) (here : cells.drop p = rest ++ [nul])
    (noNul : nul ∉ rest) (enough : rest.length < fuel) :
    ∃ final, tokenizeFrom maxArgs fuel cells argv p =
        some (argv ++ starts toyixIsspace (maxArgs - argv.length) p rest, final) ∧
      Marked toyixIsspace cells final ∧
      List.Forall₂ (HasString final) (starts toyixIsspace (maxArgs - argv.length) p rest)
        ((words toyixIsspace rest).take (maxArgs - argv.length)) := by
  induction fuel generalizing cells argv p rest with
  | zero => exact absurd enough (Nat.not_lt_zero _)
  | succ fuel ih =>
    cases isRest : rest with
    | nil =>
      subst isRest
      rw [starts_nil, words_nil, List.take_nil, List.append_nil]
      refine ⟨cells, ?_, .refl _ cells, .nil⟩
      rw [tokenizeFrom, cell_read here]
      rfl
    | cons ch tail =>
      have notNul : ch ≠ nul := by
        rintro rfl
        exact noNul (isRest ▸ List.mem_cons_self)
      have readFirst : cells[p]? = some ch := by
        rw [isRest] at here
        exact cell_read here
      obtain ⟨stop, more, isMore, stops, run, blanks⟩ := blanks_run toyixIsspace (by decide) here
      have skips := skip_while_run run blanks stops (run_shorter run)
      rw [← isRest]
      rcases next_word noNul ((cells_after run).trans isMore.symm) with
        ⟨atEnd, noWords, noStarts⟩ | ⟨word, remain, next⟩
      · rw [noStarts, noWords, List.take_nil, List.append_nil]
        refine ⟨cells, ?_, .refl _ cells, .nil⟩
        rw [tokenizeFrom, readFirst]
        simp [skips, atEnd]
      · obtain ⟨first, readWord, firstNotNul⟩ := next.read
        by_cases full : argv.length ≥ maxArgs
        · rw [show maxArgs - argv.length = 0 by omega, List.take_zero]
          refine ⟨cells, ?_, .refl _ cells, .nil⟩
          rw [tokenizeFrom, readFirst]
          simp [skips, readWord, full, starts]
        · obtain ⟨cells', q, after, marked, string, hereAfter, afterNoNul, short, sameWords, sameStarts,
            goesOn⟩ := next.terminated
          have shorter := next.shorter
          have room : maxArgs - argv.length = (maxArgs - (argv ++
              [p + (rest.takeWhile toyixIsspace).length]).length) + 1 := by
            rw [List.length_append, List.length_singleton]
            omega
          obtain ⟨final, ran, later, strings⟩ := ih
            (argv ++ [p + (rest.takeWhile toyixIsspace).length]) hereAfter afterNoNul (by omega)
          rw [sameStarts] at ran strings
          rw [sameWords] at strings
          rw [room, next.position, next.first, List.take_succ_cons]
          refine ⟨final, ?_, marked.trans later, .cons ⟨?_, later.terminator string.2⟩ strings⟩
          · rw [tokenizeFrom, readFirst]
            simp only [Option.bind_eq_bind, Option.bind_some, notNul, ↓reduceIte, skips, readWord,
              firstNotNul, full, next.ends]
            refine (goesOn fun cells q => tokenizeFrom maxArgs fuel cells (argv ++ [_]) q).trans ?_
            rw [ran, List.append_assoc]
            rfl
          · exact string.1.marked next.solid later

/-- The words of the shell's line as the shell model has them are those its loop finds. -/
theorem tokenize_eq_words (room : Nat) (line : List Char) :
    tokenize room line = (words toyixIsspace line).take room := by
  induction room generalizing line with
  | zero => rw [List.take_zero]; rfl
  | succ room ih =>
    rw [tokenize]
    cases dropped : line.dropWhile toyixIsspace with
    | nil => rw [← words_dropWhile, dropped, words_nil, List.take_nil]
    | cons first others =>
      dsimp only
      rw [words_step dropped, List.take_succ_cons, ih]
      congr 2
      cases remains : (first :: others).dropWhile fun ch => !toyixIsspace ch with
      | nil => rfl
      | cons sep after =>
        have separates : toyixIsspace sep = true := by simpa using head_dropWhile remains
        rw [List.drop_one, List.tail_cons, words_cons_space separates]

/-- The shell's `tokenize` leaves the words of its line as strings in the cells. -/
theorem shell_tokenize_run {line : List Char} (maxArgs : Nat) (noNul : nul ∉ line) :
    ∃ final, shellTokenize (line ++ [nul]) maxArgs =
        some (starts toyixIsspace maxArgs 0 line, final) ∧
      List.Forall₂ (HasString final) (starts toyixIsspace maxArgs 0 line) (tokenize maxArgs line) := by
  have enough : line.length < (line ++ [nul]).length + 1 := by
    rw [List.length_append]
    omega
  obtain ⟨final, ran, -, strings⟩ := tokenize_from_run maxArgs [] (List.drop_zero (l := line ++ [nul]))
    noNul enough
  rw [tokenize_eq_words]
  exact ⟨final, ran, strings⟩

/-! ## The monitor -/

/-- The loop of the monitor, by induction on its rounds. The separator behind a word is erased in the
next round: a text that begins with a separator or is empty begins with a terminator afterwards. -/
theorem tokenize_line_from_run (maxArgs : Nat) (argv : List Nat)
    (here : cells.drop p = rest ++ [nul]) (noNul : nul ∉ rest) (enough : rest.length < fuel)
    (fits : argv.length ≤ maxArgs) :
    ∃ result final, tokenizeLineFrom maxArgs fuel cells argv p = some (result, final) ∧
      Marked kcharIsSpace cells final ∧
      ((∀ ch ∈ rest.head?, kcharIsSpace ch = true) → final[p]? = some nul) ∧
      (argv.length + (words kcharIsSpace rest).length ≤ maxArgs →
        result = some (argv ++ starts kcharIsSpace (maxArgs - argv.length) p rest) ∧
          List.Forall₂ (HasString final) (starts kcharIsSpace (maxArgs - argv.length) p rest)
            (words kcharIsSpace rest)) ∧
      (maxArgs < argv.length + (words kcharIsSpace rest).length → result = none) := by
  induction fuel generalizing cells argv p rest with
  | zero => exact absurd enough (Nat.not_lt_zero _)
  | succ fuel ih =>
    cases isRest : rest with
    | nil =>
      subst isRest
      have atEnd : cells[p]? = some nul := cell_read here
      rw [starts_nil, words_nil, List.append_nil, List.length_nil]
      refine ⟨some argv, cells, ?_, .refl _ cells, fun _ => atEnd, fun _ => ⟨rfl, .nil⟩, by omega⟩
      rw [tokenizeLineFrom, atEnd]
      rfl
    | cons ch tail =>
      have notNul : ch ≠ nul := by
        rintro rfl
        exact noNul (isRest ▸ List.mem_cons_self)
      have readFirst : cells[p]? = some ch := by
        rw [isRest] at here
        exact cell_read here
      obtain ⟨stop, more, isMore, stops, run, blanks⟩ := blanks_run kcharIsSpace (by decide) here
      obtain ⟨cells', erases, marked, hereWord, erased⟩ :=
        erase_spaces_run run blanks stops (run_shorter run)
      have terminated (separates : ∀ ch ∈ rest.head?, kcharIsSpace ch = true) :
          cells'[p]? = some nul := by
        apply erased
        rw [isRest] at separates ⊢
        rw [List.takeWhile_cons_of_pos (separates ch rfl)]
        exact List.cons_ne_nil _ _
      rw [← isRest]
      rcases next_word noNul (hereWord.trans isMore.symm) with
        ⟨atEnd, noWords, noStarts⟩ | ⟨word, remain, next⟩
      · rw [noStarts, noWords, List.append_nil, List.length_nil]
        refine ⟨some argv, cells', ?_, marked, terminated, fun _ => ⟨rfl, .nil⟩, by omega⟩
        rw [tokenizeLineFrom, readFirst]
        simp [notNul, erases, atEnd]
      · obtain ⟨first, readWord, firstNotNul⟩ := next.read
        rw [next.first, List.length_cons]
        by_cases full : argv.length ≥ maxArgs
        · refine ⟨none, cells', ?_, marked, terminated, fun few => by omega, fun _ => rfl⟩
          rw [tokenizeLineFrom, readFirst]
          simp [notNul, erases, readWord, firstNotNul, full]
        · have shorter := next.shorter
          have count : (argv ++ [p + (rest.takeWhile kcharIsSpace).length]).length = argv.length + 1 := by
            rw [List.length_append, List.length_singleton]
          obtain ⟨result, final, ran, later, behind, law, refused⟩ := ih
            (argv ++ [p + (rest.takeWhile kcharIsSpace).length]) next.behind next.noNul (by omega)
            (by omega)
          rw [count, List.append_assoc] at law
          rw [count] at refused
          refine ⟨result, final, ?_, marked.trans later, fun separates => later.terminator
            (terminated separates), fun enoughRoom => ?_, fun tooMany => refused (by omega)⟩
          · rw [tokenizeLineFrom, readFirst]
            simp only [Option.bind_eq_bind, Option.bind_some, notNul, ↓reduceIte, erases, readWord,
              firstNotNul, full, next.ends]
            exact ran
          · obtain ⟨isResult, strings⟩ := law (by omega)
            rw [show maxArgs - argv.length = (maxArgs - (argv.length + 1)) + 1 by omega, next.position]
            exact ⟨isResult, .cons ⟨next.spelled.marked next.solid later, behind next.followed⟩ strings⟩

/-! ## Both -/

theorem toyix_space_iff (ch : Char) :
    toyixIsspace ch = true ↔ ch = ' ' ∨ ch = '\t' ∨ ch = '\r' ∨ ch = '\n' := by
  simp [toyixIsspace, or_assoc]

theorem toyix_space_is_space (isSpace : toyixIsspace ch = true) : kcharIsSpace ch = true := by
  rw [toyix_space_iff] at isSpace
  rcases isSpace with rfl | rfl | rfl | rfl <;> rfl

/-- Both tests agree on a line without vertical tabs and form feeds. -/
theorem spaces_agree {line : List Char}
    (plain : ∀ ch ∈ line, kcharIsSpace ch = true → ch = ' ' ∨ ch = '\t' ∨ ch = '\r' ∨ ch = '\n') :
    ∀ ch ∈ line, kcharIsSpace ch = toyixIsspace ch := by
  intro ch member
  rw [Bool.eq_iff_iff]
  constructor
  · intro isSpace
    exact (toyix_space_iff ch).mpr (plain ch member isSpace)
  · exact toyix_space_is_space

/-- For every line and every limit: the shell's `tokenize` finds the first words, as many as there is
room for; the monitor's `tokenize_line` finds all words, or refuses the line if there are too many. The
words are terminated strings in the cells. Both loops end and stay inside the cells of the line. On a
line whose separators are spaces, tabs, carriage returns and newlines and that has room for all its
words, both return the same argument vector.

Proof: by induction on the rounds of each loop. The cells before the position are not touched again,
so that a word that has been terminated stays where it is. -/
theorem tokenizers_split_words (line : List Char) (maxArgs : Nat) (noNul : nul ∉ line)
    (atLeastOne : 1 ≤ maxArgs) :
    (∃ argv final, shellTokenize (line ++ [nul]) maxArgs = some (argv, final) ∧
      List.Forall₂ (HasString final) argv ((words toyixIsspace line).take maxArgs)) ∧
    (∃ result final, tokenizeLine (line ++ [nul]) maxArgs = some (result, final) ∧
      ((words kcharIsSpace line).length ≤ maxArgs → ∃ argv, result = some argv ∧
        List.Forall₂ (HasString final) argv (words kcharIsSpace line)) ∧
      (maxArgs < (words kcharIsSpace line).length → result = none)) ∧
    ((∀ ch ∈ line, kcharIsSpace ch = true → ch = ' ' ∨ ch = '\t' ∨ ch = '\r' ∨ ch = '\n') →
      (words kcharIsSpace line).length ≤ maxArgs →
      ∃ argv shellFinal monitorFinal, shellTokenize (line ++ [nul]) maxArgs = some (argv, shellFinal) ∧
        tokenizeLine (line ++ [nul]) maxArgs = some (some argv, monitorFinal)) := by
  have here : (line ++ [nul]).drop 0 = line ++ [nul] := rfl
  have enough : line.length < (line ++ [nul]).length + 1 := by
    rw [List.length_append]
    omega
  have notZero : maxArgs ≠ 0 := by omega
  obtain ⟨shellFinal, shellRan, shellLaw⟩ := shell_tokenize_run maxArgs noNul
  obtain ⟨result, monitorFinal, monitorRan, -, -, monitorLaw, refused⟩ :=
    tokenize_line_from_run maxArgs [] here noNul enough (Nat.zero_le _)
  rw [tokenize_eq_words] at shellLaw
  rw [List.nil_append, List.length_nil, Nat.sub_zero, Nat.zero_add] at monitorLaw
  rw [List.length_nil, Nat.zero_add] at refused
  have monitorCall : tokenizeLine (line ++ [nul]) maxArgs = some (result, monitorFinal) := by
    rw [tokenizeLine, if_neg notZero]
    exact monitorRan
  refine ⟨⟨_, shellFinal, shellRan, shellLaw⟩, ⟨result, monitorFinal, monitorCall, ?_, refused⟩, ?_⟩
  · intro fits
    exact ⟨_, monitorLaw fits⟩
  · intro plain fits
    refine ⟨_, shellFinal, monitorFinal, shellRan, ?_⟩
    rw [monitorCall, (monitorLaw fits).1, starts_congr maxArgs 0 line (spaces_agree plain)]

/-- A line with leading, repeated and trailing separators, and room for all of its words but one. -/
theorem tokenizers_split_padded_line :
    nul ∉ " run  hello\tworld \n".toList ∧
    (∃ argv final, shellTokenize (" run  hello\tworld \n".toList ++ [nul]) 2 = some (argv, final) ∧
      List.Forall₂ (HasString final) argv
        ((words toyixIsspace " run  hello\tworld \n".toList).take 2)) ∧
    (∃ final, tokenizeLine (" run  hello\tworld \n".toList ++ [nul]) 2 = some (none, final)) := by
  have noNul : nul ∉ " run  hello\tworld \n".toList := by decide
  obtain ⟨shell, ⟨result, final, ran, -, refused⟩, -⟩ :=
    tokenizers_split_words " run  hello\tworld \n".toList 2 noNul (by decide)
  refine ⟨noNul, shell, final, ?_⟩
  rw [ran, refused (by decide)]

end Toyix.Text
