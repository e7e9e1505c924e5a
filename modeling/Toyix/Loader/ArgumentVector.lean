import Toyix.Library.Strings
import Toyix.Loader.Arguments

/-!
# Arguments as the program sees them

`process_setup_arguments` stores the strings and the table of their addresses, and `_start` in
`user/crt0.S` takes them apart again: the word at the initial stack pointer is `argc`, and the table
of addresses behind it is `argv`. The strings lie next to each other below the top of the stack, so
their places are sums of sizes, and what is decoded is what was given.
-/

namespace Toyix.Loader

open Library Paging Processes Pmm

variable {image : Image} {held : Set Nat} {process object base top : Nat} {state final : Loading}
  {argv : Nat → Option (Nat → UInt8)} {len : Nat → Nat} {i : Nat}

/-! ## Sizes -/

/-- The bytes of the first strings, each with its terminator. -/
def sizesBefore (len : Nat → Nat) : Nat → Nat
  | 0 => 0
  | i + 1 => sizesBefore len i + (len i + 1)

/-- The first arguments are strings of the given lengths. -/
def Strings (argv : Nat → Option (Nat → UInt8)) (len : Nat → Nat) (argc : Nat) : Prop :=
  ∀ i < argc, ∃ arg, argv i = some arg ∧ StringAt (fun x => some (arg x)) 0 (len i)

/-- Strings with their terminators, rounding and the table fit on the stack. -/
structure ArgumentsFit (base top argc : Nat) (len : Nat → Nat) : Prop where
  short : ∀ i < argc, len i < 128
  room : sizesBefore len argc + (top - sizesBefore len argc) % 4 + (argc + 3) * 4 ≤ top - base

theorem sizes_before_mono (len : Nat → Nat) {j : Nat} (before : i ≤ j) :
    sizesBefore len i ≤ sizesBefore len j := by
  induction j with
  | zero =>
    obtain rfl := Nat.le_zero.mp before
    exact Nat.le_refl _
  | succ j ih =>
    by_cases isLast : i = j + 1
    · rw [isLast]
    · have earlier := ih (by omega)
      simp only [sizesBefore]
      omega

/-- A string ends before the next one begins. -/
theorem sizes_before_apart (len : Nat → Nat) {j : Nat} (before : i < j) :
    sizesBefore len i + (len i + 1) ≤ sizesBefore len j :=
  sizes_before_mono len before

/-- The length that the kernel finds is the length of the string, if it is short enough. -/
theorem arg_length_string {arg : Nat → UInt8} {start length : Nat} (remaining : Nat)
    (string : StringAt (fun x => some (arg x)) start length) :
    argLength arg remaining start = if length < remaining then some (start + length) else none := by
  induction remaining generalizing start length with
  | zero => rfl
  | succ remaining ih =>
    rw [argLength]
    cases length with
    | zero =>
      have isEnd : arg start = 0 := Option.some.inj string.terminator
      rw [if_pos isEnd, if_pos (Nat.succ_pos _), Nat.add_zero]
    | succ length =>
      obtain ⟨byte, isByte, notZero⟩ := string.before 0 (Nat.succ_pos _)
      have isFirst : arg start = byte := Option.some.inj isByte
      have notEnd : arg start ≠ 0 := isFirst ▸ notZero
      rw [if_neg notEnd, ih string.tail, Nat.add_assoc, Nat.add_comm 1 length]
      simp only [Nat.succ_lt_succ_iff]

theorem arg_length_found {arg : Nat → UInt8} {length : Nat}
    (string : StringAt (fun x => some (arg x)) 0 length) :
    argLength arg processMaxArgString 0 = if length < 128 then some length else none := by
  have found := arg_length_string 128 string
  rw [Nat.zero_add] at found
  exact found

/-! ## Places -/

/-- The strings have their places when they are short and there is room. -/
theorem place_arguments_fit (strings : Strings argv len i) (short : ∀ j < i, len j < 128) {sp : Nat}
    (room : base + sizesBefore len i ≤ sp) (argPtrs : List Nat) :
    placeArguments base argv i sp argPtrs =
      some (sp - sizesBefore len i,
        (List.range i).map (fun j => sp - sizesBefore len i + sizesBefore len j) ++ argPtrs) := by
  induction i generalizing sp argPtrs with
  | zero => rfl
  | succ i ih =>
    obtain ⟨arg, isArg, string⟩ := strings i (Nat.lt_succ_self i)
    have found := arg_length_found string
    rw [if_pos (short i (Nat.lt_succ_self i))] at found
    simp only [sizesBefore] at room
    have enough : ¬ sp < base + (len i + 1) := by omega
    unfold placeArguments
    simp only [isArg, found, if_neg enough]
    rw [ih (fun j inside => strings j (Nat.lt_succ_of_lt inside))
      (fun j inside => short j (Nat.lt_succ_of_lt inside)) (by omega)]
    have place : sp - (len i + 1) - sizesBefore len i = sp - sizesBefore len (i + 1) := by
      simp only [sizesBefore]
      omega
    have last : sp - sizesBefore len (i + 1) + sizesBefore len i = sp - (len i + 1) := by
      simp only [sizesBefore]
      omega
    rw [place, List.range_succ, List.map_append, List.map_singleton, last, List.append_assoc]
    rfl

/-- Strings that are too long, or too many, are refused. -/
theorem place_arguments_refused (strings : Strings argv len i) {sp : Nat}
    (tooMuch : ¬ ((∀ j < i, len j < 128) ∧ base + sizesBefore len i ≤ sp)) (low : base ≤ sp)
    (argPtrs : List Nat) : placeArguments base argv i sp argPtrs = none := by
  induction i generalizing sp argPtrs with
  | zero => exact absurd ⟨fun j absurd => (Nat.not_lt_zero j absurd).elim, low⟩ tooMuch
  | succ i ih =>
    obtain ⟨arg, isArg, string⟩ := strings i (Nat.lt_succ_self i)
    have found := arg_length_found string
    unfold placeArguments
    by_cases isShort : len i < 128
    · rw [if_pos isShort] at found
      simp only [isArg, found]
      by_cases full : sp < base + (len i + 1)
      · rw [if_pos full]
      · rw [if_neg full]
        apply ih (fun j inside => strings j (Nat.lt_succ_of_lt inside)) ?_ (by omega)
        rintro ⟨short, room⟩
        apply tooMuch
        constructor
        · intro j inside
          by_cases isLast : j = i
          · rw [isLast]
            exact isShort
          · exact short j (by omega)
        · simp only [sizesBefore]
          omega
    · rw [if_neg isShort] at found
      simp only [isArg, found]

/-- The layout exists exactly when everything fits. -/
theorem lay_out_exact {argc : Nat} (strings : Strings argv len argc) (order : base < top)
    (bounded : top < 2 ^ 32) :
    (ArgumentsFit base top argc len ∧ layOut base top argc argv =
        some (top - sizesBefore len argc - (top - sizesBefore len argc) % 4 - (argc + 3) * 4,
          (List.range argc).map fun j => top - sizesBefore len argc + sizesBefore len j)) ∨
      (¬ ArgumentsFit base top argc len ∧ layOut base top argc argv = none) := by
  have tableBytes : (1 + argc + 1 + 1) * 4 = (argc + 3) * 4 := by omega
  by_cases placed : (∀ j < argc, len j < 128) ∧ base + sizesBefore len argc ≤ top
  · obtain ⟨short, room⟩ := placed
    have down : alignDown4 (top - sizesBefore len argc) =
        top - sizesBefore len argc - (top - sizesBefore len argc) % 4 := align_down4_eq (by omega)
    have places := place_arguments_fit strings short room []
    rw [List.append_nil] at places
    simp only [layOut, places, down, tableBytes]
    by_cases full : top - sizesBefore len argc - (top - sizesBefore len argc) % 4 <
        base + (argc + 3) * 4
    · refine .inr ⟨?_, if_pos full⟩
      rintro ⟨-, fits⟩
      omega
    · exact .inl ⟨⟨short, by omega⟩, if_neg full⟩
  · refine .inr ⟨?_, ?_⟩
    · rintro ⟨short, fits⟩
      exact placed ⟨short, by omega⟩
    · rw [layOut, place_arguments_refused strings placed (Nat.le_of_lt order)]

/-! ## Contents -/

/-- The strings stand at their places, and nothing else has changed. -/
theorem store_arguments_shows (strings : Strings argv len i) (short : ∀ j < i, len j < 128)
    {sp : Nat} (room : base + sizesBefore len i ≤ sp) (view : Nat → Option UInt8) :
    (∀ j < i, ∀ arg, argv j = some arg → ∀ k ≤ len j,
      storeArguments base argv i sp view (sp - sizesBefore len i + sizesBefore len j + k) =
        some (arg k)) ∧
    ∀ x, x < sp - sizesBefore len i ∨ sp ≤ x → storeArguments base argv i sp view x = view x := by
  induction i generalizing sp view with
  | zero => exact ⟨fun j absurd => (Nat.not_lt_zero j absurd).elim, fun _ _ => rfl⟩
  | succ i ih =>
    obtain ⟨arg, isArg, string⟩ := strings i (Nat.lt_succ_self i)
    have found := arg_length_found string
    rw [if_pos (short i (Nat.lt_succ_self i))] at found
    simp only [sizesBefore] at room
    have enough : ¬ sp < base + (len i + 1) := by omega
    unfold storeArguments
    simp only [isArg, found, if_neg enough]
    have rest : base + sizesBefore len i ≤ sp - (len i + 1) := by omega
    obtain ⟨shows, outside⟩ := ih (fun j inside => strings j (Nat.lt_succ_of_lt inside))
      (fun j inside => short j (Nat.lt_succ_of_lt inside)) rest
      (storeView view (sp - (len i + 1)) (len i + 1) arg)
    have place : sp - sizesBefore len (i + 1) = sp - (len i + 1) - sizesBefore len i := by
      simp only [sizesBefore]
      omega
    rw [place]
    constructor
    · intro j inside other isOther k within
      by_cases isLast : j = i
      · subst isLast
        obtain rfl : arg = other := Option.some.inj (isArg.symm.trans isOther)
        have position : sp - (len j + 1) - sizesBefore len j + sizesBefore len j + k =
            sp - (len j + 1) + k := by omega
        rw [position, outside _ (by omega), storeView, if_pos (by omega)]
        congr 2
        omega
      · exact shows j (by omega) other isOther k within
    · intro x away
      rw [outside x (by omega), storeView, if_neg (by omega)]

/-- The word at an address, the lowest byte first. -/
def wordAt (view : Nat → Option UInt8) (x : Nat) : Option Nat :=
  (view x).bind fun first => (view (x + 1)).bind fun second =>
    (view (x + 2)).bind fun third => (view (x + 3)).map fun fourth =>
      first.toNat + second.toNat * 2 ^ 8 + third.toNat * 2 ^ 16 + fourth.toNat * 2 ^ 24

/-- A table of words is read back word by word. -/
theorem word_at_table {view : Nat → Option UInt8} {words : List Nat} {esp k : Nat}
    (stored : ∀ i < words.length * 4, view (esp + i) = some (wordBytes words i))
    (inside : k < words.length) (small : words.getD k 0 < 2 ^ 32) :
    wordAt view (esp + 4 * k) = some (words.getD k 0) := by
  have byte (r : Nat) (isByte : r < 4) : view (esp + 4 * k + r) =
      some (UInt8.ofNat (words.getD k 0 / 2 ^ (8 * r))) := by
    have quotient : (4 * k + r) / 4 = k := by omega
    have remainder : (4 * k + r) % 4 = r := by omega
    rw [Nat.add_assoc, stored _ (by omega), wordBytes, quotient, remainder]
  have first := byte 0 (by decide)
  rw [Nat.add_zero] at first
  rw [wordAt, first, byte 1 (by decide), byte 2 (by decide), byte 3 (by decide)]
  simp only [Option.bind_some, Option.map_some, UInt8.toNat_ofNat']
  congr 1
  omega

/-! ## What `_start` decodes -/

/-- The program finds its arguments: `argc` is the word at `esp` and `argv` the table behind it. -/
structure Decoded (view : Nat → Option UInt8) (base top argc : Nat)
    (argv : Nat → Option (Nat → UInt8)) (len : Nat → Nat) (esp : Nat) : Prop where
  aligned : esp % 4 = 0
  low : base ≤ esp
  high : esp < top
  count : wordAt view esp = some argc
  strings : ∀ i < argc, ∃ arg place, argv i = some arg ∧
    wordAt view (esp + 4 + 4 * i) = some place ∧ base ≤ place ∧ place + (len i + 1) ≤ top ∧
    StringAt view place (len i) ∧ ∀ k ≤ len i, view (place + k) = some (arg k)
  terminator : wordAt view (esp + 4 + 4 * argc) = some 0
  table : ∀ i < argc, ∀ place, wordAt view (esp + 4 + 4 * i) = some place →
    esp + (argc + 3) * 4 ≤ place
  apart : ∀ i j, i < j → j < argc → ∀ place place', wordAt view (esp + 4 + 4 * i) = some place →
    wordAt view (esp + 4 + 4 * j) = some place' → place + (len i + 1) ≤ place'

/-- A string that is copied is a string again. -/
theorem string_copied {arg : Nat → UInt8} {view : Nat → Option UInt8} {place length : Nat}
    (string : StringAt (fun x => some (arg x)) 0 length)
    (copied : ∀ k ≤ length, view (place + k) = some (arg k)) : StringAt view place length := by
  constructor
  · intro k inside
    obtain ⟨byte, isByte, notZero⟩ := string.before k inside
    rw [Nat.zero_add] at isByte
    exact ⟨byte, by rw [copied k (Nat.le_of_lt inside), isByte], notZero⟩
  · have terminator := string.terminator
    rw [Nat.zero_add] at terminator
    rw [copied length (Nat.le_refl _), terminator]

/-- What was laid out is decoded.

Proof: the table lies below the strings, so each of its words is read back, and the strings stand at
the places that the table names. -/
theorem argument_view_decoded {argc : Nat} (strings : Strings argv len argc)
    (fits : ArgumentsFit base top argc len) (bounded : top < 2 ^ 32) (few : argc ≤ 16)
    (view : Nat → Option UInt8) :
    Decoded (argumentView base top argc argv
        (top - sizesBefore len argc - (top - sizesBefore len argc) % 4 - (argc + 3) * 4)
        ((List.range argc).map fun j => top - sizesBefore len argc + sizesBefore len j) view)
      base top argc argv len
      (top - sizesBefore len argc - (top - sizesBefore len argc) % 4 - (argc + 3) * 4) := by
  obtain ⟨short, room⟩ := fits
  have enough : base + sizesBefore len argc ≤ top := by omega
  obtain ⟨shows, -⟩ := store_arguments_shows strings short enough view
  obtain ⟨first, isFirst⟩ : ∃ first, first = top - sizesBefore len argc := ⟨_, rfl⟩
  obtain ⟨esp, isEsp⟩ : ∃ esp, esp = first - first % 4 - (argc + 3) * 4 := ⟨_, rfl⟩
  obtain ⟨places, isPlaces⟩ : ∃ places : List Nat, places =
    (List.range argc).map fun j => first + sizesBefore len j := ⟨_, rfl⟩
  rw [← isFirst] at room shows ⊢
  rw [← isEsp, ← isPlaces]
  have placesLength : places.length = argc := by rw [isPlaces, List.length_map, List.length_range]
  have wordsLength : (argc :: places ++ [0, 0]).length = argc + 3 := by
    simp only [List.cons_append, List.length_cons, List.length_append, placesLength, List.length_nil]
  -- The words of the table.
  have stored : ∀ i < (argc :: places ++ [0, 0]).length * 4,
      argumentView base top argc argv esp places view (esp + i) =
        some (wordBytes (argc :: places ++ [0, 0]) i) := by
    intro i inside
    rw [wordsLength] at inside
    rw [argumentView, storeView, if_pos (by omega), Nat.add_sub_cancel_left]
  have place (i : Nat) (inside : i < argc) :
      wordAt (argumentView base top argc argv esp places view) (esp + 4 + 4 * i) =
        some (first + sizesBefore len i) := by
    have before := sizes_before_apart len inside
    have word : (argc :: places ++ [0, 0]).getD (i + 1) 0 = first + sizesBefore len i := by
      rw [List.cons_append, List.getD_cons_succ, List.getD_append _ _ _ _ (by omega), isPlaces,
        List.getD_eq_getElem _ _ (by simpa using inside), List.getElem_map, List.getElem_range]
    have read := word_at_table stored (show i + 1 < _ by rw [wordsLength]; omega)
      (show (argc :: places ++ [0, 0]).getD (i + 1) 0 < 2 ^ 32 by rw [word]; omega)
    rw [word] at read
    rw [Nat.add_assoc, Nat.add_comm 4 (4 * i)]
    exact read
  -- The strings lie above the table.
  have copied (i : Nat) (inside : i < argc) (arg : Nat → UInt8) (isArg : argv i = some arg) :
      ∀ k ≤ len i, argumentView base top argc argv esp places view (first + sizesBefore len i + k) =
        some (arg k) := by
    intro k within
    rw [argumentView, storeView, if_neg (by omega)]
    exact shows i inside arg isArg k within
  constructor
  · omega
  · omega
  · omega
  · have read := word_at_table stored (show 0 < _ by rw [wordsLength]; omega)
      (show (argc :: places ++ [0, 0]).getD 0 0 < 2 ^ 32 by
        rw [List.cons_append, List.getD_cons_zero]; omega)
    exact read
  · intro i inside
    obtain ⟨arg, isArg, string⟩ := strings i inside
    have before := sizes_before_apart len inside
    exact ⟨arg, first + sizesBefore len i, isArg, place i inside, by omega, by omega,
      string_copied string (copied i inside arg isArg), copied i inside arg isArg⟩
  · have word : (argc :: places ++ [0, 0]).getD (argc + 1) 0 = 0 := by
      rw [List.cons_append, List.getD_cons_succ, List.getD_append_right _ _ _ _ (by omega),
        placesLength, Nat.sub_self]
      rfl
    have read := word_at_table stored (show argc + 1 < _ by rw [wordsLength]; omega)
      (show (argc :: places ++ [0, 0]).getD (argc + 1) 0 < 2 ^ 32 by rw [word]; decide)
    rw [word] at read
    rw [Nat.add_assoc, Nat.add_comm 4 (4 * argc)]
    exact read
  · intro i inside found isFound
    obtain rfl := Option.some.inj ((place i inside).symm.trans isFound)
    omega
  · intro i j before inside found found' isFound isFound'
    obtain rfl := Option.some.inj ((place i (by omega)).symm.trans isFound)
    obtain rfl := Option.some.inj ((place j inside).symm.trans isFound')
    have next := sizes_before_apart len before
    omega

/-! ## The round trip -/

/-- A live process whose stack is mapped. -/
structure StackMapped (image : Image) (process object base top : Nat) (state : Loading) : Prop where
  reached : AccessReachable image state.memory
  notNull : process ≠ 0
  magic : (state.table.objects process).magic = processMagic
  live : (state.table.objects process).state ≠ .destroyed
  space : (state.table.objects process).addressSpace = object
  isSpace : (state.memory.spaces object).isSome
  isBase : (state.table.objects process).userStackBase = base
  isTop : (state.table.objects process).userStackTop = top
  order : base < top
  mapped : ∀ x, base ≤ x → x < top → (userByte state.memory object x).isSome

/-- The answer tells whether the arguments fit. They can be decoded if they do; otherwise the initial
stack pointer stays. User mode reads what belongs to the process. -/
structure ArgumentLaw (process object base top argc : Nat) (argv : Nat → Option (Nat → UInt8))
    (len : Nat → Nat) (state final : Loading) (code : Int) : Prop where
  answer : code = 0 ∨ code = -1
  success : code = 0 ↔ ArgumentsFit base top argc len
  decoded : code = 0 → Decoded (userByte final.memory object) base top argc argv len
    (final.table.objects process).userInitialEsp
  unchanged : code = -1 → (final.table.objects process).userInitialEsp =
    (state.table.objects process).userInitialEsp
  shown : OpenPages object state.memory →
    ∀ x < 2 ^ 32, userRead final.memory object x = userByte final.memory object x

theorem with_esp_stored (table : ProcessTable) (process esp : Nat) :
    ((table.change process (withEsp esp)).objects process).userInitialEsp = esp := by
  simp only [ProcessTable.change, Function.update_self, withEsp]

/-- `process_setup_arguments` returns for every process with a mapped stack and every vector of up to
16 strings, and what it lays out is what `_start` decodes. -/
theorem argument_round_trip (image : Image) (state : Loading)
    (process object base top : Nat) (stack : StackMapped image process object base top state)
    (argc : Nat) (few : argc ≤ 16) (argv : Option (Nat → Option (Nat → UInt8))) (len : Nat → Nat)
    (strings : Strings (argv.getD fun _ => none) len argc) :
    ∃ code final, processSetupArguments process argc argv state = .done code final ∧
      ArgumentLaw process object base top argc (argv.getD fun _ => none) len state final code := by
  have hosted : Hosted image state.memory.held process object state :=
    ⟨stack.notNull, stack.magic, stack.space, stack.isSpace, reachable_guarded stack.reached⟩
  have staged : Staged image state.memory.held process object base top state :=
    ⟨hosted, stack.isBase, stack.isTop, stack.order, stack.mapped⟩
  obtain ⟨-, high⟩ := staged.bounds
  have bounded : ¬ ((argc : Int) < 0 ∨ (argc : Int) > processMaxArgc) := by
    simp only [processMaxArgc]
    omega
  have given : ¬ ((argc : Int) > 0 ∧ argv.isNone) := by
    rintro ⟨positive, isNone⟩
    obtain ⟨arg, isArg, -⟩ := strings 0 (by omega)
    rw [Option.isNone_iff_eq_none.mp isNone] at isArg
    cases isArg
  obtain ⟨middle, middleStaged, apart, writes, outcome⟩ :=
    setup_arguments_run staged stack.live bounded given
  rw [Int.toNat_natCast] at outcome
  have shown : OpenPages object state.memory →
      ∀ x < 2 ^ 32, userRead middle.memory object x = userByte middle.memory object x :=
    fun opened x inside => middleStaged.guarded.user_read_open (writes.opens opened) inside
  rcases lay_out_exact strings stack.order (show top < 2 ^ 32 by omega) with
    ⟨fits, placed⟩ | ⟨tooMuch, refused⟩
  · rcases outcome with ⟨isNone, -⟩ | ⟨esp, argPtrs, isPlaced, ran, view⟩
    · rw [placed] at isNone
      cases isNone
    · obtain ⟨rfl, rfl⟩ := Prod.mk.inj (Option.some.inj (placed.symm.trans isPlaced))
      refine ⟨0, _, ran, .inl rfl, iff_of_true rfl fits, ?_, ?_, shown⟩
      · intro _
        rw [with_esp_stored]
        have decoded := argument_view_decoded strings fits (show top < 2 ^ 32 by omega) few
          (userByte state.memory object)
        rw [← view] at decoded
        exact decoded
      · intro absurd
        cases absurd
  · rcases outcome with ⟨-, ran⟩ | ⟨esp, argPtrs, isPlaced, -, -⟩
    · refine ⟨-1, middle, ran, .inr rfl, iff_of_false (by decide) tooMuch, ?_, ?_, shown⟩
      · intro absurd
        cases absurd
      · intro _
        rw [apart.table]
    · rw [refused] at isPlaced
      cases isPlaced

/-- A table with a process whose stack is the page of the loader. -/
def stackTable : ProcessTable :=
  processInitSystem (fun _ => { Process.cleared with
    magic := processMagic, pid := 1, addressSpace := 0xD1000018,
    userStackBase := 0x6FFFF000, userStackTop := 0x70000000 }) ⟨fun _ => 0, fun _ => 0⟩

/-- The string `hi`. -/
def hiString (x : Nat) : UInt8 := if x = 0 then 104 else if x = 1 then 105 else 0

set_option maxRecDepth 100000 in
/-- A program with one argument finds it below the top of its stack. -/
theorem one_argument_decoded : ∃ state final,
    processSetupArguments 0x1000 1 (some fun _ => some hiString) state = .done 0 final ∧
    Decoded (userByte final.memory 0xD1000018) 0x6FFFF000 0x70000000 1 (fun _ => some hiString)
      (fun _ => 2) (final.table.objects 0x1000).userInitialEsp := by
  have completed : (smallAccessRun [.memory .create,
      .memory (.mapUserPage 0xD1000018 0x6FFFF000)]).map (fun system =>
        ((system.spaces 0xD1000018).isSome, (userPages system 0xD1000018 0x6FFFF000).isSome)) =
          some (true, true) := by
    decide +kernel
  obtain ⟨system, reached, shape⟩ := small_access_run_facts completed
  obtain ⟨isSpace, isPage⟩ := Prod.mk.inj shape
  have mapped : ∀ x, 0x6FFFF000 ≤ x → x < 0x70000000 → (userByte system 0xD1000018 x).isSome := by
    intro x low high
    have page : x / 4096 * 4096 = 0x6FFFF000 := by omega
    rw [user_byte_is_some, page]
    exact isPage
  have live : (stackTable.objects 0x1000).state ≠ .destroyed := by decide
  have letters : ∀ k < 2, hiString k ≠ 0 := by decide
  have stack : StackMapped smallImage 0x1000 0xD1000018 0x6FFFF000 0x70000000
      ⟨system, stackTable, []⟩ :=
    ⟨reached, by decide, rfl, live, rfl, isSpace, rfl, rfl, by decide, mapped⟩
  have strings : Strings ((some fun _ => some hiString).getD fun _ => none) (fun _ => 2) 1 := by
    intro i _
    refine ⟨hiString, rfl, ?_, rfl⟩
    intro k inside
    exact ⟨hiString k, by rw [Nat.zero_add], letters k inside⟩
  obtain ⟨code, final, done, law⟩ := argument_round_trip smallImage _ 0x1000
    0xD1000018 0x6FFFF000 0x70000000 stack 1 (by decide) (some fun _ => some hiString) (fun _ => 2)
    strings
  have fits : ArgumentsFit 0x6FFFF000 0x70000000 1 fun _ => 2 := ⟨fun _ _ => by decide, by decide⟩
  obtain rfl := law.success.mpr fits
  exact ⟨_, final, done, law.decoded rfl⟩

end Toyix.Loader
