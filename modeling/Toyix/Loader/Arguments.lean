import Toyix.Loader.MemoryImage

/-!
# Arguments on the stack

What `process_setup_arguments` does for a process that can reach its stack. The answer and the bytes
that are stored follow from the arguments and the ends of the stack alone: the strings are placed
below the top of the stack, the last one first, and below them stands the table with their number
and their addresses.
-/

namespace Toyix.Loader

open Library Paging Processes Pmm

variable {image : Image} {held : Set Nat} {process object base top : Nat} {state final : Loading}

/-! ## Placement -/

/-- The stack pointer after the strings, and their places. -/
def placeArguments (base : Nat) (argv : Nat → Option (Nat → UInt8)) :
    Nat → Nat → List Nat → Option (Nat × List Nat)
  | 0, sp, argPtrs => some (sp, argPtrs)
  | i + 1, sp, argPtrs =>
    match argv i with
    | none => none
    | some arg =>
      match argLength arg processMaxArgString 0 with
      | none => none
      | some len =>
        if sp < base + (len + 1) then none
        else placeArguments base argv i (sp - (len + 1)) ((sp - (len + 1)) :: argPtrs)

/-- The view after the strings have been stored, as far as they can be placed. -/
def storeArguments (base : Nat) (argv : Nat → Option (Nat → UInt8)) :
    Nat → Nat → (Nat → Option UInt8) → Nat → Option UInt8
  | 0, _, view => view
  | i + 1, sp, view =>
    match argv i with
    | none => view
    | some arg =>
      match argLength arg processMaxArgString 0 with
      | none => view
      | some len =>
        if sp < base + (len + 1) then view
        else storeArguments base argv i (sp - (len + 1)) (storeView view (sp - (len + 1)) (len + 1) arg)

theorem arg_length_lt {arg : Nat → UInt8} {remaining start len : Nat}
    (found : argLength arg remaining start = some len) : len < start + remaining := by
  induction remaining generalizing start with
  | zero => cases found
  | succ remaining ih =>
    unfold argLength at found
    split at found
    · cases found
      omega
    · have := ih found
      omega

/-- The strings stay above the base of the stack. -/
theorem place_arguments_bounds {argv : Nat → Option (Nat → UInt8)} {i sp sp' : Nat}
    {argPtrs places : List Nat} (low : base ≤ sp)
    (placed : placeArguments base argv i sp argPtrs = some (sp', places)) : base ≤ sp' ∧ sp' ≤ sp := by
  induction i generalizing sp argPtrs with
  | zero =>
    cases placed
    exact ⟨low, Nat.le_refl _⟩
  | succ i ih =>
    unfold placeArguments at placed
    split at placed
    · cases placed
    · split at placed
      · cases placed
      · split at placed
        · cases placed
        · obtain ⟨above, below⟩ := ih (by omega) placed
          exact ⟨above, by omega⟩

/-! ## The run -/

/-- A process whose fields name its stack, which it can reach. -/
structure Staged (image : Image) (held : Set Nat) (process object base top : Nat) (state : Loading) :
    Prop extends Hosted image held process object state where
  isBase : (state.table.objects process).userStackBase = base
  isTop : (state.table.objects process).userStackTop = top
  order : base < top
  reachable : ∀ x, base ≤ x → x < top → (userByte state.memory object x).isSome

section Staged

variable (staged : Staged image held process object base top state)

include staged

/-- The stack lies in the user range. -/
theorem Staged.bounds : 0x01000000 ≤ base ∧ top ≤ 0xC0000000 := by
  have inRange : ∀ x, base ≤ x → x < top → PageRange (some object) (x / 4096 * 4096) := by
    intro x low high
    have shown := staged.reachable x low high
    rw [user_byte_is_some] at shown
    obtain ⟨frame, owns⟩ := Option.isSome_iff_exists.mp shown
    exact owned_page_range owns
  have order := staged.order
  obtain ⟨-, low, -⟩ := inRange base (Nat.le_refl _) order
  obtain ⟨-, -, high⟩ := inRange (top - 1) (by omega) (by omega)
  omega

/-- A store keeps the stack. -/
theorem Staged.filled {first count : Nat} {source : Nat → UInt8}
    (filled : Filled image held process object first count source state final) :
    Staged image held process object base top final := by
  refine ⟨filled.hosted, ?_, ?_, staged.order, ?_⟩
  · rw [filled.apart.table]
    exact staged.isBase
  · rw [filled.apart.table]
    exact staged.isTop
  · intro x low high
    exact filled.reachable (staged.reachable x low high)

/-- A store to the stack. -/
theorem Staged.copy_stack_bytes {dest size : Nat} (source : Nat → UInt8) (low : base ≤ dest)
    (high : dest + size ≤ top) :
    ∃ final, processCopyStackBytes process dest size source state = .done 0 final ∧
      Staged image held process object base top final ∧ Apart object state final ∧
      WritesOnly object (fun x => base ≤ x ∧ x < top) state.memory final.memory ∧
      userByte final.memory object = storeView (userByte state.memory object) dest size source := by
  have reachable : ∀ x, dest ≤ x → x < dest + size → (userByte state.memory object x).isSome :=
    fun x above below => staged.reachable x (by omega) (by omega)
  obtain ⟨final, ran, filled⟩ := copy_stack_bytes_run staged.toHosted source reachable
  refine ⟨final, ran, staged.filled filled, filled.apart, filled.writes.weaken ?_, filled.view⟩
  rintro x ⟨above, below⟩
  exact ⟨Nat.le_trans low above, Nat.lt_of_lt_of_le below high⟩

end Staged

/-- The loop over the arguments follows the placement. -/
theorem copy_arguments_run (argv : Nat → Option (Nat → UInt8)) (i : Nat) :
    ∀ sp argPtrs state, Staged image held process object base top state → base ≤ sp → sp ≤ top →
      ∃ final, copyArguments process argv i sp argPtrs state =
          .done (placeArguments base argv i sp argPtrs) final ∧
        Staged image held process object base top final ∧ Apart object state final ∧
        WritesOnly object (fun x => base ≤ x ∧ x < top) state.memory final.memory ∧
        userByte final.memory object = storeArguments base argv i sp (userByte state.memory object) := by
  induction i with
  | zero =>
    intro sp argPtrs state staged low high
    exact ⟨state, rfl, staged, Apart.refl object state,
      WritesOnly.refl staged.guarded.toAccounted object _, rfl⟩
  | succ i ih =>
    intro sp argPtrs state staged low high
    have unchanged : WritesOnly object (fun x => base ≤ x ∧ x < top) state.memory state.memory :=
      WritesOnly.refl staged.guarded.toAccounted object _
    unfold copyArguments placeArguments storeArguments
    cases isArg : argv i with
    | none => exact ⟨state, rfl, staged, Apart.refl object state, unchanged, rfl⟩
    | some arg =>
      cases isLength : argLength arg processMaxArgString 0 with
      | none =>
        simp only [isLength]
        exact ⟨state, rfl, staged, Apart.refl object state, unchanged, rfl⟩
      | some len =>
        have short : len < 0 + 128 := arg_length_lt isLength
        obtain ⟨-, below⟩ := staged.bounds
        have order := staged.order
        have exact : (base + (len + 1)) % 2 ^ 32 = base + (len + 1) := by omega
        simp only [isLength]
        rw [bind_done (read_process_run process state), ite_run, staged.isBase, exact]
        by_cases full : sp < base + (len + 1)
        · rw [if_pos full, if_pos full, if_pos full]
          exact ⟨state, rfl, staged, Apart.refl object state, unchanged, rfl⟩
        · have isDest : (sp + 2 ^ 32 - (len + 1)) % 2 ^ 32 = sp - (len + 1) := by omega
          rw [if_neg full, if_neg full, if_neg full, isDest]
          have inside : sp - (len + 1) + (len + 1) ≤ top := by omega
          obtain ⟨stored, ran, storedStaged, apart, writes, view⟩ := staged.copy_stack_bytes arg
            (by omega) inside
          obtain ⟨final, ran', finalStaged, apart', writes', view'⟩ :=
            ih (sp - (len + 1)) ((sp - (len + 1)) :: argPtrs) stored storedStaged (by omega) (by omega)
          rw [bind_done ran, ite_run, if_neg (by decide)]
          exact ⟨final, ran', finalStaged, apart.trans apart', writes.trans writes', by rw [view', view]⟩

/-! ## The stack -/

/-- The initial stack pointer and the places of the strings, if all of it fits on the stack. -/
def layOut (base top argc : Nat) (argv : Nat → Option (Nat → UInt8)) : Option (Nat × List Nat) :=
  match placeArguments base argv argc top [] with
  | none => none
  | some (sp, argPtrs) =>
    if alignDown4 sp < base + (1 + argc + 1 + 1) * 4 then none
    else some (alignDown4 sp - (1 + argc + 1 + 1) * 4, argPtrs)

/-- The view with the strings and the table of their places. -/
def argumentView (base top argc : Nat) (argv : Nat → Option (Nat → UInt8)) (esp : Nat)
    (argPtrs : List Nat) (view : Nat → Option UInt8) : Nat → Option UInt8 :=
  storeView (storeArguments base argv argc top view) esp ((1 + argc + 1 + 1) * 4)
    (wordBytes (argc :: argPtrs ++ [0, 0]))

/-- The fields of a process with its initial stack pointer. -/
def withEsp (esp : Nat) (fields : Process) : Process := { fields with userInitialEsp := esp }

theorem align_down4_eq {value : Nat} (bounded : value < 2 ^ 32) :
    alignDown4 value = value - value % 4 := by
  have masked : value &&& (2 ^ 32 - 4) = value / 2 ^ 2 * 2 ^ 2 :=
    land_high_mask value 2 bounded (by decide)
  rw [alignDown4, masked]
  omega

/-- `process_setup_arguments` for a staged process: the arguments alone decide whether they fit, and
what is stored. -/
theorem setup_arguments_run (staged : Staged image held process object base top state)
    (notDestroyed : (state.table.objects process).state ≠ .destroyed) {argc : Int}
    {argv : Option (Nat → Option (Nat → UInt8))} (bounded : ¬ (argc < 0 ∨ argc > processMaxArgc))
    (given : ¬ (argc > 0 ∧ argv.isNone)) :
    ∃ middle, Staged image held process object base top middle ∧ Apart object state middle ∧
      WritesOnly object (fun x => base ≤ x ∧ x < top) state.memory middle.memory ∧
      ((layOut base top argc.toNat (argv.getD fun _ => none) = none ∧
        processSetupArguments process argc argv state = .done (-1) middle) ∨
      ∃ esp argPtrs, layOut base top argc.toNat (argv.getD fun _ => none) = some (esp, argPtrs) ∧
        processSetupArguments process argc argv state = .done 0 { middle with
          table := middle.table.change process (withEsp esp) } ∧
        userByte middle.memory object = argumentView base top argc.toNat (argv.getD fun _ => none) esp argPtrs
          (userByte state.memory object)) := by
  have isLive : onTable (validateLiveProcess process) state = .done ⟨⟩ state := by
    refine on_table_done (show validateLiveProcess process state.table = .done ⟨⟩ state.table from ?_)
    unfold validateLiveProcess
    rw [bind_done staged.validated_table]
    simp [readProcess, notDestroyed]
  have hasStack : ¬ ((state.table.objects process).userStackBase = 0 ∨
      (state.table.objects process).userStackTop = 0) := by
    rw [staged.isBase, staged.isTop]
    obtain ⟨low, -⟩ := staged.bounds
    have order := staged.order
    omega
  unfold processSetupArguments
  rw [bind_done isLive, ite_run, if_neg bounded, ite_run, if_neg given,
    bind_done (read_process_run process state), ite_run, if_neg hasStack, staged.isTop]
  obtain ⟨copied, ran, copiedStaged, apart, writes, view⟩ := copy_arguments_run
    (argv.getD fun _ => none) argc.toNat top [] state staged (Nat.le_of_lt staged.order) (Nat.le_refl top)
  rw [bind_done ran]
  cases isPlaced : placeArguments base (argv.getD fun _ => none) argc.toNat top [] with
  | none =>
    refine ⟨copied, copiedStaged, apart, writes, Or.inl ⟨?_, rfl⟩⟩
    rw [layOut, isPlaced]
  | some placed =>
    obtain ⟨sp, argPtrs⟩ := placed
    obtain ⟨low, high⟩ := place_arguments_bounds (Nat.le_of_lt staged.order) isPlaced
    obtain ⟨-, below⟩ := staged.bounds
    have order := staged.order
    have few : argc.toNat ≤ 16 := by
      simp only [processMaxArgc] at bounded
      omega
    have exact : (base + (1 + argc.toNat + 1 + 1) * 4) % 2 ^ 32 =
        base + (1 + argc.toNat + 1 + 1) * 4 := by
      omega
    have spBounded : sp < 2 ^ 32 := by omega
    have down := align_down4_eq spBounded
    dsimp only
    rw [bind_done (read_process_run process copied), ite_run, copiedStaged.isBase, exact]
    by_cases full : alignDown4 sp < base + (1 + argc.toNat + 1 + 1) * 4
    · rw [if_pos full]
      refine ⟨copied, copiedStaged, apart, writes, Or.inl ⟨?_, rfl⟩⟩
      simp only [layOut, isPlaced, if_pos full]
    · have isDest : (alignDown4 sp + 2 ^ 32 - (1 + argc.toNat + 1 + 1) * 4) % 2 ^ 32 =
          alignDown4 sp - (1 + argc.toNat + 1 + 1) * 4 := by
        omega
      have inside : alignDown4 sp - (1 + argc.toNat + 1 + 1) * 4 + (1 + argc.toNat + 1 + 1) * 4 ≤
          top := by
        omega
      obtain ⟨stored, stores, storedStaged, apart', writes', view'⟩ := copiedStaged.copy_stack_bytes
        (wordBytes (argc.toNat :: argPtrs ++ [0, 0])) (by omega) inside
      rw [if_neg full, isDest, bind_done stores, ite_run, if_neg (by decide)]
      refine ⟨stored, storedStaged, apart.trans apart', writes.trans writes', Or.inr ⟨_, argPtrs, ?_, rfl, ?_⟩⟩
      · simp only [layOut, isPlaced, if_neg full]
      · rw [view', view, argumentView]

end Toyix.Loader
