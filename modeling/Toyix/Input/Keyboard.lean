import Toyix.Library.Gate
import Toyix.Library.Cyclic
import Toyix.Library.Transition

/-!
# The keyboard buffer

The ring of `drivers/input/keyboard.c` with its readers. `keyboard_deliver_char` pushes a
character in one `irq_save` section and then calls `wait_queue_wake_one`, which removes the
first reader in a second section and wakes it in a third. `keyboard_getchar_blocking` waits
until `keyboard_has_data` and then pops in a section of its own; it may find the character
gone and waits again.

Those who deliver and those who read are the threads of `Library.Gate`, and a character in
the ring is a unit of its resource. A run also keeps the characters that were accepted and those
that were popped, in order.
-/

namespace Toyix.Input

open Library Library.Gate

universe u

variable {ι : Type u} [DecidableEq ι]

def keyboardRingSize : Nat := 128

/-- The ring, with the characters accepted and popped so far. -/
structure Keyboard where
  ring : Cyclic UInt8
  accepted : List UInt8
  popped : List UInt8

/-- `keyboard_ring_push`; nothing when the character is refused. -/
def keyboardRingPush (ch : UInt8) (keyboard : Keyboard) : Option Keyboard :=
  (keyboard.ring.push keyboardRingSize ch).map fun ring =>
    { keyboard with ring := ring, accepted := keyboard.accepted ++ [ch] }

/-- `keyboard_ring_pop`; nothing when there is no character. -/
def keyboardRingPop (keyboard : Keyboard) : Option (UInt8 × Keyboard) :=
  (keyboard.ring.pop keyboardRingSize).map fun (ch, ring) =>
    (ch, { keyboard with ring := ring, popped := keyboard.popped ++ [ch] })

/-- `keyboard_has_data`. -/
def keyboardHasData (keyboard : Keyboard) : Bool := decide (keyboard.ring.count > 0)

/-- The sections that push a given character, test for one, and pop one. -/
def keyboardGate (ι : Type u) (ch : UInt8) : Gate ι Keyboard where
  refused _ _ := false
  available := keyboardHasData
  take _ keyboard :=
    match keyboardRingPop keyboard with
    | some (_, next) => next
    | none => keyboard
  give _ keyboard := keyboardRingPush ch keyboard

/-- The characters in the ring. -/
def Keyboard.contents (keyboard : Keyboard) : List UInt8 := keyboard.ring.contents keyboardRingSize

/-- `keyboard_init`, whatever the cells hold. -/
def keyboardInit (cells : Nat → UInt8) : State ι Keyboard :=
  State.initial ⟨⟨cells, 0, 0, 0⟩, [], []⟩

/-- A thread calls one of the functions, or takes the next step of its call. -/
inductive KeyboardCall (ι : Type u) where
  | deliverChar (thread : ι) (ch : UInt8)
  | tryGetchar (thread : ι)
  | getcharBlocking (thread : ι)
  | advance (thread : ι)

/-- One section of one thread. A refused character ends `keyboard_deliver_char`. -/
def keyboardStep : KeyboardCall ι → State ι Keyboard → Option (State ι Keyboard)
  | .deliverChar thread ch, state =>
    if state.stage thread = .outside then
      match keyboardRingPush ch state.resource with
      | some keyboard => some (state.gave thread keyboard)
      | none => some state
    else none
  | .tryGetchar thread, state => (keyboardGate ι 0).step (.tryAcquire thread) state
  | .getcharBlocking thread, state =>
    if state.stage thread = .outside then some (state.moved thread (.waiting false)) else none
  | .advance thread, state => (keyboardGate ι 0).step (.advance thread) state

/-! ## One step -/

/-- A step is one of the moves of a gate. -/
theorem keyboard_step_moves {state next : State ι Keyboard} {call : KeyboardCall ι}
    (taken : keyboardStep call state = some next) :
    ∃ ch label, Moves (keyboardGate ι ch) state label next := by
  cases call with
  | deliverChar thread ch =>
    simp only [keyboardStep] at taken
    split at taken
    · rename_i outside
      split at taken
      · rename_i keyboard pushed
        obtain rfl := Option.some.inj taken
        exact ⟨ch, .release thread, .give rfl outside pushed⟩
      · obtain rfl := Option.some.inj taken
        exact ⟨ch, .release thread, .still⟩
    · cases taken
  | tryGetchar thread => exact ⟨0, .tryAcquire thread, step_moves taken⟩
  | getcharBlocking thread =>
    simp only [keyboardStep] at taken
    split at taken
    · rename_i outside
      obtain rfl := Option.some.inj taken
      refine ⟨0, .advance thread, .shift ?_ trivial ?_⟩
      · rw [outside]
        trivial
      · rw [outside]
        rfl
    · cases taken
  | advance thread => exact ⟨0, .advance thread, step_moves taken⟩

/-- The ring is valid, and what was popped, followed by what it holds, is what was accepted. -/
structure Keyboard.Ordered (keyboard : Keyboard) : Prop where
  valid : keyboard.ring.Valid keyboardRingSize
  order : keyboard.popped ++ keyboard.contents = keyboard.accepted

theorem Keyboard.Ordered.push {keyboard next : Keyboard} {ch : UInt8} (ordered : keyboard.Ordered)
    (pushed : keyboardRingPush ch keyboard = some next) :
    next.Ordered ∧ next.ring.count = keyboard.ring.count + 1 := by
  obtain ⟨ring, isPushed, rfl⟩ := Option.map_eq_some_iff.mp pushed
  obtain ⟨valid, contents, count⟩ := ordered.valid.push isPushed
  refine ⟨⟨valid, ?_⟩, count⟩
  simp only [Keyboard.contents]
  rw [contents, ← ordered.order, List.append_assoc]
  rfl

/-- A pop succeeds when there is a character. -/
theorem Keyboard.Ordered.pop {keyboard : Keyboard} (ordered : keyboard.Ordered)
    (available : keyboardHasData keyboard = true) :
    ∃ ch next, keyboardRingPop keyboard = some (ch, next) ∧ next.Ordered ∧
      next.ring.count + 1 = keyboard.ring.count := by
  have filled : keyboard.ring.count ≠ 0 := by
    simp only [keyboardHasData, decide_eq_true_eq] at available
    omega
  obtain ⟨ch, ring, popped⟩ : ∃ ch ring, keyboard.ring.pop keyboardRingSize = some (ch, ring) := by
    simp [Cyclic.pop, filled]
  obtain ⟨valid, contents, count⟩ := ordered.valid.pop popped
  refine ⟨ch, _, by rw [keyboardRingPop, popped]; rfl, ⟨valid, ?_⟩, count⟩
  have order := ordered.order
  simp only [Keyboard.contents] at order ⊢
  rw [contents] at order
  rw [← order, List.append_assoc]
  rfl

/-- The units of the keyboard are the characters in the ring. -/
def Keyboard.units (keyboard : Keyboard) : Int := keyboard.ring.count

omit [DecidableEq ι] in
theorem keyboard_counts {keyboard : Keyboard} (ordered : keyboard.Ordered) (ch : UInt8)
    (label : Label ι) : Counts (keyboardGate ι ch) Keyboard.units keyboard label := by
  constructor
  · simp [keyboardGate, keyboardHasData, Keyboard.units]
  · intro thread available
    obtain ⟨popped, next, isPopped, -, count⟩ := ordered.pop available
    simp only [keyboardGate, isPopped, Keyboard.units]
    omega
  · intro thread keyboard' _ pushed
    have count := (ordered.push pushed).2
    simp only [Keyboard.units]
    omega

theorem Moves.ordered {state next : State ι Keyboard} {ch : UInt8} {label : Label ι}
    (moves : Moves (keyboardGate ι ch) state label next) (ordered : state.resource.Ordered) :
    next.resource.Ordered := by
  cases moves with
  | @take thread called before available =>
    obtain ⟨popped, keyboard, isPopped, ordered', -⟩ := ordered.pop available
    simp only [State.took, keyboardGate, isPopped]
    exact ordered'
  | give called before pushed => exact (ordered.push pushed).1
  | wake before =>
    unfold Gate.wake
    split <;> exact ordered
  | _ => exact ordered

/-! ## Whole runs -/

variable [Fintype ι]

/-- The buffer is a bounded queue: its numbers agree, characters leave it in the order in
which they were accepted, and one is refused exactly when 128 are there. No reader is left
blocked with a character in the ring and nobody on the way. -/
structure BufferLaw (state : State ι Keyboard) : Prop where
  head : state.resource.ring.head < 128
  tail : state.resource.ring.tail < 128
  count : state.resource.ring.count ≤ 128
  agree : state.resource.ring.tail =
    (state.resource.ring.head + state.resource.ring.count) % 128
  order : state.resource.popped ++ state.resource.contents = state.resource.accepted
  refusal : ∀ ch, keyboardRingPush ch state.resource = none ↔ state.resource.contents.length = 128
  notStuck : ¬ (Settled state ∧ state.queue ≠ [] ∧ 0 < state.resource.ring.count)

/-- The law of the buffer holds in every state reached.

Proof: every step is a move of the gate whose units are the characters in the ring, so the laws of
`Library.Gate` exclude a lost wakeup; the order is kept by the one push and the one pop. -/
theorem keyboard_buffer_law (cells : Nat → UInt8) (state : State ι Keyboard)
    (reached : Reaches keyboardStep (fun _ _ => True) (keyboardInit cells) state) :
    BufferLaw state := by
  have laws : Balanced Keyboard.units 0 state ∧ state.resource.Ordered := by
    apply reached.invariant fun state =>
      Balanced Keyboard.units 0 state ∧ state.resource.Ordered
    · have empty : (0 : Int) ≤ Keyboard.units ⟨⟨cells, 0, 0, 0⟩, [], []⟩ := Int.le_refl 0
      have positive : 0 < keyboardRingSize := by decide
      exact ⟨initial_balanced empty, ⟨positive, Nat.zero_le _, rfl⟩, rfl⟩
    · rintro state call next ⟨balanced, ordered⟩ _ taken
      obtain ⟨ch, label, moves⟩ := keyboard_step_moves taken
      exact ⟨moves.balanced (keyboard_counts ordered ch label) balanced, Moves.ordered moves ordered⟩
  obtain ⟨balanced, ordered⟩ := laws
  have length : state.resource.contents.length = state.resource.ring.count :=
    Cyclic.contents_length _ _
  refine ⟨ordered.valid.head, ordered.valid.tail_lt, ordered.valid.count, ordered.valid.tail,
    ordered.order, ?_, ?_⟩
  · intro ch
    have full : keyboardRingSize ≤ state.resource.ring.count ↔ state.resource.ring.count = 128 := by
      have bounded := ordered.valid.count
      simp only [keyboardRingSize] at bounded ⊢
      omega
    rw [length, ← full, ← Cyclic.push_eq_none, keyboardRingPush, Option.map_eq_none_iff]
  · rintro ⟨settled, waiting, filled⟩
    have positive : 0 < state.resource.units := by
      simp only [Keyboard.units]
      omega
    exact balanced.not_stuck ⟨settled, positive, waiting⟩

/-- A reader is blocked, two characters are delivered, and the reader and another one take
them in order. -/
theorem two_characters_in_order : ∃ state : State (Fin 3) Keyboard,
    state.resource.popped = [111, 115] ∧ state.queue = [] ∧ BufferLaw state := by
  have completed : ((runAll keyboardStep (fun _ _ => True)
      [.getcharBlocking (0 : Fin 3), .advance 0, .deliverChar 2 111, .advance 2, .advance 2,
        .deliverChar 2 115, .advance 0, .advance 0, .tryGetchar 1, .advance 2]
      (keyboardInit fun _ => 0)).map fun state => (state.resource.popped, state.queue)) =
        some ([111, 115], []) := by decide
  obtain ⟨state, reached, shape⟩ := Reaches.of_facts completed
  obtain ⟨popped, queue⟩ := Prod.mk.inj shape
  exact ⟨state, popped, queue, keyboard_buffer_law _ state reached⟩

end Toyix.Input
