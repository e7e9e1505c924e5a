import Toyix.Paging.Isolation

/-!
# The life of an address space

An address space is made, pages are mapped into it and unmapped from it, and it is destroyed.
Each of these keeps the balance of pages. When the space is destroyed it owns nothing, so the frame allocator is as it was before the space
was made, up to the pages of the kernel and of callers.
-/

namespace Toyix.Paging

open Library Pmm

variable {image : Image} {held : Set Nat} {system next : MemorySystem} {object : Nat}

/-- The count of free frames is right in every reachable system. -/
theorem reachable_counted (reached : MemoryReachable image Proper system) :
    Counted system.machine.pmm :=
  (reached.invariant (fun _ _ proper => proper) (fun system => Counted system.machine.pmm)
    (fun _ _ _ counted => counted) fun _ _ _ _ counted _ law => law.remarked.counted counted).2

/-! ## Between creation and destruction -/

/-- The calls in the life of an address space. Pages that callers map or give back were taken after
`start`. -/
def LifeOp (start : MemorySystem) (object : Nat) (system : MemorySystem) : MemoryOp → Prop
  | .allocPage => True
  | .freePage physicalAddr =>
    physicalAddr.toNat ∈ system.frames ∧ physicalAddr.toNat ∉ start.frames
  | .mapPage target _ physicalAddr _ =>
    target = object ∧ physicalAddr.toNat ∈ system.frames ∧ physicalAddr.toNat ∉ start.frames
  | .unmapPage target _ | .mapUserPage target _ | .mapUserRegion target _ _ => target = object
  | _ => False

instance (start : MemorySystem) (object : Nat) (system : MemorySystem) (op : MemoryOp) :
    Decidable (LifeOp start object system op) :=
  match op with
  | .allocPage => inferInstanceAs (Decidable True)
  | .freePage _ => inferInstanceAs (Decidable (_ ∧ _))
  | .mapPage _ _ _ _ => inferInstanceAs (Decidable (_ ∧ _ ∧ _))
  | .unmapPage _ _ | .mapUserPage _ _ | .mapUserRegion _ _ _ => inferInstanceAs (Decidable (_ = _))
  | .kmalloc _ | .kfree _ | .kernelMap _ _ _ | .kernelUnmap _ | .create | .switch _ | .destroy _ =>
    inferInstanceAs (Decidable False)

variable {start : MemorySystem}

theorem LifeOp.proper {op : MemoryOp} (allowed : LifeOp start object system op)
    (isSpace : (system.spaces object).isSome) :
    Proper system op ∧ op.Concerns object ∧ ∀ page ∈ start.frames, ¬ op.Uses page := by
  cases op with
  | allocPage => exact ⟨trivial, trivial, fun _ _ => id⟩
  | freePage physicalAddr =>
    refine ⟨allowed.1, trivial, ?_⟩
    rintro _ atStart rfl
    exact allowed.2 atStart
  | mapPage target virtualAddr physicalAddr flags =>
    obtain ⟨rfl, isHeld, notBefore⟩ := allowed
    refine ⟨⟨isSpace, fun _ => isHeld⟩, rfl, ?_⟩
    rintro _ atStart rfl
    exact notBefore atStart
  | unmapPage target | mapUserPage target | mapUserRegion target =>
    obtain rfl : target = object := allowed
    exact ⟨isSpace, rfl, fun _ _ => id⟩
  | _ => exact allowed.elim

/-- The state of the system while the space exists. -/
structure Living (image : Image) (start : MemorySystem) (object : Nat) (system : MemorySystem) :
    Prop where
  accounted : Accounted image system.held system
  isSpace : (system.spaces object).isSome
  balanced : BalancedFor object Owner.OfKernel start.held start system.held system
  frames : ∀ page ∈ start.frames, page ∈ system.frames

/-- A new address space. -/
theorem created_living (inv : Accounted image start.held start)
    (created : addressSpaceCreate start = .done object system) : Living image start object system := by
  obtain ⟨directory, pmm, base, effect⟩ := (address_space_create_sat inv).of_done created
  have sameHeld : system.held = start.held := held_congr effect.frames
  constructor
  · exact sameHeld ▸ effect.accounted inv
  · rw [effect.spaces, Function.update_self]
    rfl
  · exact sameHeld ▸ effect.balanced inv
  · intro page atStart
    rw [effect.frames]
    exact atStart

/-- The space lives on through every run of calls. -/
theorem Living.run {created : MemorySystem} (living : Living image start object created)
    (reached : Reaches memoryStep (LifeOp start object) created system) :
    Living image start object system := by
  refine reached.invariant (Living image start object) living ?_
  intro state op next living allowed taken
  obtain ⟨proper, concerns, unused⟩ := allowed.proper living.isSpace
  have law := memory_step_law living.accounted proper taken
  obtain ⟨balanced, isSome⟩ := law.concerned object concerns
  constructor
  · exact law.accounted
  · exact isSome living.isSpace
  · exact living.balanced.trans balanced
  · intro page atStart
    exact (law.frames page (living.frames page atStart)).resolve_right (unused page atStart)

/-! ## Destruction -/

/-- A page that the heap of the kernel, or a table for it, took meanwhile. -/
def TakenByKernel (start system : MemorySystem) (page : Nat) : Prop :=
  ∃ owner : Owner, owner.OfKernel ∧ ownersOf start.spaces start.machine owner = none ∧
    ownersOf system.spaces system.machine owner = some page

/-- A space without a record owns nothing. -/
theorem owns_nothing (gone : system.spaces object = none) {owner : Owner} (mine : owner.BelongsTo object)
    (page : Nat) : ownersOf system.spaces system.machine owner ≠ some page := by
  cases owner with
  | directory other =>
    obtain rfl : other = object := mine
    simp [ownersOf, ownedFrame, gone]
  | table space index =>
    obtain rfl : space = some object := mine
    simp [ownersOf, ownedFrame, directoryOf, gone]
  | page space virtualAddr =>
    obtain rfl : space = some object := mine
    simp [ownersOf, ownedFrame, directoryOf, gone]

/-- What is in use after the space is gone.

Proof: pages in use before are held, owned by another owner or lost, and stay so. A page in use
afterwards that was not in use before is held, or is owned by an owner who gained it; the space owns
nothing any more, so this is an owner of the kernel. -/
theorem Balanced.frames_after (balanced : BalancedFor object Owner.OfKernel start.held start next.held next)
    (before : Accounted image start.held start) (after : Accounted image next.held next)
    (absent : start.spaces object = none) (gone : next.spaces object = none)
    (frames : ∀ page ∈ start.frames, page ∈ next.frames) {page : Nat} (aligned : page % 4096 = 0) :
    FrameUsed next.machine.pmm page ↔ FrameUsed start.machine.pmm page ∨
      TakenByKernel start next page ∨ (page ∈ next.frames ∧ page ∉ start.frames) := by
  have sameLost := balanced.conserved.lost page aligned
  constructor
  · intro used
    rcases used_cases next.spaces next.held used with isHeld | ⟨owner, owns⟩ | isLost
    · by_cases atStart : page ∈ start.frames
      · exact Or.inl (before.owned.sound.loose atStart).1
      · exact Or.inr (Or.inr ⟨isHeld, atStart⟩)
    · rcases balanced.gained owns with mine | ofKernel | owned
      · exact absurd owns (owns_nothing gone mine page)
      · cases earlier : ownersOf start.spaces start.machine owner with
        | none => exact Or.inr (Or.inl ⟨owner, ofKernel, earlier, owns⟩)
        | some other =>
          rcases balanced.kept earlier with mine | still
          · exact absurd owns (owns_nothing gone mine page)
          · obtain rfl : other = page := Option.some.inj (still.symm.trans owns)
            exact Or.inl (before.owned.sound.owned earlier).1
      · exact Or.inl (before.owned.sound.owned owned).1
    · exact Or.inl (sameLost.mp isLost).1
  · rintro (used | ⟨owner, -, -, owns⟩ | ⟨isHeld, -⟩)
    · rcases used_cases start.spaces start.held used with isHeld | ⟨owner, owns⟩ | isLost
      · exact (after.owned.sound.loose (frames page isHeld)).1
      · rcases balanced.kept owns with mine | still
        · exact absurd owns (owns_nothing absent mine page)
        · exact (after.owned.sound.owned still).1
      · exact (sameLost.mpr isLost).1
    · exact (after.owned.sound.owned owns).1
    · exact (after.owned.sound.loose isHeld).1

/-- Destruction frees exactly the pages of the space.

Proof: a page of the space is not held, and no other owner gains or has it. All other pages in use
are held, owned by another owner or lost, and stay so. -/
theorem Balanced.freed_pages
    (balanced : BalancedFor object (fun _ => False) system.held system next.held next)
    (before : Accounted image system.held system) (after : Accounted image next.held next)
    (gone : next.spaces object = none) (sameHeld : next.held = system.held) {page : Nat}
    (aligned : page % 4096 = 0) :
    (FrameUsed system.machine.pmm page ∧ ¬ FrameUsed next.machine.pmm page) ↔
      ∃ owner : Owner, owner.BelongsTo object ∧
        ownersOf system.spaces system.machine owner = some page := by
  have sameLost := balanced.conserved.lost page aligned
  constructor
  · rintro ⟨used, unused⟩
    rcases used_cases system.spaces system.held used with isHeld | ⟨owner, owns⟩ | isLost
    · rw [← sameHeld] at isHeld
      exact absurd (after.owned.sound.loose isHeld).1 unused
    · rcases balanced.kept owns with mine | still
      · exact ⟨owner, mine, owns⟩
      · exact absurd (after.owned.sound.owned still).1 unused
    · exact absurd (sameLost.mpr isLost).1 unused
  · rintro ⟨owner, mine, owns⟩
    obtain ⟨used, -, notHeld⟩ := before.owned.sound.owned owns
    refine ⟨used, ?_⟩
    intro still
    rcases used_cases next.spaces next.held still with isHeld | ⟨other, otherOwns⟩ | isLost
    · rw [sameHeld] at isHeld
      exact notHeld isHeld
    · rcases balanced.gained otherOwns with otherMine | none | earlier
      · exact owns_nothing gone otherMine page otherOwns
      · exact none
      · obtain rfl := before.owned.sound.single earlier owns
        exact owns_nothing gone mine page otherOwns
    · exact (sameLost.mp isLost).2.2 owner owns

/-- What the destruction of an address space leaves of its life. -/
structure Restored (start system next : MemorySystem) (object : Nat) : Prop where
  frames : ∀ page, page % 4096 = 0 → (FrameUsed next.machine.pmm page ↔
    FrameUsed start.machine.pmm page ∨ TakenByKernel start next page ∨
      (page ∈ next.frames ∧ page ∉ start.frames))
  freed : ∀ page, page % 4096 = 0 →
    ((FrameUsed system.machine.pmm page ∧ ¬ FrameUsed next.machine.pmm page) ↔
      ∃ owner : Owner, owner.BelongsTo object ∧
        ownersOf system.spaces system.machine owner = some page)
  counted : start.machine.pmm.freeFrames = (start.machine.pmm.frameBitmap.clearBits pmmMaxFrames).card ∧
    next.machine.pmm.freeFrames = (next.machine.pmm.frameBitmap.clearBits pmmMaxFrames).card
  others : Remarked start.machine.pmm next.machine.pmm

/-- An address space that is made, used in any way and destroyed leaves the frame allocator as it was,
up to pages of the kernel's heap and pages that callers took and still hold. Destruction returns,
and it frees each page, table and directory of the space and nothing else.

Proof: each call keeps the balance of pages, and so does the destruction. -/
theorem address_space_life_restores {created : MemorySystem}
    (reached : MemoryReachable image Proper start)
    (creates : addressSpaceCreate start = .done object created)
    (lived : Reaches memoryStep (LifeOp start object) created system) :
    ∃ next, addressSpaceDestroy (some object) system = .done ⟨⟩ next ∧
      Restored start system next object := by
  have inv := reachable_accounted (fun _ _ proper => proper) reached
  obtain ⟨directory, pmm, base, effect⟩ := (address_space_create_sat inv).of_done creates
  have living := (created_living inv creates).run lived
  obtain ⟨record, isRecord⟩ := Option.isSome_iff_exists.mp living.isSpace
  obtain ⟨next, ran, after, gone, balanced⟩ := address_space_destroy_run living.accounted isRecord
  have sameHeld : next.held = system.held := held_congr gone.frames
  rw [← sameHeld] at after
  have freed : BalancedFor object (fun _ => False) system.held system next.held next := by
    rw [sameHeld]
    exact balanced
  have whole := living.balanced.trans (freed.weaken (fun _ => id) fun _ => False.elim)
  refine ⟨next, ran, ?_⟩
  constructor
  · intro page aligned
    refine Balanced.frames_after whole inv after (effect.absent inv) gone.gone ?_ aligned
    intro other atStart
    rw [gone.frames]
    exact living.frames other atStart
  · intro page aligned
    exact Balanced.freed_pages freed living.accounted after gone.gone sameHeld aligned
  · have counted := reachable_counted reached
    exact ⟨counted, whole.remarked.counted counted⟩
  · exact whole.remarked

set_option maxRecDepth 100000 in
/-- A space with a page of the caller and a page of a region, of which the second is unmapped again. -/
theorem mapped_space_restores : ∃ start system next,
    listedPages 0xD1000018 system = some [(0x01000000, 0x109000)] ∧
    addressSpaceDestroy (some 0xD1000018) system = .done ⟨⟩ next ∧
    Restored start system next 0xD1000018 := by
  have completed : ((smallRun Proper []).bind fun start =>
      (addressSpaceCreate start).result.bind fun (object, created) =>
        (runAll memoryStep (LifeOp start object)
          [.allocPage, .mapPage 0xD1000018 0x01000000 0x109000 3,
            .mapUserRegion 0xD1000018 0x01001000 100, .unmapPage 0xD1000018 0x01001000] created).map
          fun system => (object, listedPages 0xD1000018 system)) =
      some (0xD1000018, some [(0x01000000, 0x109000)]) := by
    decide +kernel
  obtain ⟨start, started, rest⟩ := Option.bind_eq_some_iff.mp completed
  obtain ⟨⟨object, created⟩, creates, living⟩ := Option.bind_eq_some_iff.mp rest
  obtain ⟨system, lived, seen⟩ := Reaches.of_facts living
  obtain ⟨rfl, pages⟩ := Prod.mk.inj seen
  obtain ⟨next, destroyed, restored⟩ := address_space_life_restores
    (small_run_reachable started) (result_eq_some.mp creates) lived
  exact ⟨start, system, next, pages, destroyed, restored⟩

end Toyix.Paging
