import Toyix.Paging.HeapPages

/-!
# The balance of pages

Every page in use has an owner, is held, or was in use before anyone kept books. `Balanced` compares
two states of the machine: no page was lost or found in between, the count of the frame allocator
stayed correct, and no owner outside of a given set lost its page.

The elementary changes of ownership extend a balance.
-/

namespace Toyix.Paging

open Library Pmm

variable {image : Image} {spaces spaces' spaces₀ : Nat → Option AddressSpace}
  {held held₀ : Set Nat} {machine machine' start : Machine} {mine common : Owner → Prop}
  {page : Nat} {held' : Set Nat} {owner : Owner}

/-- The books of a machine. -/
abbrev booksOf (spaces : Nat → Option AddressSpace) (held : Set Nat) (machine : Machine) :
    Ledger.Books Owner Nat :=
  ⟨FrameUsed machine.pmm, held, ownersOf spaces machine⟩

/-- Owners that are not parts of a process. -/
def Owner.OfKernel (owner : Owner) : Prop := ¬ owner.OfProcess

/-- Between two states no page was lost or found. Only owners in `mine` lost their pages, and only
these and the owners in `common` gained any. -/
structure Balanced (mine common : Owner → Prop) (spaces : Nat → Option AddressSpace) (held : Set Nat)
    (machine : Machine) (spaces' : Nat → Option AddressSpace) (held' : Set Nat) (machine' : Machine) :
    Prop where
  remarked : Remarked machine.pmm machine'.pmm
  conserved : Ledger.Conserved (fun page => page % 4096 = 0) mine common
    (booksOf spaces held machine) (booksOf spaces' held' machine')

theorem Balanced.refl (mine common : Owner → Prop) (spaces : Nat → Option AddressSpace) (held : Set Nat)
    (machine : Machine) : Balanced mine common spaces held machine spaces held machine :=
  ⟨Remarked.refl _, Ledger.Conserved.refl _⟩

theorem Balanced.trans {held'' : Set Nat} {spaces'' : Nat → Option AddressSpace}
    {machine'' : Machine} (first : Balanced mine common spaces held machine spaces' held' machine')
    (second : Balanced mine common spaces' held' machine' spaces'' held'' machine'') :
    Balanced mine common spaces held machine spaces'' held'' machine'' :=
  ⟨first.remarked.trans second.remarked, first.conserved.trans second.conserved⟩

section Balanced

variable (balanced : Balanced mine common spaces held machine spaces' held' machine')

include balanced

theorem Balanced.weaken {mine' common' : Owner → Prop} (wider : ∀ owner, mine owner → mine' owner)
    (moreCommon : ∀ owner, common owner → mine' owner ∨ common' owner) :
    Balanced mine' common' spaces held machine spaces' held' machine' :=
  ⟨balanced.remarked, balanced.conserved.weaken wider moreCommon⟩

/-- Owners that are not meant keep their pages. -/
theorem Balanced.kept (owns : ownersOf spaces machine owner = some page) :
    mine owner ∨ ownersOf spaces' machine' owner = some page :=
  balanced.conserved.kept owns

/-- Owners that are not meant had their pages before. -/
theorem Balanced.gained (owns : ownersOf spaces' machine' owner = some page) :
    mine owner ∨ common owner ∨ ownersOf spaces machine owner = some page :=
  balanced.conserved.gained owns

end Balanced

section Balanced

variable (balanced : Balanced mine common spaces₀ held₀ start spaces held machine)

include balanced

/-- The frame allocator did not change, and the books stay conserved. -/
theorem Balanced.rewrite {owners : Owner → Option Nat} (samePmm : machine'.pmm = machine.pmm)
    (isOwners : ownersOf spaces' machine' = owners)
    (conserved : Ledger.Conserved (fun page => page % 4096 = 0) mine common (booksOf spaces₀ held₀ start)
      ⟨FrameUsed machine.pmm, held', owners⟩) :
    Balanced mine common spaces₀ held₀ start spaces' held' machine' := by
  refine ⟨samePmm ▸ balanced.remarked, ?_⟩
  show Ledger.Conserved _ _ _ _ ⟨FrameUsed machine'.pmm, held', ownersOf spaces' machine'⟩
  rwa [samePmm, isOwners]

/-- Neither the frame allocator nor an owner changed. -/
theorem Balanced.same (samePmm : machine'.pmm = machine.pmm)
    (sameOwners : ownersOf spaces' machine' = ownersOf spaces machine) :
    Balanced mine common spaces₀ held₀ start spaces' held machine' :=
  balanced.rewrite samePmm sameOwners balanced.conserved

/-- A page is taken from the frame allocator. -/
theorem Balanced.take {pmm : PmmState} (taken : Takes machine.pmm pmm page) :
    Balanced mine common spaces₀ held₀ start spaces (insert page held) { machine with pmm := pmm } := by
  refine ⟨balanced.remarked.trans taken.remarked, balanced.conserved.take taken.fresh ?_⟩
  intro other aligned
  rw [taken.used other, page_eq_of_frame aligned taken.allocatable.1]

/-- A held page is returned to the frame allocator. -/
theorem Balanced.give_back {pmm : PmmState} (isHeld : page ∈ held) (allocatable : Allocatable page)
    (freed : pmmFreePage page machine.pmm = .ok pmm) :
    Balanced mine common spaces₀ held₀ start spaces (held \ {page}) { machine with pmm := pmm } := by
  obtain ⟨pmm', freed', used⟩ := pmm_free_page_exact machine.pmm page allocatable
  obtain rfl : pmm' = pmm := Except.ok.inj (freed'.symm.trans freed)
  refine ⟨balanced.remarked.trans (pmm_free_page_remarked freed),
    balanced.conserved.giveBack isHeld ?_⟩
  intro other aligned
  rw [used other, Ne, page_eq_of_frame aligned allocatable.1]

/-- A held page is given to an owner. -/
theorem Balanced.assign (isHeld : page ∈ held) (absent : ownersOf spaces machine owner = none)
    (entitled : mine owner ∨ common owner) (samePmm : machine'.pmm = machine.pmm)
    (owners : ownersOf spaces' machine' = Function.update (ownersOf spaces machine) owner (some page)) :
    Balanced mine common spaces₀ held₀ start spaces' (held \ {page}) machine' :=
  balanced.rewrite samePmm owners (balanced.conserved.assign isHeld absent entitled)

variable (owned : Owned image spaces held machine) (owns : ownersOf spaces machine owner = some page)
  (dispensable : mine owner ∨ ownersOf spaces₀ start owner = none)
  (samePmm : machine'.pmm = machine.pmm)
  (owners : ownersOf spaces' machine' = Function.update (ownersOf spaces machine) owner none)

include owned owns dispensable samePmm owners

/-- The page of an owner is held. -/
theorem Balanced.release :
    Balanced mine common spaces₀ held₀ start spaces' (insert page held) machine' :=
  balanced.rewrite samePmm owners
    (balanced.conserved.release (fun otherOwns => owned.sound.single otherOwns owns) owns dispensable)

/-- The page of an owner is returned to the frame allocator. -/
theorem Balanced.release_free {pmm : PmmState} (freed : pmmFreePage page machine.pmm = .ok pmm) :
    Balanced mine common spaces₀ held₀ start spaces' held { machine' with pmm := pmm } := by
  obtain ⟨-, permitted, notHeld⟩ := owned.sound.owned owns
  have released := balanced.release owned owns dispensable samePmm owners
  have returned := released.give_back (Set.mem_insert page held) permitted.1 (samePmm ▸ freed)
  rwa [Set.insert_sdiff_self_of_notMem notHeld] at returned

end Balanced

/-- Every page in use is held or owned, or was in use before anyone kept books. -/
theorem used_cases (spaces : Nat → Option AddressSpace) (held : Set Nat) {machine : Machine}
    (used : FrameUsed machine.pmm page) :
    page ∈ held ∨ (∃ owner, ownersOf spaces machine owner = some page) ∨
      page ∈ Ledger.lost (FrameUsed machine.pmm) held (ownersOf spaces machine) := by
  by_cases isHeld : page ∈ held
  · exact Or.inl isHeld
  · by_cases owned : ∃ owner, ownersOf spaces machine owner = some page
    · exact Or.inr (Or.inl owned)
    · exact Or.inr (Or.inr ⟨used, isHeld, not_exists.mp owned⟩)

/-- Where no owner may lose its page, pages in use stay in use. -/
theorem Balanced.used
    (balanced : Balanced (fun _ => False) common spaces held machine spaces' held' machine')
    (owned : Owned image spaces' held' machine') (subset : held ⊆ held') (aligned : page % 4096 = 0)
    (used : FrameUsed machine.pmm page) : FrameUsed machine'.pmm page := by
  rcases used_cases spaces held used with isHeld | ⟨owner, owns⟩ | isLost
  · exact (owned.sound.loose (subset isHeld)).1
  · exact (owned.sound.owned ((balanced.kept owns).resolve_left id)).1
  · exact ((balanced.conserved.lost page aligned).mpr isLost).1

/-- The owners of an address space. -/
def Owner.BelongsTo (object : Nat) : Owner → Prop
  | .directory other => other = object
  | .table space _ => space = some object
  | .page space _ => space = some object

/-- The balance of the memory system, for work on one address space. -/
abbrev BalancedFor (object : Nat) (common : Owner → Prop) (held : Set Nat) (system : MemorySystem) (held' : Set Nat)
    (next : MemorySystem) : Prop :=
  Balanced (Owner.BelongsTo object) common system.spaces held system.machine next.spaces held' next.machine

/-- The owners of an address space and the kernel gained pages, and nobody lost one. -/
abbrev AddedFor (object : Nat) (held : Set Nat) (system : MemorySystem) (held' : Set Nat)
    (next : MemorySystem) : Prop :=
  Balanced (fun _ => False) (fun owner => owner.BelongsTo object ∨ owner.OfKernel) system.spaces held
    system.machine next.spaces held' next.machine

theorem AddedFor.balanced {object : Nat} {held : Set Nat} {system next : MemorySystem}
    (added : AddedFor object held system held' next) :
    BalancedFor object Owner.OfKernel held system held' next :=
  Balanced.weaken added (fun _ => False.elim) fun _ => id

end Toyix.Paging
