import Mathlib.Data.Set.Insert
import Mathlib.Logic.Function.Basic
import Mathlib.Tactic.Common

/-!
# Ownership of exclusive resources

Owners hold resources taken from a common pool; a resource in use has at most one
owner. Between taking a resource and giving it to its owner a program holds it
loosely. `Sound` is the state of such a ledger: what is owned or held is in use and
permitted, nothing is owned twice, and nothing held is owned.

Every change of a ledger is one of four: take a free resource, give a held one to
an owner, release an owner's resource, return a held resource to the pool. None of
them changes what is lost, the resources in use that nobody holds or owns; `Conserved`
says so of longer changes, and of the owners that they leave alone.
-/

namespace Library.Ledger

open Function

universe u v
variable {Owner : Type u} {Resource : Type v} {resource : Resource}

/-- Exclusive ownership of permitted resources that are in use. -/
structure Sound (permitted used : Resource → Prop) (held : Set Resource)
    (owns : Owner → Option Resource) : Prop where
  single : ∀ {owner other resource}, owns owner = some resource → owns other = some resource →
    owner = other
  owned : ∀ {owner resource}, owns owner = some resource →
    used resource ∧ permitted resource ∧ resource ∉ held
  loose : ∀ {resource}, resource ∈ held → used resource ∧ permitted resource

variable {permitted used used' : Resource → Prop} {held : Set Resource}
  {owns : Owner → Option Resource}

section Sound

variable (sound : Sound permitted used held owns)

include sound

/-- A free resource is taken and held. -/
theorem Sound.take (fresh : ¬ used resource) (allowed : permitted resource)
    (now : ∀ other, permitted other → (used' other ↔ other = resource ∨ used other)) :
    Sound permitted used' (insert resource held) owns := by
  refine ⟨sound.single, ?_, ?_⟩
  · intro owner other owned
    obtain ⟨inUse, valid, notHeld⟩ := sound.owned owned
    refine ⟨(now other valid).mpr (Or.inr inUse), valid, ?_⟩
    intro isHeld
    rcases Set.mem_insert_iff.mp isHeld with rfl | before
    · exact fresh inUse
    · exact notHeld before
  · intro other isHeld
    rcases Set.mem_insert_iff.mp isHeld with rfl | before
    · exact ⟨(now other allowed).mpr (Or.inl rfl), allowed⟩
    · obtain ⟨inUse, valid⟩ := sound.loose before
      exact ⟨(now other valid).mpr (Or.inr inUse), valid⟩

/-- A held resource is returned to the pool. -/
theorem Sound.giveBack (isHeld : resource ∈ held)
    (now : ∀ other, permitted other → (used' other ↔ other ≠ resource ∧ used other)) :
    Sound permitted used' (held \ {resource}) owns := by
  refine ⟨sound.single, ?_, ?_⟩
  · intro owner other owned
    obtain ⟨inUse, valid, notHeld⟩ := sound.owned owned
    refine ⟨(now other valid).mpr ⟨?_, inUse⟩, valid, fun later => notHeld later.1⟩
    rintro rfl
    exact notHeld isHeld
  · rintro other ⟨before, different⟩
    obtain ⟨inUse, valid⟩ := sound.loose before
    exact ⟨(now other valid).mpr ⟨different, inUse⟩, valid⟩

/-- A held resource is given to an owner that has none. -/
theorem Sound.assign [DecidableEq Owner] (owner : Owner) (isHeld : resource ∈ held) :
    Sound permitted used (held \ {resource}) (update owns owner (some resource)) := by
  refine ⟨?_, ?_, ?_⟩
  · intro first second shared firstOwns secondOwns
    rw [update_apply] at firstOwns secondOwns
    split at firstOwns
    · split at secondOwns
      · rename_i one two
        exact one.trans two.symm
      · obtain rfl := Option.some.inj firstOwns
        exact absurd isHeld (sound.owned secondOwns).2.2
    · split at secondOwns
      · obtain rfl := Option.some.inj secondOwns
        exact absurd isHeld (sound.owned firstOwns).2.2
      · exact sound.single firstOwns secondOwns
  · intro other shared owned
    rw [update_apply] at owned
    split at owned
    · obtain rfl := Option.some.inj owned
      obtain ⟨inUse, valid⟩ := sound.loose isHeld
      exact ⟨inUse, valid, fun later => later.2 rfl⟩
    · obtain ⟨inUse, valid, notHeld⟩ := sound.owned owned
      exact ⟨inUse, valid, fun later => notHeld later.1⟩
  · rintro other ⟨before, -⟩
    exact sound.loose before

/-- An owner releases its resource, which is held afterwards. -/
theorem Sound.release [DecidableEq Owner] {owner : Owner} (owned : owns owner = some resource) :
    Sound permitted used (insert resource held) (update owns owner none) := by
  refine ⟨?_, ?_, ?_⟩
  · intro first second shared firstOwns secondOwns
    rw [update_apply] at firstOwns secondOwns
    split at firstOwns
    · simp at firstOwns
    · split at secondOwns
      · simp at secondOwns
      · exact sound.single firstOwns secondOwns
  · intro other shared otherOwns
    rw [update_apply] at otherOwns
    split at otherOwns
    · simp at otherOwns
    · rename_i different
      obtain ⟨inUse, valid, notHeld⟩ := sound.owned otherOwns
      refine ⟨inUse, valid, ?_⟩
      intro isHeld
      rcases Set.mem_insert_iff.mp isHeld with rfl | before
      · exact different (sound.single otherOwns owned)
      · exact notHeld before
  · intro other isHeld
    rcases Set.mem_insert_iff.mp isHeld with rfl | before
    · obtain ⟨inUse, valid, -⟩ := sound.owned owned
      exact ⟨inUse, valid⟩
    · exact sound.loose before

/-- Forgetting that some resources are held. -/
theorem Sound.forget {fewer : Set Resource} (subset : fewer ⊆ held) :
    Sound permitted used fewer owns := by
  refine ⟨sound.single, ?_, ?_⟩
  · intro owner resource owned
    obtain ⟨inUse, valid, notHeld⟩ := sound.owned owned
    exact ⟨inUse, valid, fun isHeld => notHeld (subset isHeld)⟩
  · intro resource isHeld
    exact sound.loose (subset isHeld)

end Sound

/-! ## Conservation -/

/-- The resources in use that are neither held nor owned. -/
def lost (used : Resource → Prop) (held : Set Resource) (owns : Owner → Option Resource) :
    Set Resource :=
  {resource | used resource ∧ resource ∉ held ∧ ∀ owner, owns owner ≠ some resource}

/-- The state of a ledger. -/
structure Books (Owner : Type u) (Resource : Type v) where
  used : Resource → Prop
  held : Set Resource
  owns : Owner → Option Resource

/-- No named resource was lost or found, only owners in `mine` lost theirs, and only these
and the owners in `common` gained any. -/
structure Conserved (named : Resource → Prop) (mine common : Owner → Prop)
    (books books' : Books Owner Resource) : Prop where
  lost : ∀ resource, named resource → (resource ∈ lost books'.used books'.held books'.owns ↔
    resource ∈ lost books.used books.held books.owns)
  kept : ∀ {owner resource}, books.owns owner = some resource →
    mine owner ∨ books'.owns owner = some resource
  gained : ∀ {owner resource}, books'.owns owner = some resource →
    mine owner ∨ common owner ∨ books.owns owner = some resource

variable {named : Resource → Prop} {mine common : Owner → Prop} {books books' books'' : Books Owner Resource}

theorem Conserved.refl (books : Books Owner Resource) : Conserved named mine common books books :=
  ⟨fun _ _ => Iff.rfl, fun owned => Or.inr owned, fun owned => Or.inr (Or.inr owned)⟩

theorem Conserved.trans (first : Conserved named mine common books books')
    (second : Conserved named mine common books' books'') : Conserved named mine common books books'' := by
  constructor
  · intro resource isNamed
    exact (second.lost resource isNamed).trans (first.lost resource isNamed)
  · intro owner resource owned
    rcases first.kept owned with isMine | still
    · exact Or.inl isMine
    · exact second.kept still
  · intro owner resource owned
    rcases second.gained owned with isMine | isCommon | before
    · exact Or.inl isMine
    · exact Or.inr (Or.inl isCommon)
    · exact first.gained before

/-- More owners may be meant. -/
theorem Conserved.weaken {mine' common' : Owner → Prop} (conserved : Conserved named mine common books books')
    (wider : ∀ owner, mine owner → mine' owner) (moreCommon : ∀ owner, common owner → mine' owner ∨ common' owner) :
    Conserved named mine' common' books books' := by
  refine ⟨conserved.lost, ?_, ?_⟩
  · intro owner resource owned
    exact (conserved.kept owned).imp_left (wider owner)
  · intro owner resource owned
    rcases conserved.gained owned with isMine | isCommon | before
    · exact Or.inl (wider owner isMine)
    · exact (moreCommon owner isCommon).imp_right Or.inl
    · exact Or.inr (Or.inr before)

section Conserved

variable (conserved : Conserved named mine common books ⟨used, held, owns⟩)

include conserved

/-- A free resource is taken and held. -/
theorem Conserved.take (fresh : ¬ used resource)
    (now : ∀ other, named other → (used' other ↔ other = resource ∨ used other)) :
    Conserved named mine common books ⟨used', insert resource held, owns⟩ := by
  refine ⟨?_, conserved.kept, conserved.gained⟩
  intro other isNamed
  rw [← conserved.lost other isNamed]
  constructor
  · rintro ⟨inUse, notHeld, unowned⟩
    rcases (now other isNamed).mp inUse with rfl | before
    · exact absurd (Set.mem_insert other held) notHeld
    · exact ⟨before, fun isHeld => notHeld (Set.mem_insert_of_mem _ isHeld), unowned⟩
  · rintro ⟨inUse, notHeld, unowned⟩
    refine ⟨(now other isNamed).mpr (Or.inr inUse), ?_, unowned⟩
    intro isHeld
    rcases Set.mem_insert_iff.mp isHeld with rfl | before
    · exact fresh inUse
    · exact notHeld before

/-- A held resource is returned to the pool. -/
theorem Conserved.giveBack (isHeld : resource ∈ held)
    (now : ∀ other, named other → (used' other ↔ other ≠ resource ∧ used other)) :
    Conserved named mine common books ⟨used', held \ {resource}, owns⟩ := by
  refine ⟨?_, conserved.kept, conserved.gained⟩
  intro other isNamed
  rw [← conserved.lost other isNamed]
  constructor
  · rintro ⟨inUse, notHeld, unowned⟩
    obtain ⟨different, before⟩ := (now other isNamed).mp inUse
    exact ⟨before, fun wasHeld => notHeld ⟨wasHeld, different⟩, unowned⟩
  · rintro ⟨inUse, notHeld, unowned⟩
    have different : other ≠ resource := by
      rintro rfl
      exact notHeld isHeld
    exact ⟨(now other isNamed).mpr ⟨different, inUse⟩, fun later => notHeld later.1, unowned⟩

/-- A held resource is given to an owner that has none. -/
theorem Conserved.assign [DecidableEq Owner] {owner : Owner} (isHeld : resource ∈ held)
    (absent : owns owner = none) (entitled : mine owner ∨ common owner) :
    Conserved named mine common books
      ⟨used, held \ {resource}, update owns owner (some resource)⟩ := by
  refine ⟨?_, ?_, ?_⟩
  · intro other isNamed
    rw [← conserved.lost other isNamed]
    constructor
    · rintro ⟨inUse, notHeld, unowned⟩
      have different : other ≠ resource := by
        rintro rfl
        exact unowned owner (update_self _ _ _)
      refine ⟨inUse, fun wasHeld => notHeld ⟨wasHeld, different⟩, ?_⟩
      intro someone owned
      have notOwner : someone ≠ owner := by
        rintro rfl
        exact Option.some_ne_none other (owned.symm.trans absent)
      exact unowned someone ((update_of_ne notOwner _ _).trans owned)
    · rintro ⟨inUse, notHeld, unowned⟩
      refine ⟨inUse, fun later => notHeld later.1, ?_⟩
      intro someone owned
      simp only [update_apply] at owned
      split at owned
      · obtain rfl := Option.some.inj owned
        exact notHeld isHeld
      · exact unowned someone owned
  · intro someone other owned
    rcases conserved.kept owned with isMine | still
    · exact Or.inl isMine
    · have notOwner : someone ≠ owner := by
        rintro rfl
        exact Option.some_ne_none other (still.symm.trans absent)
      exact Or.inr ((update_of_ne notOwner _ _).trans still)
  · intro someone other owned
    simp only [update_apply] at owned
    split at owned
    · rename_i isOwner
      exact isOwner ▸ entitled.imp_right Or.inl
    · exact conserved.gained owned

/-- An owner releases its resource, which is held afterwards. It is one of those that may
lose theirs, or had none at the start. -/
theorem Conserved.release [DecidableEq Owner] {owner : Owner}
    (single : ∀ {other}, owns other = some resource → other = owner)
    (owned : owns owner = some resource) (dispensable : mine owner ∨ books.owns owner = none) :
    Conserved named mine common books
      ⟨used, insert resource held, update owns owner none⟩ := by
  refine ⟨?_, ?_, ?_⟩
  · intro other isNamed
    rw [← conserved.lost other isNamed]
    constructor
    · rintro ⟨inUse, notHeld, unowned⟩
      refine ⟨inUse, fun isHeld => notHeld (Set.mem_insert_of_mem _ isHeld), ?_⟩
      intro someone owns'
      have notOwner : someone ≠ owner := by
        rintro rfl
        obtain rfl := Option.some.inj (owned.symm.trans owns')
        exact notHeld (Set.mem_insert _ _)
      exact unowned someone ((update_of_ne notOwner _ _).trans owns')
    · rintro ⟨inUse, notHeld, unowned⟩
      refine ⟨inUse, ?_, ?_⟩
      · intro isHeld
        rcases Set.mem_insert_iff.mp isHeld with rfl | before
        · exact unowned owner owned
        · exact notHeld before
      · intro someone owns'
        simp only [update_apply] at owns'
        split at owns'
        · cases owns'
        · exact unowned someone owns'
  · intro someone other owns'
    rcases conserved.kept owns' with isMine | still
    · exact Or.inl isMine
    · by_cases isOwner : someone = owner
      · subst isOwner
        rcases dispensable with isMine | absent
        · exact Or.inl isMine
        · rw [absent] at owns'
          cases owns'
      · exact Or.inr ((update_of_ne isOwner _ _).trans still)
  · intro someone other owns'
    simp only [update_apply] at owns'
    split at owns'
    · cases owns'
    · exact conserved.gained owns'

end Conserved

end Library.Ledger
