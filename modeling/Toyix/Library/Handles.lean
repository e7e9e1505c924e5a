import Mathlib.Data.List.Basic
import Mathlib.Data.List.Nodup
import Mathlib.Data.List.Perm.Basic

/-!
# Resources behind handles

Resources are opened, stored under keys, taken from there and closed. A resource that is open
and stored under no key is loose: whoever opened it, or took it from its key, still has to
store it or to close it.

Names of resources are used again after a close, so every opening gets a number of its own. The
record of the numbers that were closed says how often each opened resource was closed.
-/

namespace Library

open Function

universe u v w

variable {κ : Type u} {ρ : Type v} {β : Type w}

/-- The keys, the open resources, who opened the resource of each number, the number of each
resource, and the numbers in the order in which they were closed. -/
structure Handles (κ : Type u) (ρ : Type v) (β : Type w) where
  held : κ → Option ρ
  live : List ρ
  opened : List β
  serial : ρ → Nat
  closed : List Nat

namespace Handles

/-- Every open resource is loose or stored under one key, whose owner opened it; a number is
closed once, and exactly when its resource is no longer open. -/
structure Sound (handles : Handles κ ρ β) (owner : κ → β) (loose : List ρ) : Prop where
  nodup : handles.live.Nodup
  looseNodup : loose.Nodup
  looseLive : ∀ res ∈ loose, res ∈ handles.live
  heldLive : ∀ key res, handles.held key = some res → res ∈ handles.live ∧ res ∉ loose
  accounted : ∀ res ∈ handles.live, res ∉ loose → ∃ key, handles.held key = some res
  apart : ∀ key key' res, handles.held key = some res → handles.held key' = some res → key = key'
  owned : ∀ key res, handles.held key = some res →
    handles.opened[handles.serial res]? = some (owner key)
  numbered : ∀ res ∈ handles.live, handles.serial res < handles.opened.length
  distinct : ∀ res ∈ handles.live, ∀ res' ∈ handles.live,
    handles.serial res = handles.serial res' → res = res'
  closedNodup : handles.closed.Nodup
  closedOpened : ∀ number ∈ handles.closed, number < handles.opened.length
  closedIff : ∀ number < handles.opened.length,
    number ∈ handles.closed ↔ ∀ res ∈ handles.live, handles.serial res ≠ number

variable {handles : Handles κ ρ β} {owner : κ → β} {loose loose' : List ρ} {key : κ} {res : ρ}

/-- The order of the loose resources does not matter. -/
theorem Sound.perm (sound : handles.Sound owner loose) (same : loose.Perm loose') :
    handles.Sound owner loose' := by
  constructor
  · exact sound.nodup
  · exact same.nodup_iff.mp sound.looseNodup
  · intro res isLoose
    exact sound.looseLive res (same.mem_iff.mpr isLoose)
  · intro key res isHeld
    obtain ⟨isLive, notLoose⟩ := sound.heldLive key res isHeld
    exact ⟨isLive, fun isLoose => notLoose (same.mem_iff.mpr isLoose)⟩
  · intro res isLive notLoose
    exact sound.accounted res isLive fun isLoose => notLoose (same.mem_iff.mp isLoose)
  · exact sound.apart
  · exact sound.owned
  · exact sound.numbered
  · exact sound.distinct
  · exact sound.closedNodup
  · exact sound.closedOpened
  · exact sound.closedIff

/-- Owners matter for keys that hold something. -/
theorem Sound.reown (sound : handles.Sound owner loose) {owner' : κ → β}
    (same : ∀ key, handles.held key ≠ none → owner' key = owner key) :
    handles.Sound owner' loose := by
  refine { sound with owned := ?_ }
  intro key res isHeld
  rw [sound.owned key res isHeld, same key (by rw [isHeld]; exact Option.some_ne_none res)]

section Changes

variable [DecidableEq κ] [DecidableEq ρ]

/-- A new resource, opened by the given owner. -/
def openNew (handles : Handles κ ρ β) (res : ρ) (opener : β) : Handles κ ρ β :=
  { handles with
    live := res :: handles.live
    opened := handles.opened ++ [opener]
    serial := update handles.serial res handles.opened.length }

/-- Store a resource under a key. -/
def put (handles : Handles κ ρ β) (key : κ) (res : ρ) : Handles κ ρ β :=
  { handles with held := update handles.held key (some res) }

/-- Empty a key. -/
def take (handles : Handles κ ρ β) (key : κ) : Handles κ ρ β :=
  { handles with held := update handles.held key none }

/-- Empty several keys. -/
def takeAll (handles : Handles κ ρ β) (keys : List κ) : Handles κ ρ β := keys.foldl take handles

/-- Close a resource. -/
def close (handles : Handles κ ρ β) (res : ρ) : Handles κ ρ β :=
  { handles with live := handles.live.erase res, closed := handles.serial res :: handles.closed }

omit [DecidableEq κ] in
/-- A fresh resource is opened and loose. -/
theorem Sound.openNew (sound : handles.Sound owner loose) (fresh : res ∉ handles.live)
    (opener : β) : (handles.openNew res opener).Sound owner (res :: loose) := by
  have serialNew : (handles.openNew res opener).serial res = handles.opened.length :=
    update_self ..
  have serialOld : ∀ other ∈ handles.live,
      (handles.openNew res opener).serial other = handles.serial other := by
    intro other isLive
    have different : other ≠ res := fun same => fresh (same ▸ isLive)
    exact update_of_ne different _ _
  have length : (handles.openNew res opener).opened.length = handles.opened.length + 1 := by
    simp [Handles.openNew]
  constructor
  · exact List.nodup_cons.mpr ⟨fresh, sound.nodup⟩
  · exact List.nodup_cons.mpr ⟨fun isLoose => fresh (sound.looseLive res isLoose), sound.looseNodup⟩
  · intro other isLoose
    rcases List.mem_cons.mp isLoose with rfl | old
    · exact List.mem_cons_self
    · exact List.mem_cons_of_mem _ (sound.looseLive other old)
  · intro key other isHeld
    obtain ⟨isLive, notLoose⟩ := sound.heldLive key other isHeld
    refine ⟨List.mem_cons_of_mem _ isLive, ?_⟩
    intro isLoose
    rcases List.mem_cons.mp isLoose with rfl | old
    · exact fresh isLive
    · exact notLoose old
  · intro other isLive notLoose
    rcases List.mem_cons.mp isLive with rfl | old
    · exact absurd List.mem_cons_self notLoose
    · exact sound.accounted other old fun isLoose => notLoose (List.mem_cons_of_mem _ isLoose)
  · exact sound.apart
  · intro key other isHeld
    have isLive := (sound.heldLive key other isHeld).1
    rw [serialOld other isLive]
    have old := sound.owned key other isHeld
    exact (List.getElem?_append_left (sound.numbered other isLive)).trans old
  · intro other isLive
    rw [length]
    rcases List.mem_cons.mp isLive with rfl | old
    · rw [serialNew]
      exact Nat.lt_succ_self _
    · rw [serialOld other old]
      exact Nat.lt_succ_of_lt (sound.numbered other old)
  · intro left isLeft right isRight same
    rcases List.mem_cons.mp isLeft with rfl | oldLeft <;>
      rcases List.mem_cons.mp isRight with rfl | oldRight
    · rfl
    · rw [serialNew, serialOld right oldRight] at same
      exact absurd same.symm (Nat.ne_of_lt (sound.numbered right oldRight))
    · rw [serialNew, serialOld left oldLeft] at same
      exact absurd same (Nat.ne_of_lt (sound.numbered left oldLeft))
    · rw [serialOld left oldLeft, serialOld right oldRight] at same
      exact sound.distinct left oldLeft right oldRight same
  · exact sound.closedNodup
  · intro number isClosed
    rw [length]
    exact Nat.lt_succ_of_lt (sound.closedOpened number isClosed)
  · intro number below
    rw [length] at below
    rcases Nat.lt_succ_iff_lt_or_eq.mp below with old | rfl
    · refine (sound.closedIff number old).trans ⟨?_, ?_⟩
      · intro absent other isLive
        rcases List.mem_cons.mp isLive with rfl | oldLive
        · rw [serialNew]
          exact Nat.ne_of_gt old
        · rw [serialOld other oldLive]
          exact absent other oldLive
      · intro absent other isLive
        rw [← serialOld other isLive]
        exact absent other (List.mem_cons_of_mem _ isLive)
    · constructor
      · intro isClosed
        exact absurd (sound.closedOpened _ isClosed) (Nat.lt_irrefl _)
      · intro absent
        exact absurd serialNew (absent res List.mem_cons_self)

omit [DecidableEq ρ] in
/-- A loose resource is stored under an empty key of its opener. -/
theorem Sound.put (sound : handles.Sound owner (res :: loose)) (empty : handles.held key = none)
    (opener : handles.opened[handles.serial res]? = some (owner key)) :
    (handles.put key res).Sound owner loose := by
  obtain ⟨notLoose, looseNodup⟩ := List.nodup_cons.mp sound.looseNodup
  have same : (handles.put key res).held key = some res := update_self ..
  have others : ∀ other, other ≠ key → (handles.put key res).held other = handles.held other :=
    fun other different => update_of_ne different _ _
  have old : ∀ other res', (handles.put key res).held other = some res' →
      (other = key ∧ res' = res) ∨ (other ≠ key ∧ handles.held other = some res') := by
    intro other res' isHeld
    by_cases isKey : other = key
    · rw [isKey, same] at isHeld
      exact Or.inl ⟨isKey, (Option.some.inj isHeld).symm⟩
    · rw [others other isKey] at isHeld
      exact Or.inr ⟨isKey, isHeld⟩
  refine ⟨sound.nodup, looseNodup, ?_, ?_, ?_, ?_, ?_, sound.numbered, sound.distinct,
    sound.closedNodup, sound.closedOpened, sound.closedIff⟩
  · intro other isLoose
    exact sound.looseLive other (List.mem_cons_of_mem _ isLoose)
  · intro other res' isHeld
    rcases old other res' isHeld with ⟨-, rfl⟩ | ⟨-, before⟩
    · exact ⟨sound.looseLive res' List.mem_cons_self, notLoose⟩
    · obtain ⟨isLive, absent⟩ := sound.heldLive other res' before
      exact ⟨isLive, fun isLoose => absent (List.mem_cons_of_mem _ isLoose)⟩
  · intro res' isLive absent
    by_cases isRes : res' = res
    · exact ⟨key, isRes ▸ same⟩
    · obtain ⟨other, isHeld⟩ := sound.accounted res' isLive (by simp [isRes, absent])
      refine ⟨other, (others other ?_).trans isHeld⟩
      rintro rfl
      rw [empty] at isHeld
      cases isHeld
  · intro left right res' isLeft isRight
    rcases old left res' isLeft with ⟨rfl, isRes⟩ | ⟨-, beforeLeft⟩ <;>
      rcases old right res' isRight with ⟨rfl, isRes'⟩ | ⟨-, beforeRight⟩
    · rfl
    · exact absurd (isRes ▸ List.mem_cons_self) (sound.heldLive right res' beforeRight).2
    · exact absurd (isRes' ▸ List.mem_cons_self) (sound.heldLive left res' beforeLeft).2
    · exact sound.apart left right res' beforeLeft beforeRight
  · intro other res' isHeld
    rcases old other res' isHeld with ⟨rfl, rfl⟩ | ⟨-, before⟩
    · exact opener
    · exact sound.owned other res' before

omit [DecidableEq ρ] in
/-- What was stored under a key becomes loose. -/
theorem Sound.take (sound : handles.Sound owner loose) (key : κ) :
    (handles.take key).Sound owner ((handles.held key).toList ++ loose) := by
  have same : (handles.take key).held key = none := update_self ..
  have others : ∀ other, other ≠ key → (handles.take key).held other = handles.held other :=
    fun other different => update_of_ne different _ _
  have old : ∀ other res, (handles.take key).held other = some res →
      other ≠ key ∧ handles.held other = some res := by
    intro other res isHeld
    by_cases isKey : other = key
    · rw [isKey, same] at isHeld
      cases isHeld
    · rw [others other isKey] at isHeld
      exact ⟨isKey, isHeld⟩
  refine ⟨sound.nodup, ?_, ?_, ?_, ?_, ?_, ?_, sound.numbered, sound.distinct,
    sound.closedNodup, sound.closedOpened, sound.closedIff⟩
  · cases isHeld : handles.held key with
    | none => exact sound.looseNodup
    | some res =>
      exact List.nodup_cons.mpr ⟨(sound.heldLive key res isHeld).2, sound.looseNodup⟩
  · intro res isLoose
    rcases List.mem_append.mp isLoose with taken | before
    · exact (sound.heldLive key res (Option.mem_toList.mp taken)).1
    · exact sound.looseLive res before
  · intro other res isHeld
    obtain ⟨different, before⟩ := old other res isHeld
    obtain ⟨isLive, absent⟩ := sound.heldLive other res before
    refine ⟨isLive, ?_⟩
    intro isLoose
    rcases List.mem_append.mp isLoose with taken | isLoose
    · exact different (sound.apart other key res before (Option.mem_toList.mp taken))
    · exact absent isLoose
  · intro res isLive absent
    rw [List.mem_append, not_or] at absent
    obtain ⟨other, isHeld⟩ := sound.accounted res isLive absent.2
    refine ⟨other, (others other ?_).trans isHeld⟩
    rintro rfl
    exact absent.1 (Option.mem_toList.mpr isHeld)
  · intro left right res isLeft isRight
    exact sound.apart left right res (old left res isLeft).2 (old right res isRight).2
  · intro other res isHeld
    exact sound.owned other res (old other res isHeld).2

omit [DecidableEq ρ] in
/-- A key that was not emptied holds what it held. -/
theorem takeAll_held (handles : Handles κ ρ β) (keys : List κ) (key : κ) :
    (handles.takeAll keys).held key = if key ∈ keys then none else handles.held key := by
  induction keys generalizing handles with
  | nil => simp [takeAll]
  | cons first rest ih =>
    have step : (handles.takeAll (first :: rest)).held key =
        if key ∈ rest then none else (handles.take first).held key := ih (handles.take first)
    rw [step]
    by_cases isFirst : key = first
    · simp [isFirst, Handles.take]
    · simp [isFirst, Handles.take]

omit [DecidableEq ρ] in
/-- What was stored under several keys becomes loose. -/
theorem Sound.takeAll (sound : handles.Sound owner loose) {keys : List κ} (nodup : keys.Nodup) :
    (handles.takeAll keys).Sound owner (keys.filterMap handles.held ++ loose) := by
  induction keys generalizing handles loose with
  | nil => exact sound
  | cons first rest ih =>
    obtain ⟨absent, nodup⟩ := List.nodup_cons.mp nodup
    have taken := ih (sound.take first) nodup
    have kept : rest.filterMap (handles.take first).held = rest.filterMap handles.held := by
      apply List.filterMap_congr
      intro key isRest
      have different : key ≠ first := fun same => absent (same ▸ isRest)
      exact update_of_ne different _ _
    rw [kept] at taken
    refine taken.perm ?_
    rw [← List.append_assoc]
    apply List.Perm.append_right
    cases isHeld : handles.held first with
    | none => simp [isHeld]
    | some res =>
      rw [List.filterMap_cons_some isHeld]
      exact List.perm_append_comm

omit [DecidableEq κ] in
/-- A loose resource is closed. -/
theorem Sound.close (sound : handles.Sound owner (res :: loose)) :
    (handles.close res).Sound owner loose := by
  obtain ⟨notLoose, looseNodup⟩ := List.nodup_cons.mp sound.looseNodup
  have isLive : res ∈ handles.live := sound.looseLive res List.mem_cons_self
  have remains : ∀ other, other ∈ (handles.close res).live ↔ other ≠ res ∧ other ∈ handles.live :=
    fun other => sound.nodup.mem_erase_iff
  have fresh : handles.serial res ∉ handles.closed := by
    intro isClosed
    exact (sound.closedIff _ (sound.numbered res isLive)).mp isClosed res isLive rfl
  constructor
  · exact sound.nodup.erase res
  · exact looseNodup
  · intro other isLoose
    refine (remains other).mpr ⟨?_, sound.looseLive other (List.mem_cons_of_mem _ isLoose)⟩
    rintro rfl
    exact notLoose isLoose
  · intro key other isHeld
    obtain ⟨otherLive, absent⟩ := sound.heldLive key other isHeld
    rw [List.mem_cons, not_or] at absent
    exact ⟨(remains other).mpr ⟨absent.1, otherLive⟩, absent.2⟩
  · intro other otherLive absent
    obtain ⟨different, before⟩ := (remains other).mp otherLive
    exact sound.accounted other before (by simp [different, absent])
  · exact sound.apart
  · exact sound.owned
  · intro other otherLive
    exact sound.numbered other ((remains other).mp otherLive).2
  · intro left isLeft right isRight same
    exact sound.distinct left ((remains left).mp isLeft).2 right ((remains right).mp isRight).2 same
  · exact List.nodup_cons.mpr ⟨fresh, sound.closedNodup⟩
  · intro number isClosed
    rcases List.mem_cons.mp isClosed with rfl | before
    · exact sound.numbered res isLive
    · exact sound.closedOpened number before
  · intro number below
    have before := sound.closedIff number below
    constructor
    · intro isClosed other otherLive
      obtain ⟨different, wasLive⟩ := (remains other).mp otherLive
      rcases List.mem_cons.mp isClosed with rfl | old
      · exact fun same => different (sound.distinct other wasLive res isLive same)
      · exact before.mp old other wasLive
    · intro absent
      by_cases isRes : handles.serial res = number
      · exact isRes ▸ List.mem_cons_self
      · refine List.mem_cons_of_mem _ (before.mpr ?_)
        intro other otherLive
        by_cases same : other = res
        · rw [same]
          exact isRes
        · exact absent other ((remains other).mpr ⟨same, otherLive⟩)

end Changes

/-- Nothing is open. -/
theorem empty_sound (held : κ → Option ρ) (nothing : ∀ key, held key = none) (serial : ρ → Nat)
    (owner : κ → β) : Sound ⟨held, [], [], serial, []⟩ owner [] := by
  constructor <;> simp [nothing]

end Handles

end Library
