import Mathlib.Data.List.Basic
import Mathlib.Data.List.Nodup
import Mathlib.Data.List.Perm.Subperm
import Mathlib.Tactic.Common

/-!
# Intrusive doubly linked lists

Nodes carry their own `next` and `prev` links; a list is the sequence of nodes
met from its first one. `Linked before after nodes` says that the links of the
nodes agree with that sequence, when the first node's `prev` is `before` and the
last node's `next` is `after`. Both ends are parameters, so a list can be cut at
any node and the parts changed one at a time.

Links are functions of the node. Nothing is assumed about nodes outside the
sequence, so several lists can share the same two link functions.
-/

namespace Library.Links

universe u
variable {α : Type u}

/-- The links of a sequence of nodes between two fixed outer neighbours. -/
def Linked (next prev : α → α) (before after : α) : List α → Prop
  | [] => True
  | node :: rest =>
      prev node = before ∧ next node = rest.headD after ∧ Linked next prev node after rest

variable {next prev next' prev' : α → α} {before after : α}

@[simp] theorem linked_nil : Linked next prev before after [] := trivial

@[simp] theorem linked_cons {node : α} {rest : List α} :
    Linked next prev before after (node :: rest) ↔
      prev node = before ∧ next node = rest.headD after ∧ Linked next prev node after rest :=
  Iff.rfl

/-- A linked sequence may be cut anywhere; each part ends at the other. -/
theorem linked_append {left right : List α} :
    Linked next prev before after (left ++ right) ↔
      Linked next prev before (right.headD after) left ∧
        Linked next prev (left.getLastD before) after right := by
  induction left generalizing before with
  | nil => simp
  | cons node rest ih =>
    have head : (rest ++ right).headD after = rest.headD (right.headD after) := by
      cases rest <;> simp
    rw [List.cons_append, linked_cons, linked_cons, ih, head, List.getLastD_cons]
    simp only [and_assoc]

/-- Links are read at the nodes of the sequence only. -/
theorem Linked.congr {nodes : List α} (linked : Linked next prev before after nodes)
    (sameNext : ∀ node ∈ nodes, next' node = next node)
    (samePrev : ∀ node ∈ nodes, prev' node = prev node) :
    Linked next' prev' before after nodes := by
  induction nodes generalizing before with
  | nil => trivial
  | cons node rest ih =>
    obtain ⟨first, second, tail⟩ := linked
    refine ⟨?_, ?_, ih tail ?_ ?_⟩
    · rw [samePrev node List.mem_cons_self, first]
    · rw [sameNext node List.mem_cons_self, second]
    · exact fun other member => sameNext other (List.mem_cons_of_mem node member)
    · exact fun other member => samePrev other (List.mem_cons_of_mem node member)

/-- Rewriting the first node's `prev` moves the sequence behind another node. -/
theorem Linked.retarget_before {nodes : List α} {before' : α}
    (linked : Linked next prev before after nodes)
    (sameNext : ∀ node ∈ nodes, next' node = next node)
    (samePrev : ∀ node ∈ nodes.tail, prev' node = prev node)
    (first : ∀ node ∈ nodes.head?, prev' node = before') :
    Linked next' prev' before' after nodes := by
  cases nodes with
  | nil => trivial
  | cons node rest =>
    obtain ⟨-, second, tail⟩ := linked
    refine ⟨first node rfl, ?_, tail.congr ?_ samePrev⟩
    · rw [sameNext node List.mem_cons_self, second]
    · exact fun other member => sameNext other (List.mem_cons_of_mem node member)

/-- Rewriting the last node's `next` moves the sequence in front of another node. -/
theorem Linked.retarget_after {nodes : List α} {after' : α}
    (linked : Linked next prev before after nodes)
    (sameNext : ∀ node ∈ nodes.dropLast, next' node = next node)
    (samePrev : ∀ node ∈ nodes, prev' node = prev node)
    (last : ∀ node ∈ nodes.getLast?, next' node = after') :
    Linked next' prev' before after' nodes := by
  induction nodes generalizing before with
  | nil => trivial
  | cons node rest ih =>
    obtain ⟨first, second, tail⟩ := linked
    cases rest with
    | nil =>
      refine ⟨?_, last node rfl, trivial⟩
      rw [samePrev node List.mem_cons_self, first]
    | cons other more =>
      refine ⟨?_, ?_, ih tail ?_ ?_ ?_⟩
      · rw [samePrev node List.mem_cons_self, first]
      · rw [sameNext node (by simp), second]
        rfl
      · exact fun found member => sameNext found (List.mem_cons_of_mem node member)
      · exact fun found member => samePrev found (List.mem_cons_of_mem node member)
      · exact fun found member => last found (by simpa using member)

/-- A list without repetition of numbers below a bound is no longer than the bound. -/
theorem length_le_of_nodup {values : List Nat} (bound : Nat) (distinct : values.Nodup)
    (below : ∀ value ∈ values, value < bound) : values.length ≤ bound := by
  have subset : values ⊆ List.range bound := fun value member => List.mem_range.mpr (below value member)
  have shorter := (List.subperm_of_subset distinct subset).length_le
  rwa [List.length_range] at shorter

end Library.Links
