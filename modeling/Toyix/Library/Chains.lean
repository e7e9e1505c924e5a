import Toyix.Library.Links

/-!
# Changing intrusive lists

The nodes of a list carry their links in two fields, and the list itself is known by
its two ends. Appending a node and taking any node out change a few fields each. Both
operations are given as the sequence of field updates, and their laws say which sequence
of nodes results and that the fields of all other nodes are as before. Several lists can
therefore use the same two fields, as long as no node is in two of them.
-/

namespace Library.Links

open Function

universe u

/-- The link fields of all nodes. -/
structure Fields (α : Type u) where
  next : α → α
  prev : α → α

/-- The two ends of a list. -/
structure Ends (α : Type u) where
  first : α
  last : α
  deriving DecidableEq

variable {α : Type u} [DecidableEq α]

def Fields.setNext (fields : Fields α) (node value : α) : Fields α :=
  { fields with next := update fields.next node value }

def Fields.setPrev (fields : Fields α) (node value : α) : Fields α :=
  { fields with prev := update fields.prev node value }

@[simp] theorem setNext_next (fields : Fields α) (node value other : α) :
    (fields.setNext node value).next other = if other = node then value else fields.next other :=
  update_apply fields.next node value other

@[simp] theorem setNext_prev (fields : Fields α) (node value : α) :
    (fields.setNext node value).prev = fields.prev := rfl

@[simp] theorem setPrev_prev (fields : Fields α) (node value other : α) :
    (fields.setPrev node value).prev other = if other = node then value else fields.prev other :=
  update_apply fields.prev node value other

@[simp] theorem setPrev_next (fields : Fields α) (node value : α) :
    (fields.setPrev node value).next = fields.next := rfl

/-- Append a node. -/
def pushBack (null node : α) (fields : Fields α) (ends : Ends α) : Fields α × Ends α :=
  let cleared := (fields.setNext node null).setPrev node ends.last
  if ends.last ≠ null then (cleared.setNext ends.last node, { ends with last := node })
  else (cleared, ⟨node, node⟩)

/-- Take a node out. -/
def unlink (null node : α) (fields : Fields α) (ends : Ends α) : Fields α × Ends α :=
  let (fields, ends) :=
    if fields.prev node ≠ null then (fields.setNext (fields.prev node) (fields.next node), ends)
    else (fields, { ends with first := fields.next node })
  let (fields, ends) :=
    if fields.next node ≠ null then (fields.setPrev (fields.next node) (fields.prev node), ends)
    else (fields, { ends with last := fields.prev node })
  ((fields.setNext node null).setPrev node null, ends)

/-- The links and the ends agree with the sequence of nodes, none of which is null or
occurs twice. -/
structure Chained (null : α) (fields : Fields α) (ends : Ends α) (nodes : List α) : Prop where
  linked : Linked fields.next fields.prev null null nodes
  first : ends.first = nodes.headD null
  last : ends.last = nodes.getLastD null
  nodup : nodes.Nodup
  notNull : null ∉ nodes

/-- The fields of all nodes outside a list are as before. -/
def SameOutside (nodes : List α) (fields fields' : Fields α) : Prop :=
  ∀ node, node ∉ nodes → fields'.next node = fields.next node ∧ fields'.prev node = fields.prev node

variable {null node : α} {fields fields' : Fields α} {ends : Ends α} {nodes left right : List α}

omit [DecidableEq α] in
theorem Chained.nil {null : α} (fields : Fields α) : Chained null fields ⟨null, null⟩ [] :=
  ⟨trivial, rfl, rfl, List.nodup_nil, List.not_mem_nil⟩

/-- Appending a node. -/
theorem Chained.push_back (chained : Chained null fields ends nodes) (fresh : node ∉ nodes)
    (notNull : node ≠ null) :
    Chained null (pushBack null node fields ends).1 (pushBack null node fields ends).2
        (nodes ++ [node]) ∧
      SameOutside (node :: nodes) fields (pushBack null node fields ends).1 := by
  have nodup : (nodes ++ [node]).Nodup := by
    rw [List.nodup_append]
    refine ⟨chained.nodup, List.nodup_singleton node, ?_⟩
    rintro other member single isSingle rfl
    rw [List.mem_singleton] at isSingle
    subst isSingle
    exact fresh member
  have notNull' : null ∉ nodes ++ [node] := by
    simp [chained.notNull, Ne.symm notNull]
  rcases List.eq_nil_or_concat' nodes with rfl | ⟨init, final, rfl⟩
  · have empty : ends.last = null := chained.last
    simp only [pushBack, empty, ne_eq, not_true_eq_false, ↓reduceIte]
    refine ⟨⟨?_, rfl, rfl, nodup, notNull'⟩, ?_⟩
    · simp
    · intro other outside
      have different : other ≠ node := by
        rintro rfl
        exact outside List.mem_cons_self
      simp [different]
  · have isLast : ends.last = final := by
      rw [chained.last]
      simp
    have lastNotNull : final ≠ null := by
      rintro rfl
      exact chained.notNull (by simp)
    have different : final ≠ node := by
      rintro rfl
      exact fresh (by simp)
    have prefixNodup := chained.nodup
    rw [List.nodup_append] at prefixNodup
    simp only [pushBack, isLast, ne_eq, lastNotNull, not_false_eq_true, ↓reduceIte]
    refine ⟨⟨?_, ?_, by simp, nodup, notNull'⟩, ?_⟩
    · rw [linked_append]
      constructor
      · apply chained.linked.retarget_after
        · intro other member
          rw [List.dropLast_concat] at member
          have apart : other ≠ final := fun same =>
            prefixNodup.2.2 other member final List.mem_cons_self same
          have apart' : other ≠ node := by
            rintro rfl
            exact fresh (by simp [member])
          simp [apart, apart']
        · intro other member
          have apart : other ≠ node := by
            rintro rfl
            exact fresh member
          simp [apart]
        · intro other isFinal
          rw [List.getLast?_concat, Option.mem_some_iff] at isFinal
          subst isFinal
          simp
      · simp [Ne.symm different]
    · rw [chained.first]
      cases init <;> simp
    · intro other outside
      have apart : other ≠ node := by
        rintro rfl
        exact outside List.mem_cons_self
      have apart' : other ≠ final := by
        rintro rfl
        exact outside (by simp)
      simp [apart, apart']

omit [DecidableEq α] in
/-- The parts around a node of a list. -/
theorem Chained.around (chained : Chained null fields ends (left ++ node :: right)) :
    fields.prev node = left.getLastD null ∧ fields.next node = right.headD null ∧
      Linked fields.next fields.prev null node left ∧
      Linked fields.next fields.prev node null right := by
  have linked := chained.linked
  rw [linked_append, linked_cons] at linked
  exact ⟨linked.2.1, linked.2.2.1, linked.1, linked.2.2.2⟩

omit [DecidableEq α] in
/-- A node of a list is in neither part around it, and the parts are disjoint. -/
theorem Chained.apart (chained : Chained null fields ends (left ++ node :: right)) :
    node ∉ left ∧ node ∉ right ∧ ∀ other ∈ left, other ∉ right := by
  have nodup := chained.nodup
  rw [List.nodup_append, List.nodup_cons] at nodup
  refine ⟨?_, nodup.2.1.1, ?_⟩
  · intro member
    exact nodup.2.2 node member node List.mem_cons_self rfl
  · intro other member member'
    exact nodup.2.2 other member other (List.mem_cons_of_mem node member') rfl

omit [DecidableEq α] in
/-- The last node of a list without repetitions is not among the others. -/
theorem not_last_of_mem_dropLast (nodup : nodes.Nodup) (member : node ∈ nodes.dropLast) :
    node ∉ nodes.getLast? := by
  intro isLast
  obtain ⟨init, rfl⟩ := List.getLast?_eq_some_iff.mp isLast
  rw [List.dropLast_concat] at member
  exact (List.nodup_append.mp nodup).2.2 node member node List.mem_cons_self rfl

omit [DecidableEq α] in
/-- The first node of a list without repetitions is not among the others. -/
theorem not_head_of_mem_tail (nodup : nodes.Nodup) (member : node ∈ nodes.tail) :
    node ∉ nodes.head? := by
  intro isHead
  obtain ⟨more, rfl⟩ := List.head?_eq_some_iff.mp isHead
  exact (List.nodup_cons.mp nodup).1 member

/-- What taking a node out does to the fields and the ends. -/
theorem unlink_effect (chained : Chained null fields ends (left ++ node :: right)) :
    (∀ other, (unlink null node fields ends).1.next other =
      if other = node then null else if other ∈ left.getLast? then right.headD null
      else fields.next other) ∧
    (∀ other, (unlink null node fields ends).1.prev other =
      if other = node then null else if other ∈ right.head? then left.getLastD null
      else fields.prev other) ∧
    (unlink null node fields ends).2 =
      ⟨(left ++ right).headD null, (left ++ right).getLastD null⟩ := by
  obtain ⟨before, after, -, -⟩ := chained.around
  obtain ⟨notLeft, notRight, disjoint⟩ := chained.apart
  have first := chained.first
  have last := chained.last
  have notNull := chained.notNull
  obtain ⟨notNull, nodeNotNull, notNull'⟩ : null ∉ left ∧ null ≠ node ∧ null ∉ right := by
    simpa using notNull
  rcases List.eq_nil_or_concat' left with rfl | ⟨init, previous, rfl⟩
  · have none : fields.prev node = null := before
    cases right with
    | nil =>
      have none' : fields.next node = null := after
      simp [unlink, none, none']
    | cons following more =>
      have next : fields.next node = following := after
      have present : following ≠ null := fun same => notNull' (by simp [same])
      simp [unlink, none, next, present, last, eq_comm]
  · have previously : fields.prev node = previous := by simpa using before
    have present : previous ≠ null := fun same => notNull (by simp [same])
    have apart : node ≠ previous := fun same => notLeft (by simp [same])
    cases right with
    | nil =>
      have none' : fields.next node = null := after
      simp [unlink, previously, none', present, apart, first, eq_comm]
    | cons following more =>
      have next : fields.next node = following := after
      have present' : following ≠ null := fun same => notNull' (by simp [same])
      have whole : ends = ⟨(init ++ [previous] ++ node :: following :: more).headD null,
          (init ++ [previous] ++ node :: following :: more).getLastD null⟩ := by
        rw [← first, ← last]
      simp [unlink, previously, next, present, present', apart, whole, eq_comm]

/-- Taking a node out. -/
theorem Chained.unlinked (chained : Chained null fields ends (left ++ node :: right)) :
    Chained null (unlink null node fields ends).1 (unlink null node fields ends).2 (left ++ right) ∧
      SameOutside (left ++ node :: right) fields (unlink null node fields ends).1 := by
  obtain ⟨sameNext, samePrev, whole⟩ := unlink_effect chained
  obtain ⟨-, -, before, after⟩ := chained.around
  obtain ⟨notLeft, notRight, disjoint⟩ := chained.apart
  have nodup := chained.nodup
  have sub : (left ++ right).Sublist (left ++ node :: right) :=
    List.Sublist.append_left (List.sublist_cons_self node right) left
  have notLast : ∀ other ∈ right, other ∉ left.getLast? := by
    intro other member isLast
    exact disjoint other (List.mem_of_getLast? isLast) member
  have notHead : ∀ other ∈ left, other ∉ right.head? := by
    intro other member isHead
    exact disjoint other member (List.mem_of_head? isHead)
  refine ⟨⟨?_, ?_, ?_, sub.nodup nodup, fun member => chained.notNull (sub.subset member)⟩, ?_⟩
  · rw [linked_append]
    constructor
    · apply before.retarget_after
      · intro other member
        have inLeft := (List.dropLast_sublist left).subset member
        have apart : other ≠ node := fun same => notLeft (same ▸ inLeft)
        have notFinal := not_last_of_mem_dropLast (List.nodup_append.mp nodup).1 member
        rw [sameNext, if_neg apart, if_neg notFinal]
      · intro other member
        have apart : other ≠ node := fun same => notLeft (same ▸ member)
        rw [samePrev, if_neg apart, if_neg (notHead other member)]
      · intro other isLast
        have apart : other ≠ node := fun same => notLeft (same ▸ List.mem_of_getLast? isLast)
        rw [sameNext, if_neg apart, if_pos isLast]
    · apply after.retarget_before
      · intro other member
        have apart : other ≠ node := fun same => notRight (same ▸ member)
        rw [sameNext, if_neg apart, if_neg (notLast other member)]
      · intro other member
        have inRight := List.mem_of_mem_tail member
        have apart : other ≠ node := fun same => notRight (same ▸ inRight)
        have notFirst := not_head_of_mem_tail (List.nodup_cons.mp (List.nodup_append.mp nodup).2.1).2 member
        rw [samePrev, if_neg apart, if_neg notFirst]
      · intro other isHead
        have apart : other ≠ node := fun same => notRight (same ▸ List.mem_of_head? isHead)
        rw [samePrev, if_neg apart, if_pos isHead]
  · rw [whole]
  · rw [whole]
  · intro other outside
    have apart : other ≠ node := fun same => outside (by simp [same])
    have notFinal : other ∉ left.getLast? := by
      intro isLast
      exact outside (List.mem_append_left _ (List.mem_of_getLast? isLast))
    have notFirst : other ∉ right.head? := by
      intro isHead
      exact outside (List.mem_append_right _ (List.mem_cons_of_mem node (List.mem_of_head? isHead)))
    rw [sameNext, samePrev, if_neg apart, if_neg notFinal, if_neg apart, if_neg notFirst]
    exact ⟨rfl, rfl⟩

/-! ## Walking -/

/-- The first node from `node` on that passes the test, or null. There is no answer
when the walk takes more than `fuel` nodes. -/
def find (null : α) (next : α → α) (test : α → Bool) : Nat → α → Option α
  | 0, _ => none
  | fuel + 1, node =>
    if node = null then some null
    else if test node then some node
    else find null next test fuel (next node)

/-- Change a store once for every node from `node` on. -/
def visit {β : Type u} (null : α) (next : α → α) (change : α → β → β) : Nat → α → β → Option β
  | 0, _, _ => none
  | fuel + 1, node, store =>
    if node = null then some store
    else visit null next change fuel (next node) (change node store)

/-- A walk along a list finds its first node that passes the test. -/
theorem find_linked {before : α} (test : α → Bool) {fuel : Nat}
    (linked : Linked fields.next fields.prev before null nodes) (notNull : null ∉ nodes)
    (enough : nodes.length < fuel) :
    find null fields.next test fuel (nodes.headD null) = some ((nodes.find? test).getD null) := by
  induction nodes generalizing before fuel with
  | nil =>
    cases fuel with
    | zero => simp at enough
    | succ fuel => simp [find]
  | cons node rest ih =>
    cases fuel with
    | zero => simp at enough
    | succ fuel =>
      have present : node ≠ null := fun same => notNull (by simp [same])
      obtain ⟨-, follows, tail⟩ := linked
      rw [List.headD_cons, find, if_neg present]
      by_cases passes : test node = true
      · rw [if_pos passes, List.find?_cons_of_pos passes]
        rfl
      · rw [if_neg passes, List.find?_cons_of_neg passes, follows]
        exact ih tail (fun member => notNull (List.mem_cons_of_mem node member))
          (by simpa using enough)

/-- A walk along a list visits its nodes in order. -/
theorem visit_linked {β : Type u} {before : α} (change : α → β → β) (store : β) {fuel : Nat}
    (linked : Linked fields.next fields.prev before null nodes) (notNull : null ∉ nodes)
    (enough : nodes.length < fuel) :
    visit null fields.next change fuel (nodes.headD null) store =
      some (nodes.foldl (fun store node => change node store) store) := by
  induction nodes generalizing before fuel store with
  | nil =>
    cases fuel with
    | zero => simp at enough
    | succ fuel => simp [visit]
  | cons node rest ih =>
    cases fuel with
    | zero => simp at enough
    | succ fuel =>
      have present : node ≠ null := fun same => notNull (by simp [same])
      obtain ⟨-, follows, tail⟩ := linked
      rw [List.headD_cons, visit, if_neg present, follows, List.foldl_cons]
      exact ih (change node store) tail (fun member => notNull (List.mem_cons_of_mem node member))
        (by simpa using enough)

/-- Changing the record of every node of a list, one after the other. -/
theorem foldl_update_apply {β : Type u} (change : β → β) (store : α → β) (nodup : nodes.Nodup)
    (other : α) :
    nodes.foldl (fun store node => update store node (change (store node))) store other =
      if other ∈ nodes then change (store other) else store other := by
  induction nodes generalizing store with
  | nil => simp
  | cons node rest ih =>
    obtain ⟨absent, nodup⟩ := List.nodup_cons.mp nodup
    rw [List.foldl_cons, ih _ nodup]
    by_cases same : other = node
    · subst same
      simp [absent]
    · simp [same]

end Library.Links
