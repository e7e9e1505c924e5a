import Toyix.Paging.Directories

/-!
# Unmapping and destroying

An unmapping clears the entry, takes the node out of the list, and returns the page
and the node. In a sound state each of these succeeds, so the function either
returns -1 without a change or carries out all of them.

`address_space_destroy` unmaps the pages one by one until the list is empty, then
frees the tables and the directory. Because the list and the tables agree, no table
still maps a page at that point.
-/

namespace Toyix.Paging

open Library Pmm Function

variable {image : Image} {held : Set Nat} {system : MemorySystem}
  {virtualAddr object table physical : Nat} {others : List Mapping} {mapping : Mapping}
  {record : AddressSpace} {next : MemorySystem} {mappings : List Mapping}

/-! ## Taking a node out of the list -/

theorem take_mapping_split (taken : takeMapping virtualAddr mappings = some (mapping, others)) :
    mapping.virtualAddr = virtualAddr ∧
      ∃ front back, mappings = front ++ mapping :: back ∧ others = front ++ back := by
  induction mappings generalizing others with
  | nil => simp [takeMapping] at taken
  | cons first rest ih =>
    simp only [takeMapping] at taken
    split at taken
    · rename_i here
      obtain ⟨rfl, rfl⟩ := Prod.mk.inj (Option.some.inj taken)
      exact ⟨here, [], rest, rfl, rfl⟩
    · obtain ⟨⟨found, left⟩, later, same⟩ := Option.map_eq_some_iff.mp taken
      obtain ⟨rfl, rfl⟩ := Prod.mk.inj same
      obtain ⟨isAddr, front, back, rfl, rfl⟩ := ih later
      exact ⟨isAddr, first :: front, back, rfl, rfl⟩

theorem take_mapping_found (member : mapping ∈ mappings)
    (isAddr : mapping.virtualAddr = virtualAddr) :
    ∃ found others, takeMapping virtualAddr mappings = some (found, others) := by
  induction mappings with
  | nil => simp at member
  | cons first rest ih =>
    simp only [takeMapping]
    split
    · exact ⟨first, rest, rfl⟩
    · rename_i notHere
      rcases List.mem_cons.mp member with rfl | later
      · exact absurd isAddr notHere
      · obtain ⟨found, others, taken⟩ := ih later
        exact ⟨found, first :: others, by rw [taken]; rfl⟩

/-- The node taken out was in the list, and the others still are. -/
theorem take_mapping_member (taken : takeMapping virtualAddr mappings = some (mapping, others)) :
    mapping ∈ mappings ∧ ∀ other ∈ others, other ∈ mappings := by
  obtain ⟨-, front, back, rfl, rfl⟩ := take_mapping_split taken
  refine ⟨by simp, ?_⟩
  intro other member
  exact List.perm_middle.mem_iff.mpr (List.mem_cons_of_mem mapping member)

/-- What a list without repetition has after a node was taken out. -/
theorem lists_take {front back : List Mapping}
    (once : ((front ++ mapping :: back).map Mapping.virtualAddr).Nodup)
    (isAddr : mapping.virtualAddr = virtualAddr) (otherAddr otherPhysical : Nat) :
    Lists (front ++ back) otherAddr otherPhysical ↔
      otherAddr ≠ virtualAddr ∧ Lists (front ++ mapping :: back) otherAddr otherPhysical := by
  have rearranged : ((mapping :: (front ++ back)).map Mapping.virtualAddr).Nodup :=
    (List.perm_middle.map Mapping.virtualAddr).nodup_iff.mp once
  have absent : ∀ other ∈ front ++ back, other.virtualAddr ≠ virtualAddr := by
    intro other member same
    rw [List.map_cons, List.nodup_cons] at rearranged
    exact rearranged.1 (List.mem_map.mpr ⟨other, member, same.trans isAddr.symm⟩)
  constructor
  · rintro ⟨other, member, rfl, rfl⟩
    refine ⟨absent other member, other, ?_, rfl, rfl⟩
    exact List.perm_middle.mem_iff.mpr (List.mem_cons_of_mem mapping member)
  · rintro ⟨different, other, member, rfl, rfl⟩
    rcases List.mem_cons.mp (List.perm_middle.mem_iff.mp member) with rfl | later
    · exact absurd isAddr different
    · exact ⟨other, later, rfl, rfl⟩

/-! ## Unmapping a page -/

/-- What a successful unmapping did. -/
structure UnmapEffect (image : Image) (held : Set Nat) (object virtualAddr : Nat)
    (system next : MemorySystem) (record : AddressSpace) (table physical : Nat)
    (mapping : Mapping) (others : List Mapping) : Prop where
  isSpace : system.spaces object = some record
  inRange : PageRange (some object) virtualAddr
  tableOwned : ownersOf system.spaces system.machine
    (.table (some object) (directoryIndex virtualAddr)) = some table
  mapped : ownersOf system.spaces system.machine (.page (some object) virtualAddr) = some physical
  taken : takeMapping virtualAddr record.userMappings = some (mapping, others)
  machine : ∃ pmm, pmmFreePage physical system.machine.pmm = .ok pmm ∧ next.machine =
    { system.machine.stored table (tableIndex virtualAddr) 0 with pmm := pmm }
  owned : Owned image system.spaces held next.machine
  account : HeapAccount next
  spaces : next.spaces = update system.spaces object (some { record with
    userMappings := others
    userPageCount := record.userPageCount - 1 })
  blockUse : next.blockUse = update system.blockUse mapping.node none
  kernelSpace : next.kernelSpace = system.kernelSpace
  currentSpace : next.currentSpace = system.currentSpace
  frames : next.frames = system.frames

/-- Removing the node of a mapped page. -/
theorem mapping_remove_run (account : HeapAccount system)
    (isSpace : system.spaces object = some record)
    (taken : takeMapping virtualAddr record.userMappings = some (mapping, others))
    (isNode : system.blockUse mapping.node = some (.mapping object)) :
    ∃ client, client.system.pages = system.machine ∧
      mappingRemove (some object) virtualAddr system = .done 1 { system with
        client := client
        spaces := update system.spaces object (some { record with userMappings := others })
        blockUse := update system.blockUse mapping.node none } ∧
      HeapAccount { system with
        client := client
        spaces := update system.spaces object (some { record with userMappings := others })
        blockUse := update system.blockUse mapping.node none } := by
  have account' := account.with_spaces
    (update system.spaces object (some { record with userMappings := others }))
  obtain ⟨client, freed, samePages, account''⟩ := kfree_block_run account' isNode
  refine ⟨client, samePages, ?_, account''⟩
  simp only [mappingRemove, bind_apply, readSpace_apply isSpace, andThen_done, taken,
    setSpace_apply, isSpace, Option.map_some, freed, pure_apply]

/-- The last part of `address_space_unmap_page`, when the page is mapped. -/
theorem unmap_present_run (inv : Accounted image held system)
    (isSpace : system.spaces object = some record) (inRange : PageRange (some object) virtualAddr)
    (tableOwned : ownersOf system.spaces system.machine
      (.table (some object) (directoryIndex virtualAddr)) = some table)
    (pageOwned : ownersOf system.spaces system.machine (.page (some object) virtualAddr) =
      some physical) :
    ∃ next mapping others,
      (do
        setMachine fun machine => { machine with
          memory := machine.memory.setWord table (tableIndex virtualAddr) 0 }
        let _ ← mappingRemove (some object) virtualAddr
        setSpace (some object) fun record => { record with
          userPageCount :=
            if record.userPageCount > 0 then record.userPageCount - 1 else record.userPageCount }
        freePage physical
        pure 0 : MemoryProgram Int) system = .done 0 next ∧
      UnmapEffect image held object virtualAddr system next record table physical mapping others := by
  have sound := inv.records object record isSpace
  obtain ⟨member, isMember, isAddr, -⟩ := (sound.listed virtualAddr physical).mpr pageOwned
  obtain ⟨mapping, others, taken⟩ := take_mapping_found isMember isAddr
  obtain ⟨removed, -⟩ := inv.owned.remove_page inRange tableOwned pageOwned
  obtain ⟨-, -, notHeld⟩ := inv.owned.sound.owned pageOwned
  obtain ⟨client, samePages, removedNode, account⟩ := mapping_remove_run
    (inv.heap.with_machine (system.machine.stored table (tableIndex virtualAddr) 0)) isSpace taken
    (sound.nodes mapping (take_mapping_member taken).1)
  obtain ⟨after, isAfter⟩ : ∃ after : MemorySystem, after = { system with
      client := client
      spaces := update system.spaces object (some { record with
        userMappings := others
        userPageCount := record.userPageCount - 1 })
      blockUse := update system.blockUse mapping.node none } := ⟨_, rfl⟩
  have afterMachine : after.machine = system.machine.stored table (tableIndex virtualAddr) 0 := by
    rw [isAfter]
    exact samePages
  have accountAfter : HeapAccount after := by
    rw [isAfter]
    exact account.with_spaces _
  obtain ⟨pmm, returned, freed, owned'⟩ := free_page_run after (afterMachine ▸ removed)
    (Set.mem_insert physical held)
  rw [afterMachine] at returned
  rw [Set.insert_sdiff_self_of_notMem notHeld] at owned'
  refine ⟨after.withMachine { after.machine with pmm := pmm }, mapping, others, ?_, isSpace, inRange,
    tableOwned, pageOwned, taken, ⟨pmm, returned, ?_⟩, owned', accountAfter.with_machine _, ?_, ?_, ?_, ?_, ?_⟩
  · have counted : (if record.userPageCount > 0 then record.userPageCount - 1
        else record.userPageCount) = record.userPageCount - 1 := by
      split <;> omega
    have removedNode : mappingRemove (some object) virtualAddr (system.withMachine { system.machine with
        memory := system.machine.memory.setWord table (tableIndex virtualAddr) 0 }) = _ := removedNode
    simp only [bind_apply, setMachine_apply, andThen_done, removedNode, setSpace_apply,
      update_self, Option.map_some, counted, update_idem]
    subst isAfter
    exact congrArg (fun outcome => outcome.andThen fun _ => (pure 0 : MemoryProgram Int)) freed
  · rw [with_machine_machine, afterMachine]
  · rw [with_machine_spaces, isAfter]
  · rw [isAfter]
    rfl
  · rw [isAfter]
    rfl
  · rw [isAfter]
    rfl
  · rw [isAfter]
    rfl

/-- `address_space_unmap_page` in a sound state: it returns -1 and changes nothing,
when the address is not a mapped user page, or it has the effect of an unmapping. -/
theorem address_space_unmap_page_run (inv : Accounted image held system)
    (isSpace : system.spaces object = some record) (virtualAddr : Nat) :
    (ownersOf system.spaces system.machine (.page (some object) virtualAddr) = none ∧
        addressSpaceUnmapPage (some object) virtualAddr system = .done (-1) system) ∨
      ∃ next table physical mapping others,
        addressSpaceUnmapPage (some object) virtualAddr system = .done 0 next ∧
        UnmapEffect image held object virtualAddr system next record table physical mapping others := by
  have owned := inv.owned
  have isDirectory := directory_of_space system.machine.kernelDirectory isSpace
  simp only [addressSpaceUnmapPage, bind_apply, validate_space_run owned isSpace,
    andThen_done, ite_run, pure_apply, machineNow_apply]
  by_cases inRange : PageRange (some object) virtualAddr
  · have aligned := (is_page_aligned_iff virtualAddr).mpr inRange.aligned
    have allowed := (user_virtual_allowed_iff virtualAddr).mpr inRange.2
    simp only [aligned, allowed, Bool.true_eq_false, ↓reduceIte]
    cases entered : tableOf system.machine.memory record.pageDirectory (directoryIndex virtualAddr) with
    | none =>
      refine Or.inl ⟨?_, ?_⟩
      · rw [page_owner isDirectory inRange, page_entry_of_no_table entered, entry_page_zero]
      · simp only [table_of_eq_none.mp entered, ↓reduceIte]
    | some table =>
      have tableOwned : ownersOf system.spaces system.machine
          (.table (some object) (directoryIndex virtualAddr)) = some table :=
        table_of_page inRange isDirectory entered
      have pageRead := owned_page_of_table inRange tableOwned
      obtain ⟨present, rfl⟩ := table_of_eq_some.mp entered
      simp only [present, Bool.true_eq_false, ↓reduceIte]
      cases mapped : entryPage (system.machine.memory.word (tableFromPde (system.machine.memory.word
          record.pageDirectory (directoryIndex virtualAddr))) (tableIndex virtualAddr)) with
      | none =>
        refine Or.inl ⟨pageRead.trans mapped, ?_⟩
        simp only [entry_page_eq_none.mp mapped, ↓reduceIte]
      | some physical =>
        obtain ⟨isMapped, frame⟩ := entry_page_eq_some.mp mapped
        obtain ⟨next, mapping, others, ran, effect⟩ := unmap_present_run inv isSpace inRange
          tableOwned (pageRead.trans mapped)
        refine Or.inr ⟨next, _, physical, mapping, others, ?_, effect⟩
        simp only [isMapped, Bool.true_eq_false, ↓reduceIte, frame]
        exact ran
  · refine Or.inl ⟨by simp [ownersOf, ownedFrame, inRange], ?_⟩
    by_cases aligned : isPageAligned virtualAddr = false
    · simp only [aligned, ↓reduceIte]
    · have notAllowed : userVirtualAllowed virtualAddr = false := by
        simp only [Bool.not_eq_false] at aligned
        rw [Bool.eq_false_iff, Ne, user_virtual_allowed_iff]
        intro allowed
        exact inRange ⟨(is_page_aligned_iff virtualAddr).mp aligned, allowed⟩
      simp only [aligned, notAllowed, Bool.true_eq_false, ↓reduceIte]

/-- Returning a page to the frame allocator is invisible to the tables. -/
theorem SharedKept.with_pmm {spaces : Nat → Option AddressSpace} {touched : Set Nat}
    {machine machine' : Machine} (kept : SharedKept spaces touched machine machine') (pmm : PmmState) :
    SharedKept spaces touched machine { machine' with pmm := pmm } :=
  ⟨⟨kept.directory, kept.cr3, kept.words, kept.entries⟩, kept.bits, kept.steady⟩

section Unmapped

variable (inv : Accounted image held system)
  (effect : UnmapEffect image held object virtualAddr system next record table physical mapping others)

include effect inv

/-- The owners after an unmapping. -/
theorem UnmapEffect.owners :
    Owned image next.spaces held next.machine ∧
      ownersOf next.spaces next.machine = update (ownersOf system.spaces system.machine)
        (.page (some object) virtualAddr) none := by
  obtain ⟨pmm, -, machine⟩ := effect.machine
  have removed := (inv.owned.remove_page effect.inRange effect.tableOwned effect.mapped).2
  have sameOwners : ownersOf system.spaces next.machine =
      update (ownersOf system.spaces system.machine) (.page (some object) virtualAddr) none := by
    rw [machine]
    exact removed
  have changed : Owned image next.spaces held next.machine ∧
      ownersOf next.spaces next.machine = ownersOf system.spaces next.machine := by
    rw [effect.spaces]
    apply effect.owned.change_record effect.isSpace
    · rfl
    · rfl
  exact ⟨changed.1, changed.2.trans sameOwners⟩

/-- An unmapping returns the page to the frame allocator. -/
theorem UnmapEffect.balanced :
    BalancedFor object (fun _ => False) held system held next := by
  obtain ⟨pmm, freed, machine⟩ := effect.machine
  obtain ⟨-, owners⟩ := effect.owners inv
  rw [machine] at owners
  have balanced : Balanced (Owner.BelongsTo object) (fun _ => False) system.spaces held system.machine next.spaces held
      { system.machine.stored table (tableIndex virtualAddr) 0 with pmm := pmm } :=
    (Balanced.refl (Owner.BelongsTo object) _ _ _ _).release_free inv.owned effect.mapped (Or.inl rfl)
      (show (system.machine.stored table (tableIndex virtualAddr) 0).pmm = _ from rfl) owners freed
  show Balanced _ _ _ _ _ _ _ next.machine
  rw [machine]
  exact balanced

/-- The shared tables are not touched. -/
theorem UnmapEffect.shared_kept {touched : Set Nat} :
    SharedKept system.spaces touched system.machine next.machine := by
  obtain ⟨pmm, -, machine⟩ := effect.machine
  rw [machine]
  exact (inv.owned.store_shared_kept effect.tableOwned (table_index_lt virtualAddr)
    (by decide)).with_pmm pmm

/-- An unmapping keeps the accounts.

Proof: the list and the tables lose the same address. The freed node belongs to this
list and occurs in it once, so no other node and no record is freed. -/
theorem UnmapEffect.accounted : Accounted image held next := by
  obtain ⟨owned, owners⟩ := effect.owners inv
  have kept : SharedKept system.spaces ∅ system.machine next.machine := effect.shared_kept inv
  have sound := inv.records object record effect.isSpace
  obtain ⟨isAddr, front, back, listEq, othersEq⟩ := take_mapping_split effect.taken
  have isNode := sound.nodes mapping (take_mapping_member effect.taken).1
  have sameUse : ∀ ptr use, system.blockUse ptr = some use → ptr ≠ mapping.node →
      next.blockUse ptr = some use := by
    intro ptr use isUsed different
    rw [effect.blockUse, update_of_ne different]
    exact isUsed
  have otherNodes : ∀ ptr use, system.blockUse ptr = some use → use ≠ .mapping object →
      next.blockUse ptr = some use := by
    intro ptr use isUsed notMapping
    refine sameUse ptr use isUsed ?_
    rintro rfl
    rw [isNode] at isUsed
    exact notMapping (Option.some.inj isUsed).symm
  have distinct := sound.distinct
  have once := sound.once
  have listed := sound.listed
  have counted := sound.count
  have nodes := sound.nodes
  rw [listEq] at distinct once listed counted nodes
  apply inv.replace_record effect.isSpace effect.spaces ⟨rfl, rfl⟩ ⟨effect.kernelSpace, effect.currentSpace⟩
    effect.account owned kept.toDirectoriesKept
  · have distinctFront : ((mapping :: (front ++ back)).map Mapping.node).Nodup :=
      (List.perm_middle.map Mapping.node).nodup_iff.mp distinct
    have onceFront : ((mapping :: (front ++ back)).map Mapping.virtualAddr).Nodup :=
      (List.perm_middle.map Mapping.virtualAddr).nodup_iff.mp once
    rw [List.map_cons, List.nodup_cons] at distinctFront onceFront
    refine ⟨otherNodes _ _ sound.block BlockUse.noConfusion, ?_, ?_, ?_, ?_, ?_⟩
    · intro found member
      simp only [othersEq] at member
      refine sameUse _ _ (nodes found (List.perm_middle.mem_iff.mpr
        (List.mem_cons_of_mem mapping member))) ?_
      intro same
      exact distinctFront.1 (List.mem_map.mpr ⟨found, member, same⟩)
    · simp only [othersEq]
      exact distinctFront.2
    · simp only [othersEq]
      exact onceFront.2
    · intro otherAddr otherPhysical
      simp only [othersEq]
      rw [lists_take once isAddr, owners, update_apply, listed otherAddr otherPhysical]
      by_cases same : otherAddr = virtualAddr
      · simp [same]
      · simp [same]
    · simp only [othersEq, List.length_append, List.length_cons] at counted ⊢
      omega
  · intro other isOther otherRecord otherSound
    apply otherSound.congr
    · rintro ptr use isUsed (rfl | rfl)
      · exact otherNodes ptr _ isUsed BlockUse.noConfusion
      · exact otherNodes ptr _ isUsed fun same => isOther (BlockUse.mapping.inj same)
    · intro otherAddr
      rw [owners, update_of_ne]
      exact fun same => isOther (Option.some.inj (Owner.page.inj same).1)

end Unmapped

end Toyix.Paging
