import Toyix.Processes.Table
import Toyix.Library.Transition
import Mathlib.Logic.Relation

/-!
# The invariant of the process table

The calls of the kernel that change the process table are the steps of a run. Next to
the table a run keeps the objects that have been created and not destroyed, in the
order of their creation; the list from `process_head` is always that list.

Pids are given out in increasing order, and a process gets its parent when it is
created, so a parent has a smaller pid than its children. Destroying a process takes it
from its children before anybody can look the pid up again.
-/

namespace Toyix.Processes

open Library Library.Links

variable {table next : ProcessTable} {live : List Nat} {process : Nat} {update : Process → Process}

/-! ## Running the parts -/

@[simp] theorem changeProcess_apply (process : Nat) (update : Process → Process)
    (table : ProcessTable) :
    changeProcess process update table = .done ⟨⟩ (table.change process update) := rfl

@[simp] theorem readProcess_apply (process : Nat) (table : ProcessTable) :
    readProcess process table = .done (table.objects process) table := rfl

theorem change_self (table : ProcessTable) (process : Nat) (update : Process → Process) :
    (table.change process update).objects process = update (table.objects process) := by
  simp [ProcessTable.change]

theorem change_other (table : ProcessTable) {other : Nat} (update : Process → Process)
    (different : other ≠ process) :
    (table.change process update).objects other = table.objects other := by
  simp [ProcessTable.change, different]

/-- A field that the change of one object keeps is kept everywhere. -/
theorem change_field {α : Type} (table : ProcessTable) (field : Process → α)
    (keeps : field (update (table.objects process)) = field (table.objects process)) (other : Nat) :
    field ((table.change process update).objects other) = field (table.objects other) := by
  by_cases same : other = process
  · rw [same, change_self, keeps]
  · rw [change_other table update same]

/-! ## The invariant -/

/-- The fields of a process that is in the table. -/
structure Process.Sound (process : Process) (nextPid : Nat) : Prop where
  magic : process.magic = processMagic
  present : process.state ≠ .destroyed
  positive : 0 < process.pid
  given : process.pid < nextPid
  parent : process.parentPid ≠ 0 → process.parentPid < process.pid
  exits : process.exited = true ↔ process.state = .zombie
  kills : process.exited = true → process.killRequested = false

/-- The table lists the live objects, which are sound; pids increase along the list and
parents are listed. -/
structure Listed (table : ProcessTable) (live : List Nat) : Prop where
  chained : Chained 0 table.links table.ends live
  count : table.processCount = live.length
  bounded : table.nextPid < 2 ^ 32
  started : 0 < table.nextPid
  sound : ∀ process ∈ live, (table.objects process).Sound table.nextPid
  ordered : live.Pairwise fun left right =>
    (table.objects left).pid < (table.objects right).pid
  parents : ∀ process ∈ live, (table.objects process).parentPid ≠ 0 →
    ∃ parent ∈ live, (table.objects parent).pid = (table.objects process).parentPid

/-- No object at address zero is listed. -/
theorem Listed.ne_zero (listed : Listed table live) (member : process ∈ live) : process ≠ 0 := by
  rintro rfl
  exact listed.chained.notNull member

/-- The pids along the list. -/
theorem Listed.pids_nodup (listed : Listed table live) :
    (live.map fun process => (table.objects process).pid).Nodup := by
  rw [List.Nodup, List.pairwise_map]
  exact listed.ordered.imp Nat.ne_of_lt

/-- Different listed objects have different pids. -/
theorem Listed.pid_injective (listed : Listed table live) {process process' : Nat}
    (member : process ∈ live) (member' : process' ∈ live)
    (same : (table.objects process).pid = (table.objects process').pid) : process = process' :=
  List.inj_on_of_nodup_map listed.pids_nodup member member' same

/-- There are fewer live objects than pids given out. -/
theorem Listed.length_le (listed : Listed table live) : live.length ≤ table.nextPid := by
  have bounded := length_le_of_nodup table.nextPid listed.pids_nodup ?_
  · rwa [List.length_map] at bounded
  · intro pid isPid
    obtain ⟨process, member, rfl⟩ := List.mem_map.mp isPid
    exact (listed.sound process member).given

theorem Listed.short (listed : Listed table live) : live.length < walkBound :=
  Nat.lt_of_le_of_lt listed.length_le listed.bounded

/-- The empty table. -/
theorem init_listed (objects : Nat → Process) (links : Fields Nat) :
    Listed (processInitSystem objects links) [] := by
  constructor
  · exact Chained.nil links
  all_goals simp [processInitSystem]

/-! ## Checks and lookups -/

/-- An object that the checks accept. -/
structure Checked (table : ProcessTable) (process : Nat) : Prop where
  notNull : process ≠ 0
  magic : (table.objects process).magic = processMagic
  present : (table.objects process).state ≠ .destroyed

theorem Listed.checked (listed : Listed table live) (member : process ∈ live) :
    Checked table process :=
  ⟨listed.ne_zero member, (listed.sound process member).magic, (listed.sound process member).present⟩

/-- The checks read the magic number and the state. -/
theorem Checked.congr {next : ProcessTable} (checked : Checked table process)
    (magic : (next.objects process).magic = (table.objects process).magic)
    (state : (next.objects process).state = (table.objects process).state) : Checked next process :=
  ⟨checked.notNull, magic.trans checked.magic, state.trans_ne checked.present⟩

theorem Checked.validate_process (checked : Checked table process) :
    validateProcess process table = .done ⟨⟩ table := by
  simp [validateProcess, checked.notNull, bind_apply, checked.magic]

theorem Checked.validate_live_process (checked : Checked table process) :
    validateLiveProcess process table = .done ⟨⟩ table := by
  simp [validateLiveProcess, bind_apply, checked.validate_process, checked.present]

/-- A lookup finds the first listed process that passes the test. -/
theorem table_find_run (listed : Listed table live) (test : Process → Bool) :
    tableFind test table =
      .done ((live.find? fun process => test (table.objects process)).getD 0) table := by
  have found := find_linked (fun process => test (table.objects process)) listed.chained.linked
    listed.chained.notNull listed.short
  rw [← listed.chained.first] at found
  simp only [tableFind, bind_apply, current_apply, andThen_done, found]
  rfl

/-! ## Changes -/

/-- Changing fields other than the pid and the parent. -/
theorem Listed.change (listed : Listed table live)
    (samePid : (update (table.objects process)).pid = (table.objects process).pid)
    (sameParent : (update (table.objects process)).parentPid = (table.objects process).parentPid)
    (sound : process ∈ live → (update (table.objects process)).Sound table.nextPid) :
    Listed (table.change process update) live := by
  have pids := change_field table Process.pid samePid
  have parents := change_field table Process.parentPid sameParent
  refine ⟨listed.chained, listed.count, listed.bounded, listed.started, ?_, ?_, ?_⟩
  · intro other member
    by_cases same : other = process
    · subst same
      rw [change_self]
      exact sound member
    · rw [change_other table update same]
      exact listed.sound other member
  · simpa only [pids] using listed.ordered
  · simpa only [pids, parents] using listed.parents

/-- The object that a creation fills in. -/
def createdProcess (table : ProcessTable) (addressSpace : Nat) : Process :=
  { Process.cleared with
    magic := processMagic
    pid := table.nextPid
    addressSpace := addressSpace
    exitCode := 0xFFFFFFFF }

/-- `process_create_empty` appends a fresh object with a fresh pid. -/
theorem process_create_run (listed : Listed table live) {object : Nat} (addressSpace : Nat)
    (fresh : object ∉ live) (notNull : object ≠ 0) (room : table.nextPid + 1 < 2 ^ 32) :
    ∃ next, processCreateEmpty object addressSpace table = .done object next ∧
      Listed next (live ++ [object]) ∧ next.nextPid = table.nextPid + 1 ∧
      next.objects object = createdProcess table addressSpace ∧
      ∀ other, other ≠ object → next.objects other = table.objects other := by
  obtain ⟨chained, -⟩ := listed.chained.push_back fresh notNull
  have short := listed.length_le
  have magic : (createdProcess table addressSpace).magic = processMagic := rfl
  have objects : ∀ other ∈ live, Function.update table.objects object
      (createdProcess table addressSpace) other = table.objects other := by
    intro other member
    have different : other ≠ object := fun same => fresh (same ▸ member)
    simp [different]
  refine ⟨{ table with
      objects := Function.update table.objects object (createdProcess table addressSpace)
      links := (pushBack 0 object table.links table.ends).1
      ends := (pushBack 0 object table.links table.ends).2
      processCount := (table.processCount + 1) % 2 ^ 32
      nextPid := (table.nextPid + 1) % 2 ^ 32 }, ?_, ?_, ?_, ?_, ?_⟩
  · simp [processCreateEmpty, processTableInsert, validateProcess, bind_apply, notNull,
      ProcessTable.change, createdProcess, Process.cleared]
  · refine ⟨chained, ?_, ?_, ?_, ?_, ?_, ?_⟩
    · have exact : (table.processCount + 1) % 2 ^ 32 = live.length + 1 := by
        rw [listed.count]
        omega
      simpa using exact
    · exact Nat.mod_lt _ (by decide)
    · have wraps : (table.nextPid + 1) % 2 ^ 32 = table.nextPid + 1 := Nat.mod_eq_of_lt room
      simp only [wraps]
      omega
    · intro other member
      have wraps : (table.nextPid + 1) % 2 ^ 32 = table.nextPid + 1 := Nat.mod_eq_of_lt room
      simp only [wraps]
      rcases List.mem_append.mp member with old | new
      · rw [objects other old]
        have sound := listed.sound other old
        exact { sound with given := by have given := sound.given; omega }
      · rw [List.mem_singleton.mp new, Function.update_self]
        constructor <;> simp [createdProcess, Process.cleared, listed.started]
    · rw [List.pairwise_append]
      refine ⟨?_, List.pairwise_singleton _ _, ?_⟩
      · refine listed.ordered.imp_of_mem ?_
        intro left right isLeft isRight below
        simp only [objects left isLeft, objects right isRight]
        exact below
      · intro left isLeft right isRight
        rw [List.mem_singleton.mp isRight]
        simp only [objects left isLeft, Function.update_self]
        exact (listed.sound left isLeft).given
    · intro other member hasParent
      rcases List.mem_append.mp member with old | new
      · simp only [objects other old] at hasParent ⊢
        obtain ⟨parent, isLive, isParent⟩ := listed.parents other old hasParent
        exact ⟨parent, List.mem_append_left _ isLive, by rw [objects parent isLive, isParent]⟩
      · rw [List.mem_singleton.mp new] at hasParent
        simp [createdProcess, Process.cleared] at hasParent
  · exact Nat.mod_eq_of_lt room
  · simp
  · intro other different
    simp [different]

/-- `process_set_parent` of a process to one that was created before it. -/
theorem Listed.set_parent (listed : Listed table live) {parent : Nat} (isLive : parent ∈ live)
    (older : process ∈ live → (table.objects parent).pid < (table.objects process).pid) :
    Listed (table.change process fun fields =>
      { fields with parentPid := (table.objects parent).pid }) live := by
  have pids : ∀ other, ((table.change process fun fields =>
      { fields with parentPid := (table.objects parent).pid }).objects other).pid =
      (table.objects other).pid := change_field table Process.pid rfl
  refine ⟨listed.chained, listed.count, listed.bounded, listed.started, ?_, ?_, ?_⟩
  · intro other member
    have sound := listed.sound other member
    by_cases same : other = process
    · subst same
      rw [change_self]
      exact { sound with parent := fun _ => older member }
    · rw [change_other table _ same]
      exact sound
  · simpa only [pids] using listed.ordered
  · intro other member hasParent
    simp only [pids]
    by_cases same : other = process
    · subst same
      rw [change_self]
      exact ⟨parent, isLive, rfl⟩
    · rw [change_other table _ same] at hasParent ⊢
      exact listed.parents other member hasParent

/-! ## Destruction -/

/-- The loop over the table takes the process from its children. -/
theorem orphan_children_run (listed : Listed table live) (pid : Nat) :
    ∃ objects, orphanChildren pid table = .done ⟨⟩ { table with objects := objects } ∧
      ∀ other, objects other =
        if other ∈ live then (table.objects other).orphaned pid else table.objects other := by
  have visited := visit_linked
    (fun process objects => Function.update objects process ((objects process).orphaned pid))
    table.objects listed.chained.linked listed.chained.notNull listed.short
  rw [← listed.chained.first] at visited
  refine ⟨live.foldl (fun objects process => Function.update objects process
    ((objects process).orphaned pid)) table.objects, ?_, ?_⟩
  · simp only [orphanChildren, bind_apply, current_apply, andThen_done, visited, Program.update_apply]
  · intro other
    exact foldl_update_apply (Process.orphaned pid) table.objects listed.chained.nodup other

theorem orphaned_pid (pid : Nat) (process : Process) : (process.orphaned pid).pid = process.pid := by
  unfold Process.orphaned
  split <;> rfl

/-- A process that lost its parent is as sound as before. -/
theorem Process.Sound.orphaned {process : Process} {nextPid : Nat} (sound : process.Sound nextPid)
    (pid : Nat) : (process.orphaned pid).Sound nextPid := by
  unfold Process.orphaned
  split
  · exact { sound with parent := fun absurd => (absurd rfl).elim }
  · exact sound

/-- A process that still has a parent kept it. -/
theorem orphaned_parent {pid : Nat} {process : Process}
    (hasParent : (process.orphaned pid).parentPid ≠ 0) :
    (process.orphaned pid).parentPid = process.parentPid ∧ process.parentPid ≠ pid := by
  unfold Process.orphaned at hasParent ⊢
  split
  · rename_i same
    simp [same] at hasParent
  · rename_i different
    exact ⟨rfl, different⟩

/-- The table after `process_table_remove`. -/
def ProcessTable.removed (table : ProcessTable) (process : Nat) : ProcessTable :=
  { table with
    links := (unlink 0 process table.links table.ends).1
    ends := (unlink 0 process table.links table.ends).2
    processCount := if table.processCount > 0 then table.processCount - 1 else table.processCount }

theorem Checked.table_remove (checked : Checked table process) :
    processTableRemove process table = .done ⟨⟩ (table.removed process) := by
  simp only [processTableRemove, bind_apply, checked.validate_process, andThen_done, Program.update_apply]
  rfl

/-- The table after `process_close_all_files`. -/
def ProcessTable.filesClosed (table : ProcessTable) (process : Nat) : ProcessTable :=
  table.change process fun fields => { fields with fds := closedFds fields.fds }

theorem Checked.close_all_files (checked : Checked table process) :
    ∃ files, processCloseAllFiles process table = .done files (table.filesClosed process) := by
  simp only [processCloseAllFiles, bind_apply, checked.validate_live_process,
    andThen_done, readProcess_apply, changeProcess_apply, pure_apply]
  exact ⟨_, rfl⟩

/-- A process of the table is still valid once children have lost their parent. -/
theorem Listed.checked_orphaned (listed : Listed table live) (member : process ∈ live) {pid : Nat}
    {objects : Nat → Process} (effect : ∀ other, objects other =
      if other ∈ live then (table.objects other).orphaned pid else table.objects other) :
    Checked { table with objects := objects } process := by
  have self := (effect process).trans (if_pos member)
  have sound := (listed.sound process member).orphaned pid
  rw [← self] at sound
  exact ⟨listed.ne_zero member, sound.magic, sound.present⟩

/-- The table after the last stores of `process_destroy`. -/
def ProcessTable.discarded (table : ProcessTable) (process : Nat) : ProcessTable :=
  table.change process fun fields =>
    { fields with addressSpace := 0, state := .destroyed, killRequested := false, magic := 0 }

/-- The steps of `process_destroy`. -/
theorem process_destroy_steps (listed : Listed table live) (member : process ∈ live)
    (exited : (table.objects process).exited = true) :
    ∃ files objects, processDestroy process table = .done (files, (table.objects process).addressSpace)
        (((({ table with objects := objects } : ProcessTable).removed process).filesClosed
          process).discarded process) ∧
      ∀ other, objects other =
        if other ∈ live then (table.objects other).orphaned (table.objects process).pid
        else table.objects other := by
  obtain ⟨objects, orphaned, effect⟩ := orphan_children_run listed (table.objects process).pid
  have checked := listed.checked_orphaned member effect
  have checked' : Checked (({ table with objects := objects } : ProcessTable).removed process)
      process := ⟨checked.notNull, checked.magic, checked.present⟩
  obtain ⟨files, closed⟩ := checked'.close_all_files
  have space : ((({ table with objects := objects } : ProcessTable).removed process).filesClosed
      process |>.objects process).addressSpace = (table.objects process).addressSpace := by
    rw [ProcessTable.filesClosed, change_self]
    simp only [ProcessTable.removed, effect, if_pos member, Process.orphaned]
    split <;> rfl
  refine ⟨files, objects, ?_, effect⟩
  simp only [processDestroy, processDetach, bind_apply, (listed.checked member).validate_live_process,
    andThen_done, readProcess_apply, exited, Bool.true_eq_false, false_and, ↓reduceIte, orphaned,
    checked.table_remove, closed, pure_apply, processDiscard, changeProcess_apply, space]
  rfl

/-- The table without one of its processes, whose children have lost their parent. -/
theorem Listed.erase (listed : Listed table live) (member : process ∈ live)
    (links : next.links = (table.removed process).links)
    (ends : next.ends = (table.removed process).ends)
    (count : next.processCount = (table.removed process).processCount)
    (pids : next.nextPid = table.nextPid)
    (effect : ∀ other ∈ live, other ≠ process →
      next.objects other = (table.objects other).orphaned (table.objects process).pid) :
    Listed next (live.erase process) := by
  obtain ⟨left, right, rfl⟩ := List.append_of_mem member
  obtain ⟨notLeft, notRight, -⟩ := listed.chained.apart
  have erased : (left ++ process :: right).erase process = left ++ right := by
    rw [List.erase_append_right _ notLeft, List.erase_cons_head]
  have remains : ∀ other ∈ left ++ right,
      other ∈ left ++ process :: right ∧ other ≠ process := by
    intro other isLive
    refine ⟨by simp only [List.mem_append, List.mem_cons] at isLive ⊢; tauto, ?_⟩
    rintro rfl
    rcases List.mem_append.mp isLive with inLeft | inRight
    · exact notLeft inLeft
    · exact notRight inRight
  have objects : ∀ other ∈ left ++ right,
      next.objects other = (table.objects other).orphaned (table.objects process).pid :=
    fun other isLive => effect other (remains other isLive).1 (remains other isLive).2
  rw [erased]
  refine ⟨?_, ?_, ?_, ?_, ?_, ?_, ?_⟩
  · rw [links, ends]
    exact listed.chained.unlinked.1
  · rw [count, ProcessTable.removed, listed.count]
    simp
  · rw [pids]
    exact listed.bounded
  · rw [pids]
    exact listed.started
  · intro other isLive
    rw [objects other isLive, pids]
    exact (listed.sound other (remains other isLive).1).orphaned _
  · have shorter : (left ++ right).Sublist (left ++ process :: right) :=
      List.Sublist.append_left (List.sublist_cons_self process right) left
    refine (listed.ordered.sublist shorter).imp_of_mem ?_
    intro other other' isLive isLive' below
    rw [objects other isLive, objects other' isLive', orphaned_pid, orphaned_pid]
    exact below
  · intro other isLive hasParent
    rw [objects other isLive] at hasParent ⊢
    obtain ⟨kept, different⟩ := orphaned_parent hasParent
    rw [kept] at hasParent ⊢
    obtain ⟨parent, isListed, isParent⟩ :=
      listed.parents other (remains other isLive).1 hasParent
    have apart : parent ≠ process := by
      rintro rfl
      exact different isParent.symm
    have stays : parent ∈ left ++ right := by
      simp only [List.mem_append, List.mem_cons] at isListed ⊢
      tauto
    exact ⟨parent, stays, by rw [objects parent stays, orphaned_pid, isParent]⟩

/-- `process_destroy` takes an exited process out of the table. The others keep their
fields, apart from the parent of its children; objects outside the table keep theirs. -/
theorem process_destroy_run (listed : Listed table live) (member : process ∈ live)
    (exited : (table.objects process).exited = true) :
    ∃ files next, processDestroy process table =
        .done (files, (table.objects process).addressSpace) next ∧
      Listed next (live.erase process) ∧ next.nextPid = table.nextPid ∧
      (∀ other, other ≠ process → next.objects other =
        if other ∈ live then (table.objects other).orphaned (table.objects process).pid
        else table.objects other) := by
  obtain ⟨files, objects, steps, effect⟩ := process_destroy_steps listed member exited
  have others : ∀ other, other ≠ process →
      ((((({ table with objects := objects } : ProcessTable).removed process).filesClosed
        process).discarded process).objects other) = objects other := by
    intro other different
    rw [ProcessTable.discarded, change_other _ _ different, ProcessTable.filesClosed,
      change_other _ _ different]
    rfl
  refine ⟨files, _, steps, ?_, rfl, ?_⟩
  · apply listed.erase member
    · rfl
    · rfl
    · rfl
    · rfl
    · intro other isLive different
      rw [others other different, effect, if_pos isLive]
  · intro other different
    rw [others other different, effect]

/-! ## Runs -/

/-- `program_create_process` as far as the table is concerned: the process is created and
its program loaded, the current process becomes its parent, the arguments are set up
and it is started. -/
def programCreateProcess (current object addressSpace entry stackBase stackTop initialEsp
    thread : Nat) : TableProgram Nat := do
  let process ← processCreateEmpty object addressSpace
  processSetUserStack process stackBase stackTop
  processSetUserEntry process entry
  if current ≠ 0 then do
    let parent ← readProcess current
    processSetParent process parent.pid
  else pure ()
  changeProcess process fun fields => { fields with userInitialEsp := initialEsp }
  processStartUser process thread
  pure process

/-- The table and the objects created and not destroyed, in the order of creation. -/
structure TableRun where
  table : ProcessTable
  live : List Nat

/-- The calls that change the table, with what they are given by the rest of the kernel. -/
inductive TableOp where
  | createEmpty (object addressSpace : Nat)
  | createProgram (current object addressSpace : Nat)
      (entry stackBase stackTop initialEsp : UInt32) (thread : Nat)
  | startUser (process thread : Nat)
  | exitCurrent (current : Nat) (exitCode : UInt32)
  | requestKillChild (parentPid childPid : UInt32)
  | destroy (process : Nat)

/-- One call. A call that stops the machine has no successor. -/
def tableStep : TableOp → TableRun → Option TableRun
  | .createEmpty object addressSpace, run =>
    (processCreateEmpty object addressSpace run.table).result.map fun (_, table) =>
      ⟨table, run.live ++ [object]⟩
  | .createProgram current object addressSpace entry stackBase stackTop initialEsp thread, run =>
    (programCreateProcess current object addressSpace entry.toNat stackBase.toNat stackTop.toNat
      initialEsp.toNat thread run.table).result.map fun (_, table) => ⟨table, run.live ++ [object]⟩
  | .startUser process thread, run =>
    (processStartUser process thread run.table).result.map fun (_, table) => ⟨table, run.live⟩
  | .exitCurrent current exitCode, run =>
    (processExitCurrent current exitCode.toNat run.table).result.map fun (_, table) =>
      ⟨table, run.live⟩
  | .requestKillChild parentPid childPid, run =>
    (processRequestKillChild parentPid.toNat childPid.toNat run.table).result.map fun (_, table) =>
      ⟨table, run.live⟩
  | .destroy process, run =>
    (processDestroy process run.table).result.map fun (_, table) =>
      ⟨table, run.live.erase process⟩

/-- The calls are made with objects of the table; `kcalloc` gives out a block that is not in
use, and fewer than `2 ^ 32 - 1` processes are created. -/
def TableCall (run : TableRun) : TableOp → Prop
  | .createEmpty object _ => object ∉ run.live ∧ run.table.nextPid + 1 < 2 ^ 32
  | .createProgram current object _ _ _ _ _ _ =>
    object ∉ run.live ∧ run.table.nextPid + 1 < 2 ^ 32 ∧ (current = 0 ∨ current ∈ run.live)
  | .startUser process _ => process ∈ run.live
  | .exitCurrent current _ => current = 0 ∨ current ∈ run.live
  | .requestKillChild _ _ => True
  | .destroy process => process ∈ run.live ∧ (run.table.objects process).exited = true

/-- A process is not started after it has exited. -/
def StartsUnexited (run : TableRun) : TableOp → Prop
  | .startUser process _ => (run.table.objects process).exited = false
  | _ => True

/-- Runs from `process_init_system`. -/
def TableReachable (allowed : TableRun → TableOp → Prop) (run : TableRun) : Prop :=
  ∃ objects links, Reaches tableStep allowed ⟨processInitSystem objects links, []⟩ run

/-! ## Steps -/

/-- Soundness depends on six fields. -/
theorem Process.Sound.congr {process process' : Process} {nextPid : Nat}
    (sound : process.Sound nextPid) (magic : process'.magic = process.magic)
    (pid : process'.pid = process.pid) (parent : process'.parentPid = process.parentPid)
    (state : process'.state = process.state) (exited : process'.exited = process.exited)
    (kill : process'.killRequested = process.killRequested) : process'.Sound nextPid := by
  constructor
  · rw [magic, sound.magic]
  · rw [state]
    exact sound.present
  · rw [pid]
    exact sound.positive
  · rw [pid]
    exact sound.given
  · rw [parent, pid]
    exact sound.parent
  · rw [exited, state]
    exact sound.exits
  · rw [exited, kill]
    exact sound.kills

/-- `process_start_user` of a process that has not exited. -/
theorem process_start_listed (listed : Listed table live) (member : process ∈ live) (thread : Nat)
    (alive : (table.objects process).exited = false) :
    (processStartUser process thread table).Sat fun _ next => Listed next live := by
  simp only [processStartUser, bind_apply, (listed.checked member).validate_process,
    andThen_done, readProcess_apply, ite_run]
  split
  · trivial
  · simp only [changeProcess_apply, sat_done]
    apply listed.change
    · rfl
    · rfl
    · intro _
      exact { listed.sound process member with
        present := by simp, exits := by simp [alive], kills := by simp [alive] }

/-- `process_exit_current`. -/
theorem process_exit_listed (listed : Listed table live) {current : Nat}
    (isCurrent : current = 0 ∨ current ∈ live) (exitCode : Nat) :
    (processExitCurrent current exitCode table).Sat fun _ next => Listed next live := by
  simp only [processExitCurrent, ite_run]
  split
  · simp only [Program.update_apply, sat_done]
    exact { listed with }
  · rename_i notNull
    have member : current ∈ live := isCurrent.resolve_left notNull
    have sound := listed.sound current member
    simp only [bind_apply, changeProcess_apply, andThen_done, Program.update_apply, sat_done]
    have changed : Listed (table.change current fun fields => { fields with
        exitCode := exitCode, exited := true, state := .zombie, killRequested := false }) live := by
      apply listed.change
      · rfl
      · rfl
      · intro _
        exact { sound with present := by simp, exits := by simp, kills := by simp }
    exact { changed with }

/-- A kill request is recorded for a process that has not exited. -/
theorem request_kill_listed (listed : Listed table live) (member : process ∈ live)
    (killable : (table.objects process).killable = true) :
    Listed (table.change process fun fields => { fields with killRequested := true }) live := by
  have sound := listed.sound process member
  have alive : (table.objects process).exited = false := by
    simp only [Process.killable, Bool.and_eq_true, Bool.not_eq_true'] at killable
    exact killable.1.1
  apply listed.change
  · rfl
  · rfl
  · intro _
    exact { sound with kills := by simp [alive] }

/-- `process_request_kill_child`. -/
theorem process_kill_child_listed (listed : Listed table live) (parentPid childPid : Nat) :
    (processRequestKillChild parentPid childPid table).Sat fun _ next => Listed next live := by
  simp only [processRequestKillChild, bind_apply, table_find_run listed, andThen_done, ite_run]
  split
  · exact listed
  · rename_i found
    simp only [readProcess_apply, andThen_done, ite_run]
    split
    · rename_i killable
      simp only [bind_apply, changeProcess_apply, andThen_done, pure_apply, sat_done]
      refine request_kill_listed listed ?_ killable
      cases search : live.find? fun process =>
          decide ((table.objects process).pid = childPid) &&
            decide ((table.objects process).parentPid = parentPid) with
      | none => simp [search] at found
      | some child => exact List.mem_of_find?_eq_some search
    · exact listed

/-- An update of fields that belong to user mode. -/
structure UserFields (update : Process → Process) : Prop where
  magic : ∀ fields, (update fields).magic = fields.magic
  pid : ∀ fields, (update fields).pid = fields.pid
  parent : ∀ fields, (update fields).parentPid = fields.parentPid
  state : ∀ fields, (update fields).state = fields.state
  exited : ∀ fields, (update fields).exited = fields.exited
  kill : ∀ fields, (update fields).killRequested = fields.killRequested

/-- Changing the fields that belong to user mode keeps the table. -/
theorem Listed.change_user (listed : Listed table live) (member : process ∈ live)
    (user : UserFields update) : Listed (table.change process update) live := by
  apply listed.change
  · exact user.pid _
  · exact user.parent _
  · intro _
    exact (listed.sound process member).congr (user.magic _) (user.pid _) (user.parent _)
      (user.state _) (user.exited _) (user.kill _)

/-- A process under construction: the last one of the table, with the next pid and a given
parent. The other objects are as they were. -/
structure Building (start : ProcessTable) (live : List Nat) (object parentPid : Nat)
    (table : ProcessTable) : Prop where
  listed : Listed table (live ++ [object])
  nextPid : table.nextPid = start.nextPid + 1
  kept : ∀ other, other ≠ object → table.objects other = start.objects other
  pid : (table.objects object).pid = start.nextPid
  parent : (table.objects object).parentPid = parentPid
  alive : (table.objects object).exited = false
  spared : (table.objects object).killRequested = false

variable {start : ProcessTable} {object parentPid : Nat}

theorem Building.member (live : List Nat) (object : Nat) : object ∈ live ++ [object] :=
  List.mem_append_right live List.mem_cons_self

theorem Building.checked (building : Building start live object parentPid table) :
    Checked table object :=
  building.listed.checked (Building.member live object)

theorem Building.change_user (building : Building start live object parentPid table)
    (user : UserFields update) :
    Building start live object parentPid (table.change object update) := by
  constructor
  · exact building.listed.change_user (Building.member live object) user
  · exact building.nextPid
  · intro other different
    rw [change_other table update different]
    exact building.kept other different
  · rw [change_self, user.pid]
    exact building.pid
  · rw [change_self, user.parent]
    exact building.parent
  · rw [change_self, user.exited]
    exact building.alive
  · rw [change_self, user.kill]
    exact building.spared

/-- The parent of the last process is one of those created before it. -/
theorem Building.set_parent (building : Building start live object parentPid table) {parent : Nat}
    (isLive : parent ∈ live) :
    Building start live object (table.objects parent).pid (table.change object fun fields =>
      { fields with parentPid := (table.objects parent).pid }) := by
  constructor
  · apply building.listed.set_parent (List.mem_append_left _ isLive)
    intro _
    exact (List.pairwise_append.mp building.listed.ordered).2.2 parent isLive object
      List.mem_cons_self
  · exact building.nextPid
  · intro other different
    rw [change_other table _ different]
    exact building.kept other different
  · rw [change_self]
    exact building.pid
  · rw [change_self]
  · rw [change_self]
    exact building.alive
  · rw [change_self]
    exact building.spared

/-- What `program_create_process` does to the table. -/
structure Launched (start : ProcessTable) (live : List Nat) (object parentPid thread : Nat)
    (table : ProcessTable) : Prop extends Building start live object parentPid table where
  mainThread : (table.objects object).mainThread = thread

/-- The last part of `program_create_process`. -/
theorem Building.started (building : Building start live object parentPid table)
    (initialEsp thread : Nat) :
    (((changeProcess object fun fields => { fields with userInitialEsp := initialEsp }) table).andThen
      fun _ => (do processStartUser object thread; pure object : TableProgram Nat)).Sat
        fun process next => process = object ∧ Launched start live object parentPid thread next := by
  have building : Building start live object parentPid
      (table.change object fun fields => { fields with userInitialEsp := initialEsp }) := by
    exact building.change_user (by constructor <;> intro fields <;> rfl)
  have listed := process_start_listed building.listed (Building.member live object) thread
    building.alive
  simp only [processStartUser, bind_apply, building.checked.validate_process,
    andThen_done, readProcess_apply, ite_run, changeProcess_apply] at listed ⊢
  split
  · trivial
  · rename_i ready
    rw [if_neg ready, sat_done] at listed
    simp only [andThen_done, pure_apply, sat_done, true_and]
    refine ⟨⟨listed, building.nextPid, ?_, ?_, ?_, ?_, ?_⟩, ?_⟩
    · intro other different
      rw [change_other _ _ different]
      exact building.kept other different
    all_goals rw [change_self]
    · exact building.pid
    · exact building.parent
    · exact building.alive
    · exact building.spared

/-- `program_create_process` appends one process, whose parent is the current one. -/
theorem program_create_launched (listed : Listed table live)
    {current addressSpace entry stackBase stackTop initialEsp thread : Nat}
    (fresh : object ∉ live) (room : table.nextPid + 1 < 2 ^ 32)
    (isCurrent : current = 0 ∨ current ∈ live) :
    (programCreateProcess current object addressSpace entry stackBase stackTop initialEsp thread
      table).Sat fun process next => process = object ∧ Launched table live object
        (if current = 0 then 0 else (table.objects current).pid) thread next := by
  by_cases notNull : object = 0
  · simp [programCreateProcess, processCreateEmpty, bind_apply, notNull]
  · obtain ⟨created, run, listed', nextPid, fields, kept⟩ :=
      process_create_run listed addressSpace fresh notNull room
    have building : Building table live object 0 created := by
      refine ⟨listed', nextPid, kept, ?_, ?_, ?_, ?_⟩ <;> rw [fields] <;> rfl
    have stacked : Building table live object 0 (created.change object fun fields => { fields with
        userStackBase := stackBase, userStackTop := stackTop, userInitialEsp := stackTop }) := by
      exact building.change_user (by constructor <;> intro fields <;> rfl)
    have entered : Building table live object 0 ((created.change object fun fields => { fields with
        userStackBase := stackBase, userStackTop := stackTop, userInitialEsp := stackTop }).change
          object fun fields => { fields with userEntry := entry }) := by
      exact stacked.change_user (by constructor <;> intro fields <;> rfl)
    simp only [programCreateProcess, bind_apply, run, andThen_done,
      processSetUserStack, building.checked.validate_process, changeProcess_apply,
      processSetUserEntry, stacked.checked.validate_process]
    by_cases kernel : current = 0
    · simp only [kernel, ne_eq, not_true_eq_false, ↓reduceIte]
      exact entered.started initialEsp thread
    · have isLive := isCurrent.resolve_left kernel
      have adopted := entered.set_parent isLive
      have other : current ≠ object := fun same => fresh (same ▸ isLive)
      have samePid := congrArg Process.pid (entered.kept current other)
      simp only [samePid] at adopted
      simp only [ne_eq, kernel, not_false_eq_true, ↓reduceIte, bind_apply, readProcess_apply,
        andThen_done, processSetParent, entered.checked.validate_live_process,
        changeProcess_apply, samePid]
      exact adopted.started initialEsp thread

/-- Every call keeps the table. -/
theorem table_step_listed {run next : TableRun} {op : TableOp} (listed : Listed run.table run.live)
    (call : TableCall run op) (starts : StartsUnexited run op) (taken : tableStep op run = some next) :
    Listed next.table next.live := by
  cases op with
  | createEmpty object addressSpace =>
    obtain ⟨value, table, returned, rfl⟩ := done_of_map taken
    by_cases notNull : object = 0
    · simp [processCreateEmpty, notNull] at returned
    · obtain ⟨created, run', listed', -⟩ :=
        process_create_run listed addressSpace call.1 notNull call.2
      obtain ⟨-, rfl⟩ : value = object ∧ table = created := by
        have same := run'.symm.trans returned
        simpa [eq_comm] using same
      exact listed'
  | createProgram current object addressSpace entry stackBase stackTop initialEsp thread =>
    obtain ⟨value, table, returned, rfl⟩ := done_of_map taken
    have launched := (program_create_launched listed call.1 call.2.1 call.2.2).of_done returned
    exact launched.2.listed
  | startUser process thread =>
    obtain ⟨value, table, returned, rfl⟩ := done_of_map taken
    exact (process_start_listed listed call thread starts).of_done returned
  | exitCurrent current exitCode =>
    obtain ⟨value, table, returned, rfl⟩ := done_of_map taken
    exact (process_exit_listed listed call exitCode.toNat).of_done returned
  | requestKillChild parentPid childPid =>
    obtain ⟨value, table, returned, rfl⟩ := done_of_map taken
    exact (process_kill_child_listed listed parentPid.toNat childPid.toNat).of_done returned
  | destroy process =>
    obtain ⟨value, table, returned, rfl⟩ := done_of_map taken
    obtain ⟨files, destroyed, run', listed', -⟩ := process_destroy_run listed call.1 call.2
    obtain ⟨-, rfl⟩ : value = (files, (run.table.objects process).addressSpace) ∧
        table = destroyed := by
      have same := run'.symm.trans returned
      simpa [eq_comm] using same
    exact listed'

theorem reachable_listed {run : TableRun}
    (reached : TableReachable (fun run op => TableCall run op ∧ StartsUnexited run op) run) :
    Listed run.table run.live := by
  obtain ⟨objects, links, run⟩ := reached
  apply run.invariant fun run => Listed run.table run.live
  · exact init_listed objects links
  · intro run op next listed allowed taken
    exact table_step_listed listed allowed.1 allowed.2 taken

/-! ## The table in every state reached -/

/-- The second process is the parent of the first. -/
def ParentOf (table : ProcessTable) (live : List Nat) (process parent : Nat) : Prop :=
  process ∈ live ∧ parent ∈ live ∧ (table.objects process).parentPid ≠ 0 ∧
    (table.objects process).parentPid = (table.objects parent).pid

/-- What the kernel relies on: the list is well formed and holds the live objects in the
order of their creation, pids are distinct and identify their process, parents are
listed and the relation has no cycles, and exited processes are zombies that nobody
has asked to die. -/
structure TableInvariant (table : ProcessTable) (live : List Nat) : Prop where
  chained : Chained 0 table.links table.ends live
  count : table.processCount = live.length
  nonzero : ∀ process ∈ live, (table.objects process).pid ≠ 0
  distinct : (live.map fun process => (table.objects process).pid).Nodup
  find : ∀ pid, ∃ found, processFind pid table = .done found table ∧
    (found ≠ 0 → found ∈ live ∧ (table.objects found).pid = pid) ∧
    ∀ process ∈ live, (table.objects process).pid = pid → found = process
  parents : ∀ process ∈ live, (table.objects process).parentPid ≠ 0 →
    ∃ parent ∈ live, parent ≠ process ∧
      (table.objects parent).pid = (table.objects process).parentPid
  acyclic : ∀ process, ¬ Relation.TransGen (ParentOf table live) process process
  exits : ∀ process ∈ live, (table.objects process).exited = true ↔
    (table.objects process).state = .zombie
  kills : ∀ process ∈ live, (table.objects process).exited = true →
    (table.objects process).killRequested = false

/-- Looking a pid up finds its process. -/
theorem process_find_run (listed : Listed table live) (pid : Nat) :
    ∃ found, processFind pid table = .done found table ∧
      (found ≠ 0 → found ∈ live ∧ (table.objects found).pid = pid) ∧
      ∀ process ∈ live, (table.objects process).pid = pid → found = process := by
  refine ⟨_, table_find_run listed _, ?_, ?_⟩
  · intro notNull
    cases search : live.find? fun process => decide ((table.objects process).pid = pid) with
    | none => simp [search] at notNull
    | some found =>
      have passes := List.find?_some search
      exact ⟨List.mem_of_find?_eq_some search, of_decide_eq_true passes⟩
  · intro process member isPid
    cases search : live.find? fun process => decide ((table.objects process).pid = pid) with
    | none =>
      have misses := List.find?_eq_none.mp search process member
      simp [isPid] at misses
    | some found =>
      have passes := List.find?_some search
      apply listed.pid_injective (List.mem_of_find?_eq_some search) member
      rw [isPid]
      exact of_decide_eq_true passes

/-- Ancestors have smaller pids. -/
theorem Listed.ancestor_lt (listed : Listed table live) {ancestor : Nat}
    (above : Relation.TransGen (ParentOf table live) process ancestor) :
    (table.objects ancestor).pid < (table.objects process).pid := by
  have step : ∀ child parent, ParentOf table live child parent →
      (table.objects parent).pid < (table.objects child).pid := by
    rintro child parent ⟨member, -, hasParent, isParent⟩
    rw [← isParent]
    exact (listed.sound child member).parent hasParent
  induction above with
  | single related => exact step _ _ related
  | tail _ related ih => exact Nat.lt_trans (step _ _ related) ih

theorem Listed.invariant (listed : Listed table live) : TableInvariant table live := by
  constructor
  · exact listed.chained
  · exact listed.count
  · intro process member
    exact Nat.ne_of_gt (listed.sound process member).positive
  · exact listed.pids_nodup
  · exact process_find_run listed
  · intro process member hasParent
    obtain ⟨parent, isLive, isParent⟩ := listed.parents process member hasParent
    refine ⟨parent, isLive, ?_, isParent⟩
    rintro rfl
    have below := (listed.sound parent member).parent hasParent
    omega
  · intro process above
    exact Nat.lt_irrefl _ (listed.ancestor_lt above)
  · intro process member
    exact (listed.sound process member).exits
  · intro process member
    exact (listed.sound process member).kills

/-- The invariant holds in every state reached, when no process is started after it has
exited. -/
theorem process_table_invariant (run : TableRun)
    (reached : TableReachable (fun run op => TableCall run op ∧ StartsUnexited run op) run) :
    TableInvariant run.table run.live :=
  (reachable_listed reached).invariant

instance (run : TableRun) (op : TableOp) : Decidable (TableCall run op) :=
  match op with
  | .createEmpty _ _ | .createProgram _ _ _ _ _ _ _ _ | .destroy _ => inferInstanceAs (Decidable (_ ∧ _))
  | .startUser _ _ => inferInstanceAs (Decidable (_ ∈ _))
  | .exitCurrent _ _ => inferInstanceAs (Decidable (_ ∨ _))
  | .requestKillChild _ _ => isTrue trivial

instance (run : TableRun) (op : TableOp) : Decidable (StartsUnexited run op) :=
  match op with
  | .startUser _ _ => inferInstanceAs (Decidable (_ = _))
  | .createEmpty _ _ | .createProgram _ _ _ _ _ _ _ _ | .exitCurrent _ _ | .requestKillChild _ _
  | .destroy _ => isTrue trivial

/-- A table before anything was created. -/
def emptyRun : TableRun := ⟨processInitSystem (fun _ => Process.cleared) ⟨fun _ => 0, fun _ => 0⟩, []⟩

/-- What is seen after an executed run from the empty table. -/
theorem table_run_facts {allowed : TableRun → TableOp → Prop} [∀ run op, Decidable (allowed run op)]
    {calls : List TableOp} {β : Type} {facts : TableRun → β} {values : β}
    (completed : (runAll tableStep allowed calls emptyRun).map facts = some values) :
    ∃ run, TableReachable allowed run ∧ facts run = values := by
  obtain ⟨run, reached, seen⟩ := Reaches.of_facts completed
  exact ⟨run, ⟨fun _ => Process.cleared, ⟨fun _ => 0, fun _ => 0⟩, reached⟩, seen⟩

/-- Three processes, one below the other; the second one is killed, exits and is destroyed. -/
def familyCalls : List TableOp :=
  [.createProgram 0 0x1000 0x2000 0x1000000 0x6FFFF000 0x70000000 0x6FFFFFF0 0x3000,
   .createProgram 0x1000 0x1100 0x2100 0x1000000 0x6FFFF000 0x70000000 0x6FFFFFF0 0x3100,
   .createProgram 0x1100 0x1200 0x2200 0x1000000 0x6FFFF000 0x70000000 0x6FFFFFF0 0x3200,
   .requestKillChild 1 2, .exitCurrent 0x1100 128, .destroy 0x1100]

set_option maxRecDepth 100000 in
/-- The invariant after a process in the middle has gone. -/
theorem family_invariant : ∃ run : TableRun, run.live = [0x1000, 0x1200] ∧
    run.table.processCount = 2 ∧ (run.table.objects 0x1200).parentPid = 0 ∧
    TableInvariant run.table run.live := by
  have completed : ((runAll tableStep (fun run op => TableCall run op ∧ StartsUnexited run op)
      familyCalls emptyRun).map fun run =>
        (run.live, run.table.processCount, (run.table.objects 0x1200).parentPid)) =
          some ([0x1000, 0x1200], 2, 0) := by decide +kernel
  obtain ⟨run, reached, shape⟩ := table_run_facts completed
  simp only [Prod.mk.injEq] at shape
  exact ⟨run, shape.1, shape.2.1, shape.2.2, process_table_invariant run reached⟩

set_option maxRecDepth 100000 in
/-- `process_start_user` does not look at the state: a process that is started after it has
exited is running and exited at the same time. -/
theorem exited_process_started : ∃ run : TableRun, TableReachable TableCall run ∧
    0x1000 ∈ run.live ∧ (run.table.objects 0x1000).exited = true ∧
    (run.table.objects 0x1000).state = .running := by
  have completed : ((runAll tableStep TableCall
      [.createProgram 0 0x1000 0x2000 0x1000000 0x6FFFF000 0x70000000 0x6FFFFFF0 0x3000,
        .exitCurrent 0x1000 7, .startUser 0x1000 0x3100] emptyRun).map fun run =>
        (run.live, (run.table.objects 0x1000).exited, (run.table.objects 0x1000).state)) =
          some ([0x1000], true, .running) := by decide +kernel
  obtain ⟨run, reached, shape⟩ := table_run_facts completed
  simp only [Prod.mk.injEq] at shape
  refine ⟨run, reached, ?_, shape.2.1, shape.2.2⟩
  rw [shape.1]
  exact List.mem_cons_self

end Toyix.Processes
