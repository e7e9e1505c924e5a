import Toyix.Processes.Effects

/-!
# One waiter at a time

Every effect keeps `Tidy`, as long as nobody looks for a process that another thread holds.
Then `process_destroy` is entered at most once for a pid, and a waiter only ever touches the
process it found.

Nothing in the kernel keeps two waiters from finding the same process. A parent in
`SYS_WAITPID` and the monitor's `wait` both keep the pointer they found; when the process has
exited, both destroy it.
-/

namespace Toyix.Processes

open Library Library.Links

variable {table : ProcessTable} {live : List Nat} {process : Nat}
  {state next : Collection} {thread : Nat} {record : UserThread} {piece : Piece}
  {record' : UserThread} {other pid : Nat} {detached : List Nat} {table' : ProcessTable}
  {phase phase' : Phase}

/-! ## One thread goes on -/

/-- A thread after one of them was replaced. -/
theorem set_thread_cases {threads : List UserThread} {found : UserThread}
    (isFound : (threads.set thread record')[other]? = some found) :
    other = thread ∧ found = record' ∨ other ≠ thread ∧ threads[other]? = some found := by
  by_cases same : other = thread
  · subst same
    left
    rw [List.getElem?_set_self'] at isFound
    obtain ⟨old, -, isRecord⟩ := Option.map_eq_some_iff.mp isFound
    exact ⟨rfl, isRecord.symm⟩
  · right
    rw [List.getElem?_set_ne (Ne.symm same)] at isFound
    exact ⟨same, isFound⟩

/-- The thread that was replaced. -/
theorem set_thread_found {threads : List UserThread} {found : UserThread}
    (isFound : (threads.set thread record')[thread]? = some found) : found = record' := by
  rcases set_thread_cases isFound with ⟨-, isRecord⟩ | ⟨absurd, -⟩
  · exact isRecord
  · exact (absurd rfl).elim

/-- One thread goes on: its record is replaced by one of the same process. -/
structure Turns (state : Collection) (thread : Nat) (record record' : UserThread)
    (next : Collection) : Prop where
  found : state.threads[thread]? = some record
  threads : next.threads = state.threads.set thread record'
  process : record'.process = record.process
  pid : record'.pid = record.pid

/-- The processes are as they were. -/
structure SameProcesses (state next : Collection) : Prop where
  table : next.table = state.table
  live : next.live = state.live
  detached : next.detached = state.detached

/-- One thread goes on and the processes change under the others. The change must suit every
thread; the thread that runs may start to hold a process that nobody holds. -/
theorem Tidy.change (tidy : Tidy state) (turns : Turns state thread record record' next)
    {table : ProcessTable} {live : List Nat} (isTable : next.table = table)
    (isLive : next.live = live) (isDetached : next.detached = detached)
    (listed : Listed table live) (nodup : detached.Nodup)
    (apart : ∀ process ∈ detached, Detached table live process)
    (runs : Fits table live detached record')
    (others : ∀ (other : Nat) found, other ≠ thread → state.threads[other]? = some found →
      Fits table live detached found)
    (takes : ∀ pid, record'.holds pid = true → record.holds pid = true ∨
      ∀ (other : Nat) found, state.threads[other]? = some found → found.holds pid = false)
    (owned : ∀ process, process ∈ live ∨ process ∈ detached →
      (process ∈ state.live ∨ process ∈ state.detached) ∧
      (table.objects process).mainThread = (state.table.objects process).mainThread ∧
      (table.objects process).pid = (state.table.objects process).pid) : Tidy next := by
  obtain ⟨found, threads, process, pid⟩ := turns
  subst isTable isLive isDetached
  -- who has a record now had one before, of the same process
  have before : ∀ (other : Nat) found', next.threads[other]? = some found' →
      ∃ old, state.threads[other]? = some old ∧ old.process = found'.process ∧
        old.pid = found'.pid := by
    intro other found' isFound
    rw [threads] at isFound
    rcases set_thread_cases isFound with ⟨rfl, rfl⟩ | ⟨-, isFound⟩
    · exact ⟨record, found, process.symm, pid.symm⟩
    · exact ⟨found', isFound, rfl, rfl⟩
  refine ⟨listed, nodup, apart, ?_, ?_, ?_, ?_⟩
  · intro other found' isFound
    rw [threads] at isFound
    rcases set_thread_cases isFound with ⟨rfl, rfl⟩ | ⟨different, isFound⟩
    · exact runs
    · exact others other found' different isFound
  · intro other other' found' found'' isFound isFound' user user' same
    obtain ⟨old, isOld, oldProcess, oldPid⟩ := before other found' isFound
    obtain ⟨old', isOld', oldProcess', oldPid'⟩ := before other' found'' isFound'
    apply tidy.distinct other other' old old' isOld isOld'
    · rwa [oldProcess]
    · rwa [oldProcess']
    · rw [oldPid, oldPid', same]
  · intro other other' found' found'' held isFound isFound' holds holds'
    rw [threads] at isFound isFound'
    rcases set_thread_cases isFound with ⟨rfl, rfl⟩ | ⟨different, wasFound⟩ <;>
      rcases set_thread_cases isFound' with ⟨rfl, rfl⟩ | ⟨different', wasFound'⟩
    · rfl
    · rcases takes held holds with before | nobody
      · exact tidy.single _ _ _ _ held found wasFound' before holds'
      · rw [nobody _ _ wasFound'] at holds'
        cases holds'
    · rcases takes held holds' with before | nobody
      · exact tidy.single _ _ _ _ held wasFound found holds before
      · rw [nobody _ _ wasFound] at holds
        cases holds
    · exact tidy.single _ _ _ _ held wasFound wasFound' holds holds'
  · intro process isObject
    obtain ⟨wasObject, sameThread, samePid⟩ := owned process isObject
    obtain ⟨owner, isOwner, ownerProcess, ownerPid⟩ := tidy.owned process wasObject
    rw [sameThread, samePid, threads]
    by_cases same : (state.table.objects process).mainThread = thread
    · subst same
      obtain rfl : owner = record := Option.some.inj (isOwner.symm.trans found)
      refine ⟨record', ?_, by rw [process, ownerProcess], by rw [pid, ownerPid]⟩
      rw [List.getElem?_set_self', found]
      rfl
    · refine ⟨owner, ?_, ownerProcess, ownerPid⟩
      rw [List.getElem?_set_ne (Ne.symm same)]
      exact isOwner

/-- One thread goes on and nothing else changes. -/
theorem Tidy.move (tidy : Tidy state) (turns : Turns state thread record record' next)
    (same : SameProcesses state next) (runs : Fits state.table state.live state.detached record')
    (takes : ∀ pid, record'.holds pid = true → record.holds pid = true ∨
      ∀ (other : Nat) found, state.threads[other]? = some found → found.holds pid = false) :
    Tidy next := by
  apply tidy.change turns same.table same.live same.detached
  · exact tidy.listed
  · exact tidy.nodup
  · exact tidy.detached
  · exact runs
  · intro other found' _ isFound
    exact tidy.fits other found' isFound
  · exact takes
  · intro process isObject
    exact ⟨isObject, rfl, rfl⟩

/-- The thread has the same process and is at another place. -/
theorem Fits.restage (fits : Fits table live detached record)
    (process : record'.process = record.process) (pid : record'.pid = record.pid)
    (active : record'.stage.active = true → record.stage.active = true)
    (held : ∀ phase process pid, record'.stage = .holding phase process pid →
      (table.objects process).pid = pid ∧ (phase.listed = true → process ∈ live) ∧
      (phase.listed = false → process ∈ detached) ∧
      (phase.isOver = true → (table.objects process).exited = true)) :
    Fits table live detached record' := by
  refine ⟨?_, ?_, held⟩
  · rw [pid]
    exact fits.given
  · rw [process, pid]
    intro user isActive
    exact fits.alive user (active isActive)

/-- The thread holds what it held, in another phase. -/
theorem Fits.advance (fits : Fits table live detached record)
    (same : record'.process = record.process) (samePid : record'.pid = record.pid)
    (stage : record.stage = .holding phase process pid)
    (stage' : record'.stage = .holding phase' process pid) (listed : phase'.listed = phase.listed)
    (isOver : phase'.isOver = true → (table.objects process).exited = true) :
    Fits table live detached record' := by
  apply fits.restage same samePid
  · intro _
    simp [stage, Stage.active]
  · intro phase'' process' pid' isStage
    rw [stage'] at isStage
    cases isStage
    obtain ⟨isPid, isLive, isDetached, -⟩ := fits.held _ _ _ stage
    rw [← listed] at isLive isDetached
    exact ⟨isPid, isLive, isDetached, isOver⟩

/-- A thread that holds nothing. -/
theorem Fits.leave (fits : Fits table live detached record)
    (process : record'.process = record.process) (pid : record'.pid = record.pid)
    (active : record'.stage.active = true → record.stage.active = true)
    (free : ∀ phase process pid, record'.stage ≠ .holding phase process pid) :
    Fits table live detached record' := by
  apply fits.restage process pid active
  intro phase process pid isStage
  exact absurd isStage (free phase process pid)

theorem not_holds {record : UserThread} (free : ∀ phase process pid,
    record.stage ≠ .holding phase process pid) (pid : Nat) : ¬ record.holds pid = true := by
  intro holds
  obtain ⟨phase, process, isStage⟩ := stage_of_holds holds
  exact free phase process pid isStage

theorem holds_advance {record : UserThread} {held : Nat}
    (stage : record.stage = .holding phase process pid)
    (stage' : record'.stage = .holding phase' process pid) (holds : record'.holds held = true) :
    record.holds held = true := by
  simpa [UserThread.holds, stage, stage'] using holds

/-! ## The table changes -/

/-- No process gets another pid or main thread, or comes back to life. -/
structure Kept (table next : ProcessTable) : Prop where
  nextPid : next.nextPid = table.nextPid
  pid : ∀ process, (next.objects process).pid = (table.objects process).pid
  mainThread : ∀ process, (next.objects process).mainThread = (table.objects process).mainThread
  exited : ∀ process, (table.objects process).exited = true → (next.objects process).exited = true

/-- Changing one object. -/
theorem kept_change {update : Process → Process} (table : ProcessTable) (process : Nat)
    (pid : ∀ fields, (update fields).pid = fields.pid)
    (mainThread : ∀ fields, (update fields).mainThread = fields.mainThread)
    (exited : ∀ fields, fields.exited = true → (update fields).exited = true) :
    Kept table (table.change process update) := by
  refine ⟨rfl, change_field table _ (pid _), change_field table _ (mainThread _), ?_⟩
  intro other
  by_cases same : other = process
  · rw [same, change_self]
    exact exited _
  · rw [change_other table update same]
    exact id

theorem kept_ended (table : ProcessTable) (process exitCode : Nat) :
    Kept table (table.ended process exitCode) := by
  have kept : Kept table (table.change process fun fields => { fields with
      exitCode := exitCode, exited := true, state := .zombie, killRequested := false }) :=
    kept_change table process (fun _ => rfl) (fun _ => rfl) (fun _ _ => rfl)
  exact ⟨kept.nextPid, kept.pid, kept.mainThread, kept.exited⟩

theorem kept_marked (table : ProcessTable) (child : Nat) : Kept table (table.marked child) :=
  kept_change table child (fun _ => rfl) (fun _ => rfl) fun _ exited => exited

theorem kept_files (table : ProcessTable) (process : Nat) (fds : Nat → Descriptor) :
    Kept table (table.change process fun fields => { fields with fds := fds }) :=
  kept_change table process (fun _ => rfl) (fun _ => rfl) fun _ exited => exited

theorem kept_files_closed (table : ProcessTable) (process : Nat) :
    Kept table (table.filesClosed process) :=
  kept_change table process (fun _ => rfl) (fun _ => rfl) fun _ exited => exited

theorem kept_discarded (table : ProcessTable) (process : Nat) : Kept table (table.discarded process) :=
  kept_change table process (fun _ => rfl) (fun _ => rfl) fun _ exited => exited

/-- Taking a process from its children keeps everything but the parent. -/
theorem orphaned_field {α : Type} (field : Process → α)
    (keeps : ∀ (fields : Process) (parent : Nat),
      field { fields with parentPid := parent } = field fields)
    (objects : ∀ other, table'.objects other =
      if other ∈ live then (table.objects other).orphaned pid else table.objects other)
    (other : Nat) : field (table'.objects other) = field (table.objects other) := by
  rw [objects]
  split
  · unfold Process.orphaned
    split
    · exact keeps _ 0
    · rfl
  · rfl

theorem kept_orphaned (nextPid : table'.nextPid = table.nextPid)
    (objects : ∀ other, table'.objects other =
      if other ∈ live then (table.objects other).orphaned pid else table.objects other) :
    Kept table table' := by
  refine ⟨nextPid, ?_, ?_, ?_⟩
  · intro other
    exact orphaned_field Process.pid (fun _ _ => rfl) objects other
  · intro other
    exact orphaned_field Process.mainThread (fun _ _ => rfl) objects other
  · intro other exited
    rw [orphaned_field Process.exited (fun _ _ => rfl) objects other]
    exact exited

/-- What a thread knows stays true when its processes stay where they are. -/
theorem Fits.carry (fits : Fits table live detached record) {live' detached' : List Nat}
    (nextPid : table.nextPid ≤ table'.nextPid)
    (pids : ∀ process, process ∈ live ∨ process ∈ detached →
      (table'.objects process).pid = (table.objects process).pid)
    (alive : record.process ∈ live → (table.objects record.process).exited = false →
      record.process ∈ live' ∧ (table'.objects record.process).exited = false)
    (held : ∀ phase process pid, record.stage = .holding phase process pid →
      (process ∈ live → process ∈ live') ∧ (process ∈ detached → process ∈ detached') ∧
      ((table.objects process).exited = true → (table'.objects process).exited = true)) :
    Fits table' live' detached' record := by
  refine ⟨Nat.lt_of_lt_of_le fits.given nextPid, ?_, ?_⟩
  · intro user active
    obtain ⟨isLive, isPid, running⟩ := fits.alive user active
    obtain ⟨stays, stillRunning⟩ := alive isLive running
    exact ⟨stays, (pids _ (Or.inl isLive)).trans isPid, stillRunning⟩
  · intro phase process pid isStage
    obtain ⟨isPid, isLive, isDetached, exited⟩ := fits.held phase process pid isStage
    obtain ⟨inTable, outside, stillExited⟩ := held phase process pid isStage
    exact ⟨(pids _ (fits.object isStage)).trans isPid, fun listed => inTable (isLive listed),
      fun unlisted => outside (isDetached unlisted), fun isOver => stillExited (exited isOver)⟩

theorem Fits.kept (fits : Fits table live detached record) (kept : Kept table table')
    (running : record.process ≠ 0 → record.stage.active = true →
      (table'.objects record.process).exited = false) : Fits table' live detached record := by
  refine ⟨?_, ?_, ?_⟩
  · rw [kept.nextPid]
    exact fits.given
  · intro user active
    obtain ⟨isLive, isPid, -⟩ := fits.alive user active
    rw [kept.pid]
    exact ⟨isLive, isPid, running user active⟩
  · intro phase process pid isStage
    obtain ⟨isPid, isLive, isDetached, exited⟩ := fits.held phase process pid isStage
    rw [kept.pid]
    exact ⟨isPid, isLive, isDetached, fun isOver => kept.exited process (exited isOver)⟩

/-- Detached objects stay what they are. -/
theorem Detached.kept (detached : Detached table live process) (kept : Kept table table')
    (checked : Checked table' process) : Detached table' live process := by
  refine ⟨checked, detached.unlisted, ?_, ?_⟩
  · rw [kept.pid, kept.nextPid]
    exact detached.given
  · intro other isLive
    rw [kept.pid, kept.pid]
    exact detached.unlike other isLive

/-- One thread goes on and changes the table, without bringing a process in or out. -/
theorem Tidy.retable (tidy : Tidy state) (turns : Turns state thread record record' next)
    (live : next.live = state.live) (detached : next.detached = state.detached)
    (kept : Kept state.table next.table) (listed : Listed next.table state.live)
    (checked : ∀ process ∈ state.detached, Checked next.table process)
    (runs : Fits next.table state.live state.detached record')
    (running : ∀ (other : Nat) found, other ≠ thread → state.threads[other]? = some found →
      found.process ≠ 0 → found.stage.active = true →
      (next.table.objects found.process).exited = false)
    (takes : ∀ pid, record'.holds pid = true → record.holds pid = true) : Tidy next := by
  apply tidy.change turns rfl live detached listed
  · exact tidy.nodup
  · intro process isDetached
    exact (tidy.detached process isDetached).kept kept (checked process isDetached)
  · exact runs
  · intro other found' different isFound
    exact (tidy.fits other found' isFound).kept kept (running other found' different isFound)
  · intro pid holds
    exact Or.inl (takes pid holds)
  · intro process isObject
    exact ⟨isObject, kept.mainThread process, kept.pid process⟩

/-- Other threads belong to other processes. -/
theorem Tidy.other_process (tidy : Tidy state) (found : state.threads[thread]? = some record)
    (user : record.process ≠ 0) (active : record.stage.active = true) {found' : UserThread}
    (different : other ≠ thread) (isFound : state.threads[other]? = some found')
    (user' : found'.process ≠ 0) (active' : found'.stage.active = true) :
    found'.process ≠ record.process := by
  intro same
  obtain ⟨-, isPid, -⟩ := (tidy.fits thread record found).alive user active
  obtain ⟨-, isPid', -⟩ := (tidy.fits other found' isFound).alive user' active'
  apply different
  apply tidy.distinct other thread found' record isFound found user' user
  rw [← isPid, ← isPid', same]

/-- A change that no thread and no waiter depends on. -/
structure Harmless (update : Process → Process) : Prop where
  pid : ∀ fields, (update fields).pid = fields.pid
  mainThread : ∀ fields, (update fields).mainThread = fields.mainThread
  exited : ∀ fields, (update fields).exited = fields.exited
  magic : ∀ fields, (update fields).magic = fields.magic
  state : ∀ fields, (update fields).state = fields.state

/-- The table is changed at one object that stays in its place. -/
theorem Tidy.rewrite (tidy : Tidy state) (turns : Turns state thread record record' next)
    {update : Process → Process} {object : Nat}
    (table : next.table = state.table.change object update) (live : next.live = state.live)
    (detached : next.detached = state.detached) (harmless : Harmless update) (listed : Listed (state.table.change object update) state.live)
    (runs : Fits state.table state.live state.detached record')
    (takes : ∀ pid, record'.holds pid = true → record.holds pid = true) : Tidy next := by
  have kept : Kept state.table next.table := by
    rw [table]
    apply kept_change state.table object harmless.pid harmless.mainThread
    intro fields wasExited
    rw [harmless.exited]
    exact wasExited
  have same : ∀ other, (next.table.objects other).exited = (state.table.objects other).exited := by
    rw [table]
    exact change_field state.table Process.exited (harmless.exited _)
  have checked : ∀ process, Checked state.table process → Checked next.table process := by
    intro process old
    rw [table]
    exact old.congr (change_field state.table Process.magic (harmless.magic _) process)
      (change_field state.table Process.state (harmless.state _) process)
  rw [← table] at listed
  apply tidy.retable turns live detached kept listed
  · intro process isDetached
    exact checked process (tidy.detached process isDetached).checked
  · apply runs.kept kept
    intro user active
    rw [same]
    exact (runs.alive user active).2.2
  · intro other found' _ isFound user active
    rw [same]
    exact ((tidy.fits other found' isFound).alive user active).2.2
  · exact takes

section Tidy

variable (tidy : Tidy state) (found : state.threads[thread]? = some record)

include tidy found

/-- A process ends. -/
theorem Tidy.end_process (user : record.process ≠ 0) (active : record.stage.active = true)
    {final : Stage} (isOver : final = .gone ∨ final = .exiting) (exitCode eax : Nat) :
    Tidy ({ state with table := state.table.ended record.process exitCode }.setThread thread
      { record with stage := final, eax := eax }) := by
  have fits := tidy.fits thread record found
  have isLive := (fits.alive user active).1
  have inactive : final.active = false := by rcases isOver with rfl | rfl <;> rfl
  have free : ∀ phase process pid, final ≠ .holding phase process pid := by
    rintro phase process pid rfl
    cases inactive
  refine tidy.retable ⟨found, rfl, rfl, rfl⟩ rfl rfl ?_ ?_ ?_ ?_ ?_ ?_
  · exact kept_ended state.table record.process exitCode
  · exact tidy.listed.ended isLive exitCode
  · intro process isDetached
    have detached := tidy.detached process isDetached
    have other : process ≠ record.process := by
      rintro rfl
      exact detached.unlisted isLive
    have same := ended_other state.table exitCode other
    exact detached.checked.congr (congrArg Process.magic same) (congrArg Process.state same)
  · refine ⟨fits.given, ?_, ?_⟩
    · intro _ isActive
      rw [inactive] at isActive
      cases isActive
    · intro phase process pid isStage
      exact absurd isStage (free phase process pid)
  · intro other found' different isFound user' active'
    have apart := tidy.other_process found user active different isFound user' active'
    have same := ended_other state.table exitCode apart
    rw [← ((tidy.fits other found' isFound).alive user' active').2.2]
    exact congrArg _ same
  · intro pid holds
    exact absurd holds (not_holds free pid)

/-- Two threads do not hold one process. -/
theorem Tidy.held_apart {process' pid' : Nat} {found' : UserThread}
    (stage : record.stage = .holding phase process pid)
    (isFound : state.threads[other]? = some found')
    (isStage : found'.stage = .holding phase' process' pid') (different : other ≠ thread) :
    process' ≠ process := by
  rintro rfl
  have isPid := ((tidy.fits thread record found).held _ _ _ stage).1
  have isPid' := ((tidy.fits other found' isFound).held _ _ _ isStage).1
  obtain rfl : pid = pid' := isPid.symm.trans isPid'
  exact different (tidy.single other thread found' record pid isFound found
    (holds_of_stage isStage) (holds_of_stage stage))

/-- A waiter takes the process it holds out of the table. -/
theorem Tidy.remove (stage : record.stage = .holding .destroying process pid)
    (listed : Listed table (state.live.erase process))
    (nextPid : table.nextPid = state.table.nextPid) (objects : ∀ other, table.objects other =
      if other ∈ state.live then (state.table.objects other).orphaned pid
      else state.table.objects other) :
    Tidy ({ state with
      table := table
      live := state.live.erase process
      detached := process :: state.detached }.setThread thread
        { record with stage := .holding .removed process pid }) := by
  have fits := tidy.fits thread record found
  obtain ⟨isPid, isLive, -, exited⟩ := fits.held _ _ _ stage
  have isLive := isLive rfl
  have exited := exited rfl
  have nodup : state.live.Nodup := tidy.listed.chained.nodup
  have pids : ∀ other, (table.objects other).pid = (state.table.objects other).pid :=
    orphaned_field Process.pid (fun _ _ => rfl) objects
  have exits : ∀ other, (table.objects other).exited = (state.table.objects other).exited :=
    orphaned_field Process.exited (fun _ _ => rfl) objects
  have mains : ∀ other, (table.objects other).mainThread = (state.table.objects other).mainThread :=
    orphaned_field Process.mainThread (fun _ _ => rfl) objects
  have checks : ∀ other, Checked state.table other → Checked table other := by
    intro other checked
    exact checked.congr (orphaned_field Process.magic (fun _ _ => rfl) objects other)
      (orphaned_field Process.state (fun _ _ => rfl) objects other)
  have running : ∀ other ∈ state.live, (state.table.objects other).exited = false →
      other ∈ state.live.erase process ∧ (table.objects other).exited = false := by
    intro other wasLive unexited
    refine ⟨nodup.mem_erase_iff.mpr ⟨?_, wasLive⟩, by rw [exits, unexited]⟩
    rintro rfl
    rw [exited] at unexited
    cases unexited
  refine tidy.change ⟨found, rfl, rfl, rfl⟩ (show _ = table from rfl)
    (show _ = state.live.erase process from rfl) (show _ = process :: state.detached from rfl)
    ?_ ?_ ?_ ?_ ?_ ?_ ?_
  · exact listed
  · refine List.nodup_cons.mpr ⟨?_, tidy.nodup⟩
    intro isDetached
    exact (tidy.detached process isDetached).unlisted isLive
  · intro other isDetached
    rcases List.mem_cons.mp isDetached with rfl | isDetached
    · refine ⟨checks other (tidy.listed.checked isLive), nodup.not_mem_erase, ?_, ?_⟩
      · rw [pids, nextPid]
        exact (tidy.listed.sound other isLive).given
      · intro other' remains
        rw [pids, pids]
        intro equal
        obtain ⟨different, wasLive⟩ := nodup.mem_erase_iff.mp remains
        exact different (tidy.listed.pid_injective wasLive isLive equal)
    · have detached := tidy.detached other isDetached
      refine ⟨checks other detached.checked, ?_, ?_, ?_⟩
      · intro remains
        exact detached.unlisted (List.mem_of_mem_erase remains)
      · rw [pids, nextPid]
        exact detached.given
      · intro other' remains
        rw [pids, pids]
        exact detached.unlike other' (List.mem_of_mem_erase remains)
  · refine ⟨?_, ?_, ?_⟩
    · rw [nextPid]
      exact fits.given
    · intro user active
      obtain ⟨wasLive, samePid, unexited⟩ := fits.alive user (by simp [stage, Stage.active])
      obtain ⟨stays, still⟩ := running _ wasLive unexited
      exact ⟨stays, by rw [pids, samePid], still⟩
    · intro phase process' pid' isStage
      cases isStage
      refine ⟨by rw [pids, isPid], ?_, ?_, ?_⟩
      · intro absurd
        cases absurd
      · intro _
        exact List.mem_cons_self
      · intro _
        rw [exits, exited]
  · intro other found' different isFound
    apply (tidy.fits other found' isFound).carry (Nat.le_of_eq nextPid.symm) (fun _ _ => pids _)
      (running _)
    intro phase process' pid' isStage
    have apart := tidy.held_apart found stage isFound isStage different
    refine ⟨fun inTable => nodup.mem_erase_iff.mpr ⟨apart, inTable⟩, List.mem_cons_of_mem _, ?_⟩
    rw [exits]
    exact id
  · intro held holds
    exact Or.inl (holds_advance stage rfl holds)
  · intro other isObject
    refine ⟨?_, mains other, pids other⟩
    rcases isObject with remains | isDetached
    · exact Or.inl (List.mem_of_mem_erase remains)
    · rcases List.mem_cons.mp isDetached with rfl | isDetached
      · exact Or.inl isLive
      · exact Or.inr isDetached

/-- A waiter gives up the process it holds. -/
theorem Tidy.discard {eax : Nat} {delivered : List Delivery}
    (stage : record.stage = .holding .closed process pid) :
    Tidy ({ state with
      table := state.table.discarded process
      detached := state.detached.erase process
      delivered := delivered }.setThread thread { record with stage := .user, eax := eax }) := by
  have fits := tidy.fits thread record found
  obtain ⟨isPid, -, isDetached, -⟩ := fits.held _ _ _ stage
  have detached := tidy.detached process (isDetached rfl)
  have others : ∀ other, other ≠ process →
      (state.table.discarded process).objects other = state.table.objects other :=
    fun other different => change_other _ _ different
  have listedOther : ∀ other ∈ state.live, other ≠ process := by
    rintro other isLive rfl
    exact detached.unlisted isLive
  have remaining : ∀ other ∈ state.detached.erase process, other ∈ state.detached ∧ other ≠ process := by
    intro other remains
    obtain ⟨different, wasDetached⟩ := tidy.nodup.mem_erase_iff.mp remains
    exact ⟨wasDetached, different⟩
  have kept := kept_discarded state.table process
  refine tidy.change ⟨found, rfl, rfl, rfl⟩ (show _ = state.table.discarded process from rfl)
    (show _ = state.live from rfl) (show _ = state.detached.erase process from rfl)
    ?_ ?_ ?_ ?_ ?_ ?_ ?_
  · apply tidy.listed.change
    · rfl
    · rfl
    · intro isLive
      exact absurd isLive detached.unlisted
  · exact tidy.nodup.erase process
  · intro other remains
    obtain ⟨wasDetached, different⟩ := remaining other remains
    have old := tidy.detached other wasDetached
    apply old.kept kept
    have same := others other different
    exact old.checked.congr (congrArg Process.magic same) (congrArg Process.state same)
  · refine ⟨fits.given, ?_, ?_⟩
    · intro user _
      have alive := fits.alive user (by simp [stage, Stage.active])
      rw [others _ (listedOther _ alive.1)]
      exact alive
    · intro phase process' pid' isStage
      cases isStage
  · intro other found' different isFound
    apply (tidy.fits other found' isFound).carry (Nat.le_of_eq kept.nextPid.symm)
      (fun _ _ => kept.pid _)
    · intro isLive unexited
      rw [others _ (listedOther _ isLive)]
      exact ⟨isLive, unexited⟩
    · intro phase process' pid' isStage
      have apart := tidy.held_apart found stage isFound isStage different
      exact ⟨id, fun outside => tidy.nodup.mem_erase_iff.mpr ⟨apart, outside⟩, kept.exited process'⟩
  · intro held holds
    cases holds
  · intro other isObject
    refine ⟨?_, kept.mainThread other, kept.pid other⟩
    rcases isObject with isLive | remains
    · exact Or.inl isLive
    · exact Or.inr (remaining other remains).1

end Tidy

/-- A process is launched with its thread. -/
theorem Tidy.launch (tidy : Tidy state) {object parentPid : Nat}
    (fresh : object ∉ state.live ∧ object ∉ state.detached)
    (launched : Launched state.table state.live object parentPid state.threads.length table) :
    Tidy { state with
      table := table
      live := state.live ++ [object]
      threads := state.threads ++ [⟨object, state.table.nextPid, .user, 0, 0, 0⟩] } := by
  have known : ∀ process, process ∈ state.live ∨ process ∈ state.detached →
      table.objects process = state.table.objects process := by
    intro process isObject
    apply launched.kept
    rintro rfl
    exact isObject.elim fresh.1 fresh.2
  have fits : ∀ {record}, Fits state.table state.live state.detached record →
      Fits table (state.live ++ [object]) state.detached record := by
    intro record fits
    apply fits.carry (Nat.le_trans (Nat.le_succ _) (Nat.le_of_eq launched.nextPid.symm))
      (fun process isObject => congrArg Process.pid (known process isObject))
    · intro isLive running
      rw [known _ (Or.inl isLive)]
      exact ⟨List.mem_append_left _ isLive, running⟩
    · intro phase process pid isStage
      rw [known _ (fits.object isStage)]
      exact ⟨List.mem_append_left _, id, id⟩
  -- a thread is an old one or the new one
  have threads : ∀ (other : Nat) found, (state.threads ++
      [(⟨object, state.table.nextPid, .user, 0, 0, 0⟩ : UserThread)])[other]? = some found →
      state.threads[other]? = some found ∨
        other = state.threads.length ∧ found = ⟨object, state.table.nextPid, .user, 0, 0, 0⟩ := by
    intro other found isFound
    by_cases inside : other < state.threads.length
    · rw [List.getElem?_append_left inside] at isFound
      exact Or.inl isFound
    · rw [List.getElem?_append_right (by omega)] at isFound
      obtain ⟨within, rfl⟩ := List.getElem?_eq_some_iff.mp isFound
      simp only [List.length_cons, List.length_nil, Nat.zero_add, Nat.lt_one_iff] at within
      refine Or.inr ⟨by omega, ?_⟩
      simp [within]
  refine ⟨launched.listed, tidy.nodup, ?_, ?_, ?_, ?_, ?_⟩
  · intro process isDetached
    have detached := tidy.detached process isDetached
    have same := known process (Or.inr isDetached)
    refine ⟨detached.checked.congr (congrArg Process.magic same) (congrArg Process.state same), ?_, ?_, ?_⟩
    · intro isLive
      rcases List.mem_append.mp isLive with old | new
      · exact detached.unlisted old
      · rw [List.mem_singleton.mp new] at isDetached
        exact fresh.2 isDetached
    · have given := detached.given
      rw [same, launched.nextPid]
      omega
    · intro other isLive
      rw [same]
      rcases List.mem_append.mp isLive with old | new
      · rw [known other (Or.inl old)]
        exact detached.unlike other old
      · have given := detached.given
        rw [List.mem_singleton.mp new, launched.pid]
        omega
  · intro other found isFound
    rcases threads other found isFound with old | ⟨-, rfl⟩
    · exact fits (tidy.fits other found old)
    · refine ⟨?_, ?_, ?_⟩
      · rw [launched.nextPid]
        exact Nat.lt_succ_self _
      · intro _ _
        exact ⟨Building.member _ _, launched.pid, launched.alive⟩
      · intro phase process pid isStage
        cases isStage
  · intro other other' found found' isFound isFound' user user' same
    rcases threads other found isFound with old | ⟨rfl, rfl⟩ <;>
      rcases threads other' found' isFound' with old' | ⟨rfl, rfl⟩
    · exact tidy.distinct _ _ _ _ old old' user user' same
    · have given := (tidy.fits other found old).given
      rw [same] at given
      exact absurd given (Nat.lt_irrefl _)
    · have given := (tidy.fits other' found' old').given
      rw [← same] at given
      exact absurd given (Nat.lt_irrefl _)
    · rfl
  · intro other other' found found' pid isFound isFound' holds holds'
    rcases threads other found isFound with old | ⟨rfl, rfl⟩
    · rcases threads other' found' isFound' with old' | ⟨rfl, rfl⟩
      · exact tidy.single _ _ _ _ pid old old' holds holds'
      · cases holds'
    · cases holds
  · intro process isObject
    rcases isObject with isLive | isDetached
    · rcases List.mem_append.mp isLive with old | new
      · obtain ⟨owner, isOwner, isProcess, isPid⟩ := tidy.owned process (Or.inl old)
        have inside := (List.getElem?_eq_some_iff.mp isOwner).1
        rw [known process (Or.inl old), List.getElem?_append_left inside]
        exact ⟨owner, isOwner, isProcess, isPid⟩
      · rw [List.mem_singleton.mp new, launched.mainThread, launched.pid]
        refine ⟨⟨object, state.table.nextPid, .user, 0, 0, 0⟩, ?_, rfl, rfl⟩
        simp
    · obtain ⟨owner, isOwner, isProcess, isPid⟩ := tidy.owned process (Or.inr isDetached)
      have inside := (List.getElem?_eq_some_iff.mp isOwner).1
      rw [known process (Or.inr isDetached), List.getElem?_append_left inside]
      exact ⟨owner, isOwner, isProcess, isPid⟩

/-! ## Every effect -/

/-- A process that the thread may start to wait for is held by nobody. -/
def Unheld (state : Collection) (record : UserThread) (piece : Piece) : Prop :=
  ∀ process pid, record.stage = .user → piece.seeks = some pid → process ∈ state.live →
    (state.table.objects process).pid = pid → MayWait state record piece process →
    ∀ found ∈ state.threads, found.holds pid = false

/-- A thread goes to a place where it holds nothing. -/
theorem Tidy.leave (tidy : Tidy state) (turns : Turns state thread record record' next)
    (same : SameProcesses state next)
    (active : record'.stage.active = true → record.stage.active = true)
    (free : ∀ phase process pid, record'.stage ≠ .holding phase process pid) : Tidy next := by
  apply tidy.move turns same
  · exact (tidy.fits thread record turns.found).leave turns.process turns.pid active free
  · intro held holds
    exact absurd holds (not_holds free held)

/-- A waiter goes on with the process it holds. -/
theorem Tidy.advance (tidy : Tidy state) (turns : Turns state thread record record' next)
    (same : SameProcesses state next) (stage : record.stage = .holding phase process pid)
    (stage' : record'.stage = .holding phase' process pid) (listed : phase'.listed = phase.listed)
    (isOver : phase'.isOver = true → (state.table.objects process).exited = true) : Tidy next := by
  apply tidy.move turns same
  · exact (tidy.fits thread record turns.found).advance turns.process turns.pid stage stage' listed
      isOver
  · intro held holds
    exact Or.inl (holds_advance stage stage' holds)

theorem Effect.tidy (tidy : Tidy state) (found : state.threads[thread]? = some record)
    (unheld : Unheld state record piece) (effect : Effect state thread record piece next) : Tidy next := by
  have fits := tidy.fits thread record found
  -- a thread in user mode may answer with another value of `eax`
  have answered : ∀ {eax : Nat} {live : List Nat} {detached : List Nat} {table : ProcessTable},
      record.stage = .user → Fits table live detached record →
      Fits table live detached { record with eax := eax } :=
    fun _ fits => ⟨fits.given, fits.alive, fits.held⟩
  have userFree : record.stage = .user → ∀ phase process pid,
      record.stage ≠ .holding phase process pid := by
    intro stage phase process pid isStage
    rw [stage] at isStage
    cases isStage
  cases effect with
  | answers eax stage =>
    exact tidy.leave ⟨found, rfl, rfl, rfl⟩ ⟨rfl, rfl, rfl⟩ id (userFree stage)
  | rests stage | wakes eax stage | refuses process pid stage =>
    exact tidy.leave ⟨found, rfl, rfl, rfl⟩ ⟨rfl, rfl, rfl⟩ (fun _ => by rw [stage]; rfl) (by simp)
  | finishes stage | reaps stage =>
    exact tidy.leave ⟨found, rfl, rfl, rfl⟩ ⟨rfl, rfl, rfl⟩ (by simp [Stage.active]) (by simp)
  | ends exitCode eax final user stage cause =>
    rcases stage with ⟨stage, rfl⟩ | ⟨stage, rfl⟩
    · exact tidy.end_process found user (by rw [stage]; rfl) (Or.inl rfl) exitCode eax
    · exact tidy.end_process found user (by rw [stage]; rfl) (Or.inr rfl) exitCode eax
  | marks child eax stage user member isChild killable =>
    refine tidy.rewrite ⟨found, rfl, rfl, rfl⟩ (show _ = state.table.change child
      (fun fields => { fields with killRequested := true }) from rfl) rfl rfl
      ?_ (request_kill_listed tidy.listed member killable) (answered stage fits) fun pid holds => holds
    constructor <;> intro fields <;> rfl
  | files eax fds stage user =>
    have isLive := (fits.alive user (by rw [stage]; rfl)).1
    refine tidy.rewrite ⟨found, rfl, rfl, rfl⟩ (show _ = state.table.change record.process
      (fun fields => { fields with fds := fds }) from rfl) rfl rfl ?_ ?_ (answered stage fits)
      fun pid holds => holds
    · constructor <;> intro fields <;> rfl
    · exact tidy.listed.change_user isLive (by constructor <;> intro fields <;> rfl)
  | launches object eax table stage fresh launched =>
    have moved : Tidy (state.setThread thread { record with eax := eax }) :=
      tidy.leave ⟨found, rfl, rfl, rfl⟩ ⟨rfl, rfl, rfl⟩ id (userFree stage)
    have length : (state.setThread thread { record with eax := eax }).threads.length =
        state.threads.length := List.length_set
    rw [← length] at launched
    exact moved.launch fresh launched
  | finds process pid userStatus stage seeks member isPid caller =>
    refine tidy.move ⟨found, rfl, rfl, rfl⟩ ⟨rfl, rfl, rfl⟩ ?_ ?_
    · refine fits.restage rfl rfl (fun _ => by rw [stage]; rfl) ?_
      intro phase process' pid' isStage
      cases isStage
      exact ⟨isPid, fun _ => member, fun absurd => (by cases absurd), fun absurd => (by cases absurd)⟩
    · intro held holds
      right
      intro other found' isFound
      have same : pid = held := of_decide_eq_true holds
      rw [← same]
      exact unheld process pid stage seeks member isPid caller found' (List.mem_of_getElem? isFound)
  | enters process pid stage =>
    exact tidy.advance ⟨found, rfl, rfl, rfl⟩ ⟨rfl, rfl, rfl⟩ stage rfl rfl (fun absurd => by cases absurd)
  | tests process pid stage => exact tidy
  | sees process pid stage exited =>
    exact tidy.advance ⟨found, rfl, rfl, rfl⟩ ⟨rfl, rfl, rfl⟩ stage rfl rfl (fun _ => exited)
  | collects process pid _ stage | destroys process pid stage =>
    exact tidy.advance ⟨found, rfl, rfl, rfl⟩ ⟨rfl, rfl, rfl⟩ stage rfl rfl
      (fits.held _ _ _ stage).2.2.2
  | removes process pid table stage listed nextPid objects =>
    exact tidy.remove found stage listed nextPid objects
  | closes process pid stage =>
    refine tidy.rewrite ⟨found, rfl, rfl, rfl⟩ (show _ = state.table.change process
      (fun fields => { fields with fds := closedFds fields.fds }) from rfl) rfl rfl
      ?_ ?_ (fits.advance rfl rfl stage rfl rfl (fits.held _ _ _ stage).2.2.2)
      fun held holds => holds_advance stage rfl holds
    · constructor <;> intro fields <;> rfl
    · apply tidy.listed.change
      · rfl
      · rfl
      · intro isLive
        have isDetached := (fits.held _ _ _ stage).2.2.1 rfl
        exact absurd isLive (tidy.detached process isDetached).unlisted
  | discards process pid stage => exact tidy.discard found stage

/-! ## What an effect leaves alone -/

section Effect

variable (effect : Effect state thread record piece next)

include effect

/-- A thread other than the one that runs keeps its record. -/
theorem Effect.others {found : UserThread} (different : other ≠ thread)
    (isFound : state.threads[other]? = some found) : next.threads[other]? = some found := by
  have kept : ∀ record' : UserThread, (state.threads.set thread record')[other]? = some found := by
    intro record'
    rw [List.getElem?_set_ne (Ne.symm different)]
    exact isFound
  cases effect with
  | tests process pid stage => exact isFound
  | launches object eax table stage fresh launched =>
    have inside := (List.getElem?_eq_some_iff.mp isFound).1
    rw [List.getElem?_append_left (by rw [List.length_set]; exact inside)]
    exact kept _
  | _ => exact kept _

theorem Effect.stale : next.stale = state.stale := by
  cases effect <;> rfl

/-- Apart from a launch, no process appears in the table, and those there keep their pid. -/
theorem Effect.kept_or_launched :
    (Kept state.table next.table ∧ ∀ process ∈ next.live, process ∈ state.live) ∨
      ∃ object parentPid, object ∉ state.live ∧ next.live = state.live ++ [object] ∧
        Launched state.table state.live object parentPid state.threads.length next.table := by
  have unchanged : Kept state.table state.table :=
    ⟨rfl, fun _ => rfl, fun _ => rfl, fun _ exited => exited⟩
  cases effect with
  | launches object eax table stage fresh launched =>
    exact Or.inr ⟨object, _, fresh.1, rfl, launched⟩
  | removes removed pid table stage listed nextPid objects =>
    exact Or.inl ⟨kept_orphaned nextPid objects, fun process => List.mem_of_mem_erase⟩
  | ends exitCode eax final user stage cause =>
    exact Or.inl ⟨kept_ended _ _ _, fun _ member => member⟩
  | marks child eax stage user isLive isChild killable =>
    exact Or.inl ⟨kept_marked _ _, fun _ member => member⟩
  | files eax fds stage user => exact Or.inl ⟨kept_files _ _ _, fun _ member => member⟩
  | closes closed pid stage => exact Or.inl ⟨kept_files_closed _ _, fun _ member => member⟩
  | discards discarded pid stage => exact Or.inl ⟨kept_discarded _ _, fun _ member => member⟩
  | _ => exact Or.inl ⟨unchanged, fun _ member => member⟩

/-- A process in the table with an old pid was there before. -/
theorem Effect.was_live (member : process ∈ next.live)
    (old : (next.table.objects process).pid < state.table.nextPid) :
    process ∈ state.live ∧
      (next.table.objects process).pid = (state.table.objects process).pid := by
  rcases effect.kept_or_launched with ⟨kept, live⟩ | ⟨object, parentPid, fresh, live, launched⟩
  · exact ⟨live process member, kept.pid process⟩
  · rw [live] at member
    rcases List.mem_append.mp member with wasLive | new
    · refine ⟨wasLive, congrArg Process.pid (launched.kept process ?_)⟩
      rintro rfl
      exact fresh wasLive
    · rw [List.mem_singleton.mp new, launched.pid] at old
      exact absurd old (Nat.lt_irrefl _)

theorem Effect.next_pid_le : state.table.nextPid ≤ next.table.nextPid := by
  rcases effect.kept_or_launched with ⟨kept, -⟩ | ⟨object, parentPid, -, -, launched⟩
  · exact Nat.le_of_eq kept.nextPid.symm
  · rw [launched.nextPid]
    exact Nat.le_succ _

end Effect

/-- `process_destroy` is entered by a waiter that has collected the process. -/
theorem Effect.destroys_cases (found : state.threads[thread]? = some record)
    (effect : Effect state thread record piece next) :
    next.destroys = state.destroys ∨ ∃ process pid,
      record.stage = .holding .collected process pid ∧
      next.destroys = Function.update state.destroys pid (state.destroys pid + 1) ∧
      ∃ record', next.threads[thread]? = some record' ∧
        record'.stage = .holding .destroying process pid := by
  cases effect with
  | destroys process pid stage isPiece =>
    refine Or.inr ⟨process, pid, stage, rfl,
      { record with stage := .holding .destroying process pid }, ?_, rfl⟩
    simp only [Collection.setThread]
    rw [List.getElem?_set_self', found]
    rfl
  | _ => exact Or.inl rfl

/-- A waiter stays inside `process_destroy` until the process is out of the table. -/
theorem Effect.destroying_kept (tidy : Tidy state) (found : state.threads[thread]? = some record)
    (effect : Effect state thread record piece next) {found' : UserThread}
    (isFound : state.threads[other]? = some found')
    (isStage : found'.stage = .holding .destroying process pid) (member : process ∈ next.live) :
    ∃ record', next.threads[other]? = some record' ∧
      record'.stage = .holding .destroying process pid := by
  by_cases same : other = thread
  · subst same
    obtain rfl : found' = record := Option.some.inj (isFound.symm.trans found)
    cases effect with
    | tests process' pid' stage =>
      rw [isStage] at stage
      cases stage
    | removes process' pid' table stage listed nextPid objects =>
      rw [isStage] at stage
      cases stage
      exact absurd member tidy.listed.chained.nodup.not_mem_erase
    | ends exitCode eax final user stage cause =>
      rw [isStage] at stage
      rcases stage with ⟨stage, -⟩ | ⟨stage, -⟩ <;> cases stage
    | answers _ stage | rests stage | wakes _ stage | finishes stage | reaps stage
    | marks _ _ stage | files _ _ stage | launches _ _ _ stage | finds _ _ _ stage
    | enters _ _ stage | sees _ _ stage | collects _ _ _ stage | refuses _ _ stage
    | destroys _ _ stage | closes _ _ stage | discards _ _ stage =>
      rw [isStage] at stage
      cases stage
  · exact ⟨found', effect.others same isFound, isStage⟩

/-! ## Runs -/

/-- Runs from kernel threads and no process. -/
def CollectionReachable (allowed : Collection → Piece → Prop) (state : Collection) : Prop :=
  ∃ objects links kernelThreads,
    Reaches Collection.step allowed (Collection.boot objects links kernelThreads) state

theorem boot_record {objects : Nat → Process} {links : Fields Nat} {kernelThreads : Nat}
    {found : UserThread}
    (isFound : (Collection.boot objects links kernelThreads).threads[other]? = some found) :
    found = ⟨0, 0, .user, 0, 0, 0⟩ :=
  List.eq_of_mem_replicate (List.mem_of_getElem? isFound)

theorem boot_tidy (objects : Nat → Process) (links : Fields Nat) (kernelThreads : Nat) :
    Tidy (Collection.boot objects links kernelThreads) := by
  refine ⟨init_listed objects links, List.nodup_nil, ?_, ?_, ?_, ?_, ?_⟩
  · intro process isDetached
    cases isDetached
  · intro other found isFound
    rw [boot_record isFound]
    refine ⟨Nat.zero_lt_one, fun absurd => (absurd rfl).elim, ?_⟩
    intro phase process pid isStage
    cases isStage
  · intro other other' found found' isFound _ user
    rw [boot_record isFound] at user
    exact absurd rfl user
  · intro other other' found found' pid isFound _ holds
    rw [boot_record isFound] at holds
    cases holds
  · intro process isObject
    rcases isObject with isLive | isDetached
    · cases isLive
    · cases isDetached

/-- A pid whose process was destroyed is not destroyed again. -/
structure Once (state : Collection) : Prop where
  tidy : Tidy state
  fresh : state.stale = false
  bounded : ∀ pid, state.destroys pid ≤ 1
  given : ∀ pid, state.destroys pid ≠ 0 → pid < state.table.nextPid
  entered : ∀ pid, state.destroys pid ≠ 0 → ∀ process ∈ state.live,
    (state.table.objects process).pid = pid → ∃ (thread : Nat) (record : UserThread),
      state.threads[thread]? = some record ∧ record.stage = .holding .destroying process pid

/-- A waiter that is about to destroy a process is the first one to do so. -/
theorem Once.first (once : Once state) (found : state.threads[thread]? = some record)
    (stage : record.stage = .holding .collected process pid) : state.destroys pid = 0 := by
  by_contra before
  obtain ⟨isPid, isLive, -, -⟩ := (once.tidy.fits thread record found).held _ _ _ stage
  obtain ⟨other, found', isFound, isStage⟩ := once.entered pid before process (isLive rfl) isPid
  obtain rfl : other = thread := once.tidy.single other thread found' record pid isFound found
    (holds_of_stage isStage) (holds_of_stage stage)
  obtain rfl : found' = record := Option.some.inj (isFound.symm.trans found)
  rw [stage] at isStage
  cases isStage

theorem Effect.once (once : Once state) (found : state.threads[thread]? = some record)
    (unheld : Unheld state record piece) (effect : Effect state thread record piece next) :
    Once next := by
  have tidy' := effect.tidy once.tidy found unheld
  -- a pid that was destroyed before is held as it was, or out of the table
  have old : ∀ pid, state.destroys pid ≠ 0 → ∀ process ∈ next.live,
      (next.table.objects process).pid = pid → ∃ (thread : Nat) (record : UserThread),
        next.threads[thread]? = some record ∧ record.stage = .holding .destroying process pid := by
    intro pid before process member isPid
    have given := once.given pid before
    rw [← isPid] at given
    obtain ⟨wasLive, same⟩ := effect.was_live member given
    obtain ⟨other, found', isFound, isStage⟩ :=
      once.entered pid before process wasLive (same.symm.trans isPid)
    exact ⟨other, effect.destroying_kept once.tidy found isFound isStage member⟩
  rcases effect.destroys_cases found with same | ⟨process, pid, stage, same, record', isFound, isStage⟩
  · refine ⟨tidy', effect.stale.trans once.fresh, ?_, ?_, ?_⟩
    · rw [same]
      exact once.bounded
    · rw [same]
      intro pid before
      exact Nat.lt_of_lt_of_le (once.given pid before) effect.next_pid_le
    · rw [same]
      exact old
  · have first := once.first found stage
    obtain ⟨isPid, isLive, -, -⟩ := (once.tidy.fits thread record found).held _ _ _ stage
    refine ⟨tidy', effect.stale.trans once.fresh, ?_, ?_, ?_⟩
    · intro other
      rw [same]
      by_cases equal : other = pid
      · rw [equal, Function.update_self]
        omega
      · rw [Function.update_of_ne equal]
        exact once.bounded other
    · intro other before
      rw [same] at before
      by_cases equal : other = pid
      · have given := (once.tidy.listed.sound process (isLive rfl)).given
        rw [equal, ← isPid]
        exact Nat.lt_of_lt_of_le given effect.next_pid_le
      · rw [Function.update_of_ne equal] at before
        exact Nat.lt_of_lt_of_le (once.given other before) effect.next_pid_le
    · intro other before other' member isOther
      rw [same] at before
      by_cases equal : other = pid
      · subst equal
        have held := (tidy'.fits thread record' isFound).held _ _ _ isStage
        obtain rfl : other' = process :=
          tidy'.listed.pid_injective member (held.2.1 rfl) (isOther.trans held.1.symm)
        exact ⟨thread, record', isFound, isStage⟩
      · rw [Function.update_of_ne equal] at before
        exact old other before other' member isOther

/-- Nobody starts to wait for a process that another thread is waiting for or destroying. -/
def WaitsAlone (state : Collection) (piece : Piece) : Prop :=
  ∀ record, state.threads[piece.thread]? = some record → Unheld state record piece

/-- In every run in which nobody starts to wait for a process that another thread is waiting
for or destroying, `process_destroy` is entered at most once for every pid and no waiter
touches an object that is not the process it found. -/
theorem collected_once (state : Collection)
    (reached : CollectionReachable (fun state piece => FreshObject state piece ∧
      WaitsAlone state piece) state) :
    state.stale = false ∧ ∀ pid, state.destroys pid ≤ 1 := by
  obtain ⟨objects, links, kernelThreads, run⟩ := reached
  have initially : Once (Collection.boot objects links kernelThreads) :=
    ⟨boot_tidy objects links kernelThreads, rfl, fun _ => Nat.zero_le 1,
      fun _ before => absurd rfl before, fun _ before => absurd rfl before⟩
  have once := run.invariant Once initially (by
    intro state piece next once allowed taken
    obtain ⟨thread, record, found, runs, effect⟩ := step_effect once.tidy allowed.1 taken
    refine effect.once once found ?_
    rcases runs with rfl | gone
    · exact allowed.2 record found
    · intro process pid user
      rw [gone] at user
      cases user)
  exact ⟨once.fresh, once.bounded⟩

instance (state : Collection) (piece : Piece) : Decidable (FreshObject state piece) :=
  match piece with
  | .exec _ _ _ _ _ _ _ => inferInstanceAs (Decidable (_ ∧ _))
  | .rest _ | .wake _ _ | .finish _ | .exit _ _ | .kill _ _ | .call _ _ _ | .waitpid _ _ _
  | .monitorWait _ _ | .enter _ | .test _ | .collect _ _ | .destroy _ | .remove _ | .close _
  | .discard _ | .reap _ _ => isTrue trivial

/-- Nobody holds a process with the pid that the piece looks for. -/
def aloneCheck (state : Collection) (piece : Piece) : Bool :=
  match piece.seeks with
  | some pid => state.threads.all fun record => !record.holds pid
  | none => true

theorem waits_alone_of_check (checked : aloneCheck state piece = true) : WaitsAlone state piece := by
  intro record found process pid stage seeks member isPid caller other isOther
  rw [aloneCheck, seeks] at checked
  have free := List.all_eq_true.mp checked other isOther
  simpa using free

/-- One kernel thread before anything was created. -/
def emptyCollection : Collection :=
  .boot (fun _ => Process.cleared) ⟨fun _ => 0, fun _ => 0⟩ 1

/-- What is seen after an executed run from the empty table. -/
theorem collection_run_facts {allowed : Collection → Piece → Prop}
    [∀ state piece, Decidable (allowed state piece)] {pieces : List Piece} {β : Type}
    {facts : Collection → β} {values : β}
    (completed : (runAll Collection.step allowed pieces emptyCollection).map facts = some values) :
    ∃ state, CollectionReachable allowed state ∧ facts state = values := by
  obtain ⟨state, reached, seen⟩ := Reaches.of_facts completed
  exact ⟨state, ⟨fun _ => Process.cleared, ⟨fun _ => 0, fun _ => 0⟩, 1, reached⟩, seen⟩

theorem CollectionReachable.mono {allowed allowed' : Collection → Piece → Prop}
    (reached : CollectionReachable allowed state)
    (weaken : ∀ state piece, allowed state piece → allowed' state piece) :
    CollectionReachable allowed' state := by
  obtain ⟨objects, links, kernelThreads, run⟩ := reached
  exact ⟨objects, links, kernelThreads, run.mono weaken⟩

/-- The kernel starts a process, which starts a child; the child exits with 7. -/
def childExits : List Piece :=
  [.exec 0 0x1000 0x2000 0x1000000 0x6FFFF000 0x70000000 0x6FFFFFF0,
   .exec 1 0x1100 0x2100 0x1000000 0x6FFFF000 0x70000000 0x6FFFFFF0,
   .exit 2 7]

set_option maxRecDepth 100000 in
/-- A parent collects its child. -/
theorem child_collected_once : ∃ state : Collection, state.live = [0x1000] ∧
    state.delivered = [⟨2, 7⟩] ∧ state.destroys 2 = 1 ∧
    state.stale = false ∧ ∀ pid, state.destroys pid ≤ 1 := by
  have completed : ((runAll Collection.step (fun state piece => FreshObject state piece ∧
      aloneCheck state piece = true) (childExits ++ [.waitpid 1 2 0x6FFFFF00, .enter 1, .test 1,
        .collect 1 true, .destroy 1, .remove 1, .close 1, .discard 1]) emptyCollection).map
          fun state => (state.live, state.delivered, state.destroys 2)) =
            some ([0x1000], [⟨2, 7⟩], 1) := by decide +kernel
  obtain ⟨state, reached, shape⟩ := collection_run_facts completed
  simp only [Prod.mk.injEq] at shape
  exact ⟨state, shape.1, shape.2.1, shape.2.2, collected_once state
    (reached.mono fun _ _ checked => ⟨checked.1, waits_alone_of_check checked.2⟩)⟩

set_option maxRecDepth 100000 in
/-- The parent and the kernel's monitor wait for the same child. In one run both enter
`process_destroy`; in another the monitor is done before the parent looks at the object
again. -/
theorem child_collected_twice :
    (∃ state : Collection, CollectionReachable FreshObject state ∧ state.destroys 2 = 2) ∧
      ∃ state : Collection, CollectionReachable FreshObject state ∧ state.stale = true := by
  constructor
  · have completed : ((runAll Collection.step FreshObject
        (childExits ++ [.waitpid 1 2 0, .monitorWait 0 2, .enter 1, .enter 0, .test 1, .test 0,
          .collect 1 true, .collect 0 true, .destroy 1, .destroy 0]) emptyCollection).map
            fun state => state.destroys 2) = some 2 := by decide +kernel
    exact collection_run_facts completed
  · have completed : ((runAll Collection.step FreshObject
        (childExits ++ [.waitpid 1 2 0, .monitorWait 0 2, .enter 1, .enter 0, .test 0,
          .collect 0 true, .destroy 0, .remove 0, .close 0, .discard 0, .test 1])
            emptyCollection).map fun state => state.stale) = some true := by decide +kernel
    exact collection_run_facts completed

end Toyix.Processes
