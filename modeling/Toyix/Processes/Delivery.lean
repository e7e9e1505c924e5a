import Toyix.Processes.Lifetime

/-!
# The exit status of a child

A process exits once. Its exit code is written then and never again, and a kill request that
comes later is refused. A kill request that comes before is noticed at the next call that
asks for it, or when the process wakes inside `SYS_SLEEP` or `SYS_READ` of standard input.

The parent's `SYS_WAITPID` reads the exit code, copies it and takes the child away. It returns 0
at most once for a child. When it returns -1 the child is still in the table.
-/

namespace Toyix.Processes

open Library Library.Links

variable {table : ProcessTable} {live : List Nat} {process : Nat}
  {state next : Collection} {thread : Nat} {record : UserThread} {piece : Piece} {pid : Nat}
  {record' : UserThread}

/-! ## What stays after an exit -/

/-- The process is an object, in the table or not. -/
def Collection.HasObject (state : Collection) (process : Nat) : Prop :=
  process ∈ state.live ∨ process ∈ state.detached

/-- In another table a process that has exited has its exit code, and a live one that was asked to end
still has to, or has exited. -/
def FieldsKept (state : Collection) (process : Nat) (table : ProcessTable) : Prop :=
  ((state.table.objects process).exited = true → (table.objects process).exited = true ∧
    (table.objects process).exitCode = (state.table.objects process).exitCode) ∧
  (process ∈ state.live → (state.table.objects process).killRequested = true →
    (table.objects process).exited = true ∨ (table.objects process).killRequested = true)

theorem FieldsKept.of_same {table : ProcessTable}
    (exited : (table.objects process).exited = (state.table.objects process).exited)
    (exitCode : (table.objects process).exitCode = (state.table.objects process).exitCode)
    (kill : process ∈ state.live → (state.table.objects process).killRequested = true →
      (table.objects process).killRequested = true) : FieldsKept state process table :=
  ⟨fun isExited => ⟨exited.trans isExited, exitCode⟩, fun isLive asked => Or.inr (kill isLive asked)⟩

/-- The process with a pid has exited with a code. -/
def Settled (pid exitCode : Nat) (state : Collection) : Prop :=
  pid < state.table.nextPid ∧ ∀ process, state.HasObject process →
    (state.table.objects process).pid = pid → (state.table.objects process).exited = true ∧
      (state.table.objects process).exitCode = exitCode

/-- The process with a pid has been asked to end, if it has not ended yet. -/
def Doomed (pid : Nat) (state : Collection) : Prop :=
  pid < state.table.nextPid ∧ ∀ process ∈ state.live, (state.table.objects process).pid = pid →
    (state.table.objects process).exited = true ∨
      (state.table.objects process).killRequested = true

section Effect

variable (tidy : Tidy state) (found : state.threads[thread]? = some record)
  (effect : Effect state thread record piece next)

include tidy found effect

/-- An object with an old pid was there before. -/
theorem Effect.was_object (isObject : next.HasObject process)
    (old : (next.table.objects process).pid < state.table.nextPid) :
    state.HasObject process ∧
      (next.table.objects process).pid = (state.table.objects process).pid := by
  rcases isObject with isLive | isDetached
  · obtain ⟨wasLive, same⟩ := effect.was_live isLive old
    exact ⟨Or.inl wasLive, same⟩
  · have before : state.HasObject process := by
      cases effect with
      | removes removed pid table stage listed nextPid objects =>
        rcases List.mem_cons.mp isDetached with rfl | wasDetached
        · exact Or.inl (((tidy.fits thread record found).held _ _ _ stage).2.1 rfl)
        · exact Or.inr wasDetached
      | discards discarded pid stage => exact Or.inr (List.mem_of_mem_erase isDetached)
      | _ => exact Or.inr isDetached
    refine ⟨before, ?_⟩
    rcases effect.kept_or_launched with ⟨kept, -⟩ | ⟨object, parentPid, fresh, live, launched⟩
    · exact kept.pid process
    · refine congrArg Process.pid (launched.kept process ?_)
      rintro rfl
      rw [launched.pid] at old
      exact Nat.lt_irrefl _ old

/-- An effect changes neither the exit code of a process that has exited, nor does it take
back a kill request. -/
theorem Effect.fields_kept (isObject : state.HasObject process) :
    FieldsKept state process next.table := by
  have changed : ∀ (object : Nat) {update : Process → Process} {table : ProcessTable},
      table.objects = (state.table.change object update).objects →
      (∀ fields, (update fields).exited = fields.exited) →
      (∀ fields, (update fields).exitCode = fields.exitCode) →
      (process = object → process ∈ state.live →
        ∀ fields, fields.killRequested = true → (update fields).killRequested = true) →
      FieldsKept state process table := by
    intro object update table isTable exited exitCode kill
    apply FieldsKept.of_same <;> rw [isTable]
    · exact change_field state.table Process.exited (exited _) process
    · exact change_field state.table Process.exitCode (exitCode _) process
    · by_cases same : process = object
      · rw [same, change_self]
        exact fun isLive => kill same (same ▸ isLive) _
      · rw [change_other _ _ same]
        exact fun _ asked => asked
  cases effect with
  | launches object eax table stage fresh launched =>
    have same : table.objects process = state.table.objects process := by
      apply launched.kept
      rintro rfl
      exact isObject.elim fresh.1 fresh.2
    exact .of_same (congrArg Process.exited same) (congrArg Process.exitCode same)
      fun _ asked => (congrArg Process.killRequested same).trans asked
  | removes removed pid table stage listed nextPid objects =>
    exact .of_same (orphaned_field Process.exited (fun _ _ => rfl) objects process)
      (orphaned_field Process.exitCode (fun _ _ => rfl) objects process)
      fun _ asked => (orphaned_field Process.killRequested (fun _ _ => rfl) objects process).trans asked
  | ends exitCode eax final user stage cause =>
    have running : (state.table.objects record.process).exited = false := by
      refine ((tidy.fits thread record found).alive user ?_).2.2
      rcases stage with ⟨stage, -⟩ | ⟨stage, -⟩ <;> rw [stage] <;> rfl
    by_cases same : process = record.process
    · have exits : ((state.table.ended record.process exitCode).objects record.process).exited = true := by
        rw [ended_self]
      rw [same]
      exact ⟨fun absurd => Bool.noConfusion (running.symm.trans absurd), fun _ _ => Or.inl exits⟩
    · have same := ended_other state.table exitCode same
      exact .of_same (congrArg Process.exited same) (congrArg Process.exitCode same)
        fun _ asked => (congrArg Process.killRequested same).trans asked
  | marks child eax stage user isLive isChild killable =>
    exact changed child rfl (fun _ => rfl) (fun _ => rfl) (fun _ _ _ _ => rfl)
  | files eax fds stage user =>
    exact changed record.process rfl (fun _ => rfl) (fun _ => rfl) (fun _ _ _ asked => asked)
  | closes closed pid stage =>
    exact changed closed rfl (fun _ => rfl) (fun _ => rfl) (fun _ _ _ asked => asked)
  | discards discarded pid stage =>
    refine changed discarded rfl (fun _ => rfl) (fun _ => rfl) ?_
    rintro rfl isLive
    have isDetached := ((tidy.fits thread record found).held _ _ _ stage).2.2.1 rfl
    exact absurd isLive (tidy.detached process isDetached).unlisted
  | _ => exact .of_same rfl rfl fun _ asked => asked

theorem Effect.settled {exitCode : Nat} (settled : Settled pid exitCode state) :
    Settled pid exitCode next := by
  refine ⟨Nat.lt_of_lt_of_le settled.1 effect.next_pid_le, ?_⟩
  intro process isObject isPid
  have old : (next.table.objects process).pid < state.table.nextPid := by
    rw [isPid]
    exact settled.1
  obtain ⟨wasObject, same⟩ := effect.was_object tidy found isObject old
  obtain ⟨exited, isCode⟩ := settled.2 process wasObject (same.symm.trans isPid)
  obtain ⟨stays, sameCode⟩ := (effect.fields_kept tidy found wasObject).1 exited
  exact ⟨stays, sameCode.trans isCode⟩

theorem Effect.doomed (doomed : Doomed pid state) : Doomed pid next := by
  refine ⟨Nat.lt_of_lt_of_le doomed.1 effect.next_pid_le, ?_⟩
  intro process isLive isPid
  have old : (next.table.objects process).pid < state.table.nextPid := by
    rw [isPid]
    exact doomed.1
  obtain ⟨wasLive, same⟩ := effect.was_live isLive old
  have kept := effect.fields_kept tidy found (Or.inl wasLive)
  rcases doomed.2 process wasLive (same.symm.trans isPid) with exited | asked
  · exact Or.inl (kept.1 exited).1
  · exact kept.2 wasLive asked

end Effect

/-! ## The status a waiter has read -/

/-- The waiter has read the exit code and copied it. -/
def Phase.hasRead : Phase → Bool
  | .found => false
  | .waiting => false
  | .exited => false
  | _ => true

/-- Waiters have read the exit code of the process they hold, and what was delivered belongs
to processes that are gone. -/
structure Audited (state : Collection) : Prop extends Fostered state where
  read : ∀ (thread : Nat) record phase process pid, state.threads[thread]? = some record →
    record.stage = .holding phase process pid → phase.hasRead = true →
    record.status = (state.table.objects process).exitCode ∧
      (record.userStatus ≠ 0 → ⟨pid, record.status⟩ ∈ state.stored)
  gone : ∀ delivery ∈ state.delivered, delivery.pid < state.table.nextPid ∧
    ∀ process, state.HasObject process → (state.table.objects process).pid ≠ delivery.pid
  nodup : (state.delivered.map Delivery.pid).Nodup

/-- A waiter that has read the exit code had read it before or reads it now. -/
theorem Effect.read_cases (found : state.threads[thread]? = some record)
    (effect : Effect state thread record piece next) {other : Nat} {found' : UserThread}
    (isFound : next.threads[other]? = some found') {phase : Phase} {process : Nat}
    (isStage : found'.stage = .holding phase process pid) (hasRead : phase.hasRead = true) :
    (∃ old phase', state.threads[other]? = some old ∧ old.stage = .holding phase' process pid ∧
        phase'.hasRead = true ∧ old.status = found'.status ∧ old.userStatus = found'.userStatus) ∨
      (∃ old, state.threads[other]? = some old ∧ old.stage = .holding .exited process pid ∧
        old.process = found'.process ∧ found'.status = (state.table.objects process).exitCode ∧
        (found'.process = 0 ∨ found'.userStatus = 0 ∨ ⟨pid, found'.status⟩ ∈ next.stored)) := by
  by_cases same : other = thread
  · subst same
    cases effect with
    | tests process' pid' stage =>
      obtain rfl : found' = record := Option.some.inj (isFound.symm.trans found)
      exact Or.inl ⟨found', phase, found, isStage, hasRead, rfl, rfl⟩
    | launches object eax table stage fresh launched =>
      have inside := (List.getElem?_eq_some_iff.mp found).1
      rw [List.getElem?_append_left (by rw [List.length_set]; exact inside)] at isFound
      obtain rfl := set_thread_found isFound
      exact Or.inl ⟨record, phase, found, isStage, hasRead, rfl, rfl⟩
    | collects process' pid' stored stage copied =>
      obtain rfl := set_thread_found isFound
      cases isStage
      refine Or.inr ⟨record, found, stage, rfl, rfl, ?_⟩
      rcases copied with ⟨-, kernel | silent⟩ | rfl
      · exact Or.inl kernel
      · exact Or.inr (Or.inl silent)
      · exact Or.inr (Or.inr List.mem_cons_self)
    | destroys _ _ stage | removes _ _ _ stage | closes _ _ stage =>
      obtain rfl := set_thread_found isFound
      cases isStage
      exact Or.inl ⟨record, _, found, stage, rfl, rfl, rfl⟩
    | finds | enters | sees =>
      obtain rfl := set_thread_found isFound
      cases isStage
      cases hasRead
    | answers | marks | files =>
      obtain rfl := set_thread_found isFound
      exact Or.inl ⟨record, phase, found, isStage, hasRead, rfl, rfl⟩
    | ends exitCode eax final notKernel stage cause =>
      obtain rfl := set_thread_found isFound
      rcases stage with ⟨-, rfl⟩ | ⟨-, rfl⟩ <;> cases isStage
    | rests | wakes | finishes | reaps | refuses | discards =>
      obtain rfl := set_thread_found isFound
      cases isStage
  · rcases effect.threads_cases found isFound with ⟨-, wasFound⟩ | ⟨absurd, -⟩ | ⟨user, -⟩
    · exact Or.inl ⟨found', phase, wasFound, isStage, hasRead, rfl, rfl⟩
    · exact (same absurd).elim
    · rw [isStage] at user
      cases user

/-- What was stored stays stored. -/
theorem Effect.stored_kept (effect : Effect state thread record piece next) {delivery : Delivery}
    (stored : delivery ∈ state.stored) : delivery ∈ next.stored := by
  cases effect with
  | collects process pid stored' stage copied =>
    rcases copied with ⟨rfl, -⟩ | rfl
    · exact stored
    · exact List.mem_cons_of_mem _ stored
  | _ => exact stored

/-- A status is delivered when the waiter gives the process up. -/
theorem Effect.delivered_cases (effect : Effect state thread record piece next) :
    next.delivered = state.delivered ∨ ∃ process pid,
      record.stage = .holding .closed process pid ∧
      next.delivered = ⟨pid, record.status⟩ :: state.delivered ∧ next.live = state.live ∧
      next.detached = state.detached.erase process ∧
      next.table = state.table.discarded process := by
  cases effect with
  | discards process pid stage =>
    by_cases kernel : record.process = 0
    · left
      exact if_pos kernel
    · right
      exact ⟨process, pid, stage, if_neg kernel, rfl, rfl, rfl⟩
  | _ => exact Or.inl rfl

/-- Two objects have different pids, since they have different threads. -/
theorem Tidy.object_injective (tidy : Tidy state) {process' : Nat}
    (isObject : state.HasObject process) (isObject' : state.HasObject process')
    (same : (state.table.objects process).pid = (state.table.objects process').pid) :
    process = process' := by
  obtain ⟨main, isMain, isProcess, isPid⟩ := tidy.owned process isObject
  obtain ⟨main', isMain', isProcess', isPid'⟩ := tidy.owned process' isObject'
  have sameThread := tidy.distinct _ _ main main' isMain isMain'
    (by rw [isProcess]; exact (tidy.checked isObject).notNull)
    (by rw [isProcess']; exact (tidy.checked isObject').notNull) (by rw [isPid, isPid', same])
  rw [sameThread] at isMain
  obtain rfl : main = main' := Option.some.inj (isMain.symm.trans isMain')
  exact isProcess.symm.trans isProcess'

theorem Effect.audited (audited : Audited state) (found : state.threads[thread]? = some record)
    (call : SystemCall piece) (effect : Effect state thread record piece next) : Audited next := by
  have tidy := audited.tidy
  have fostered' := effect.fostered audited.toFostered found call
  refine ⟨fostered', ?_, ?_, ?_⟩
  · intro other found' phase process pid isFound isStage hasRead
    have notKernel := (fostered'.parents other found' phase process pid isFound isStage).1
    rcases effect.read_cases found isFound isStage hasRead with
      ⟨old, phase', wasFound, wasStage, hadRead, sameStatus, sameUser⟩ |
        ⟨old, wasFound, wasStage, -, isStatus, copied⟩
    · obtain ⟨isStatus, isStored⟩ := audited.read other old phase' process pid wasFound wasStage hadRead
      have exited : (state.table.objects process).exited = true := by
        apply ((tidy.fits other old wasFound).held _ _ _ wasStage).2.2.2
        cases phase' <;> first | rfl | cases hadRead
      have kept := (effect.fields_kept tidy found ((tidy.fits other old wasFound).object wasStage)).1 exited
      rw [← sameStatus, ← sameUser]
      exact ⟨isStatus.trans kept.2.symm, fun copied => effect.stored_kept (isStored copied)⟩
    · have exited := ((tidy.fits other old wasFound).held _ _ _ wasStage).2.2.2 rfl
      have kept := (effect.fields_kept tidy found ((tidy.fits other old wasFound).object wasStage)).1 exited
      refine ⟨isStatus.trans kept.2.symm, fun asked => ?_⟩
      rcases copied with kernel | silent | stored
      · exact absurd kernel notKernel
      · exact absurd silent asked
      · exact stored
  · -- who was delivered before is still gone; who is delivered now has just been given up
    have old : ∀ delivery ∈ state.delivered, delivery.pid < next.table.nextPid ∧
        ∀ process, next.HasObject process → (next.table.objects process).pid ≠ delivery.pid := by
      intro delivery wasDelivered
      obtain ⟨given, absent⟩ := audited.gone delivery wasDelivered
      refine ⟨Nat.lt_of_lt_of_le given effect.next_pid_le, ?_⟩
      intro process isObject isPid
      rw [← isPid] at given
      obtain ⟨wasObject, same⟩ := effect.was_object tidy found isObject given
      exact absent process wasObject (same.symm.trans isPid)
    rcases effect.delivered_cases with same | ⟨process, pid, stage, same, live, detached, isTable⟩
    · rw [same]
      exact old
    · rw [same]
      intro delivery member
      rcases List.mem_cons.mp member with rfl | wasDelivered
      · refine ⟨Nat.lt_of_lt_of_le (tidy.held_given found stage) effect.next_pid_le, ?_⟩
        have held := (tidy.fits thread record found).held _ _ _ stage
        have isDetached := held.2.2.1 rfl
        intro other isObject isPid
        rw [isTable] at isPid
        rw [(kept_discarded _ _).pid] at isPid
        rcases isObject with isLive | remains
        · rw [live] at isLive
          exact (tidy.detached process isDetached).unlike other isLive (isPid.trans held.1.symm)
        · rw [detached] at remains
          obtain ⟨different, wasDetached⟩ := tidy.nodup.mem_erase_iff.mp remains
          exact different (tidy.object_injective (Or.inr wasDetached) (Or.inr isDetached)
            (isPid.trans held.1.symm))
      · exact old delivery wasDelivered
  · rcases effect.delivered_cases with same | ⟨process, pid, stage, same, live, detached, isTable⟩
    · rw [same]
      exact audited.nodup
    · rw [same, List.map_cons, List.nodup_cons]
      refine ⟨?_, audited.nodup⟩
      intro before
      obtain ⟨delivery, wasDelivered, isPid⟩ := List.mem_map.mp before
      have held := (tidy.fits thread record found).held _ _ _ stage
      exact (audited.gone delivery wasDelivered).2 process ((tidy.fits thread record found).object stage)
        (held.1.trans isPid.symm)

/-! ## Single calls -/

/-- A call that asks first whether the process has to end: every call but `SYS_EXIT`,
`SYS_WAITPID` and `SYS_KILL`. -/
def Piece.asks : Piece → Bool
  | .exec _ _ _ _ _ _ _ => true
  | .rest _ => true
  | .call _ _ _ => true
  | _ => false

/-- The state after a process has ended. -/
def Collection.ended (state : Collection) (thread : Nat) (record : UserThread) (exitCode : Nat)
    (final : Stage) (eax : Nat) : Collection :=
  { state with table := state.table.ended record.process exitCode }.setThread thread
    { record with stage := final, eax := eax }

theorem checked_call_killed (tidy : Tidy state) (found : state.threads[thread]? = some record)
    (active : record.stage.active = true) (notKernel : record.process ≠ 0)
    (asked : (state.table.objects record.process).killRequested = true)
    (proceed : Collection → Option Collection) :
    state.checkedCall thread record proceed =
      some (state.ended thread record processKilledExitCode .gone record.eax) := by
  rcases finish_or_kill_run tidy.listed ((tidy.fits thread record found).known active) with
    ⟨-, spared⟩ | ⟨-, -, run⟩
  · rw [spared notKernel] at asked
    cases asked
  · simp only [Collection.checkedCall, run, Outcome.result, Option.bind_some, ↓reduceIte]
    rfl

/-- A killed process that makes a call ends instead. -/
theorem killed_call_ends (tidy : Tidy state) (asks : piece.asks = true)
    (found : state.threads[piece.thread]? = some record) (user : record.stage = .user)
    (notKernel : record.process ≠ 0)
    (asked : (state.table.objects record.process).killRequested = true) :
    Collection.step piece state =
      some (state.ended piece.thread record processKilledExitCode .gone record.eax) := by
  have active := user_active user
  simp only [Collection.step, found, user]
  cases piece with
  | exec caller object addressSpace entry stackBase stackTop initialEsp =>
    simp only [Collection.runStage]
    exact checked_call_killed tidy found active notKernel asked _
  | rest caller =>
    simp only [Collection.runStage, notKernel, ↓reduceIte]
    exact checked_call_killed tidy found active notKernel asked _
  | call caller answer fds =>
    simp only [Collection.runStage, notKernel, ↓reduceIte]
    exact checked_call_killed tidy found active notKernel asked _
  | _ => cases asks

/-- A process that is killed inside a call that waits ends when it wakes up. -/
theorem killed_sleeper_ends (tidy : Tidy state) (found : state.threads[thread]? = some record)
    (resting : record.stage = .resting) (notKernel : record.process ≠ 0)
    (asked : (state.table.objects record.process).killRequested = true) (answer : UInt32) :
    Collection.step (.wake thread answer) state =
      some (state.ended thread record processKilledExitCode .exiting answer.toNat) := by
  have active : record.stage.active = true := by
    rw [resting]
    rfl
  rcases finish_or_kill_run tidy.listed ((tidy.fits thread record found).known active) with
    ⟨-, spared⟩ | ⟨-, -, run⟩
  · rw [spared notKernel] at asked
    cases asked
  · simp only [Collection.step, Piece.thread, found, resting, Collection.runStage,
      Collection.onTable, run, Outcome.result, Option.map_some, ↓reduceIte]
    rfl

/-- `SYS_EXIT` ends the process with the code it is given. -/
theorem exit_ends (found : state.threads[thread]? = some record) (user : record.stage = .user)
    (notKernel : record.process ≠ 0) (exitCode : UInt32) :
    Collection.step (.exit thread exitCode) state =
      some (state.ended thread record exitCode.toNat .gone record.eax) := by
  simp only [Collection.step, Piece.thread, found, user, Collection.runStage, notKernel,
    ↓reduceIte, Collection.onTable, process_exit_run notKernel, Outcome.result, Option.map_some]
  rfl

section Tidy

variable (tidy : Tidy state) (found : state.threads[thread]? = some record)
  (user : record.stage = .user)

include tidy found user

/-- `SYS_KILL` of a process that has exited returns -1 and does nothing. -/
theorem kill_refused {targetPid : UInt32} (isLive : process ∈ state.live)
    (isPid : (state.table.objects process).pid = targetPid.toNat)
    (exited : (state.table.objects process).exited = true) :
    Collection.step (.kill thread targetPid) state =
      some (state.setThread thread { record with eax := failure }) := by
  rcases syscall_kill_run tidy.listed ((tidy.fits thread record found).known (user_active user))
    targetPid.toNat with ⟨run, -⟩ | ⟨child, member, -, isTarget, -, killable, -⟩
  · simp only [Collection.step, Piece.thread, found, user, Collection.runStage,
      Collection.onTable, run, Outcome.result, Option.map_some]
  · obtain rfl : child = process :=
      tidy.listed.pid_injective member isLive (isTarget.trans isPid.symm)
    simp [Process.killable, exited] at killable

/-- A `SYS_KILL` that returns 0 has marked a child that is running. -/
theorem kill_marks {targetPid : UInt32}
    (taken : Collection.step (.kill thread targetPid) state = some next)
    (found' : next.threads[thread]? = some record') (accepted : record'.eax = 0) :
    ∃ child ∈ state.live, (state.table.objects child).pid = targetPid.toNat ∧
      (state.table.objects child).parentPid = (state.table.objects record.process).pid ∧
      (state.table.objects child).exited = false ∧ next.live = state.live ∧
      next.table = state.table.marked child := by
  simp only [Collection.step, Piece.thread, found, user, Collection.runStage] at taken
  rcases syscall_kill_run tidy.listed ((tidy.fits thread record found).known (user_active user))
    targetPid.toNat with ⟨run, -⟩ | ⟨child, member, -, isTarget, isChild, killable, run⟩
  · rw [on_table_done run taken] at found'
    obtain rfl := set_thread_found found'
    cases accepted
  · rw [on_table_done run taken]
    refine ⟨child, member, isTarget, isChild, ?_, rfl, rfl⟩
    simp only [Process.killable, Bool.and_eq_true, Bool.not_eq_true'] at killable
    exact killable.1.1

/-- `SYS_WAITPID` that finds no child to wait for returns -1 and does nothing. -/
theorem waitpid_refused {pid userStatus : UInt32}
    (taken : Collection.step (.waitpid thread pid userStatus) state = some next)
    (found' : next.threads[thread]? = some record') (returned : record'.stage = .user) :
    next = state.setThread thread { record with eax := failure } := by
  simp only [Collection.step, Piece.thread, found, user, Collection.runStage] at taken
  split at taken
  · cases taken
  · rename_i notKernel
    have isLive := ((tidy.fits thread record found).alive notKernel (by rw [user]; rfl)).1
    rcases waitpid_find_run tidy.listed isLive pid.toNat with
      run | ⟨child, member, -, -, -, run⟩
    · rw [on_table_done run taken, if_pos rfl, ← user]
    · rw [on_table_done run taken, if_neg (tidy.listed.ne_zero member)] at found'
      obtain rfl := set_thread_found found'
      cases returned

end Tidy

/-- A waiter returns with the status delivered and the child gone, or with -1 and the child
still in the table. -/
theorem Effect.returns (audited : Audited state) (found : state.threads[thread]? = some record)
    (call : SystemCall piece) (effect : Effect state thread record piece next) {phase : Phase}
    {process : Nat} (stage : record.stage = .holding phase process pid)
    (found' : next.threads[thread]? = some record') (returned : record'.stage = .user) :
    (record'.eax = 0 ∧ next.delivered = ⟨pid, record.status⟩ :: state.delivered ∧
        record.status = (state.table.objects process).exitCode ∧
        (record.userStatus ≠ 0 → ⟨pid, record.status⟩ ∈ state.stored) ∧
        ∀ other ∈ next.live, (next.table.objects other).pid ≠ pid) ∨
      (record'.eax = failure ∧ next.table = state.table ∧ process ∈ next.live ∧
        next.delivered = state.delivered) := by
  have audited' := effect.audited audited found call
  have tidy := audited.tidy
  have notKernel := (audited.parents thread record phase process pid found stage).1
  cases effect with
  | refuses process' pid' wasStage =>
    rw [stage] at wasStage
    cases wasStage
    rw [set_thread_found found']
    have isLive := ((tidy.fits thread record found).held _ _ _ stage).2.1 rfl
    exact Or.inr ⟨rfl, rfl, isLive, rfl⟩
  | discards process' pid' wasStage =>
    rw [stage] at wasStage
    cases wasStage
    rw [set_thread_found found']
    obtain ⟨isStatus, isStored⟩ := audited.read thread record .closed process pid found stage rfl
    refine Or.inl ⟨rfl, if_neg notKernel, isStatus, isStored, ?_⟩
    intro other isLive
    exact (audited'.gone ⟨pid, record.status⟩ (by
      simp only [Collection.setThread, notKernel, ↓reduceIte]
      exact List.mem_cons_self)).2 other (Or.inl isLive)
  | answers _ wasStage | rests wasStage | wakes _ wasStage | finishes wasStage | reaps wasStage
  | marks _ _ wasStage | files _ _ wasStage | launches _ _ _ wasStage | finds _ _ _ wasStage =>
    rw [stage] at wasStage
    cases wasStage
  | ends exitCode eax final notKernel wasStage cause =>
    rw [stage] at wasStage
    rcases wasStage with ⟨wasStage, -⟩ | ⟨wasStage, -⟩ <;> cases wasStage
  | tests process' pid' wasStage =>
    obtain rfl : record' = record := Option.some.inj (found'.symm.trans found)
    rw [stage] at returned
    cases returned
  | enters | sees | collects | destroys | removes | closes =>
    rw [set_thread_found found'] at returned
    cases returned

/-! ## Runs -/

/-- System calls, for fresh objects. -/
def ProcessCall (state : Collection) (piece : Piece) : Prop :=
  FreshObject state piece ∧ SystemCall piece

/-- What is said about exit statuses, in one state and in those that follow. -/
structure StatusLaw (state : Collection) : Prop where
  /-- Once a process has exited its exit code never changes, and only this code is delivered. -/
  settled : ∀ process ∈ state.live, (state.table.objects process).exited = true →
    ∀ later, Reaches Collection.step ProcessCall state later →
      (∀ process' ∈ later.live,
        (later.table.objects process').pid = (state.table.objects process).pid →
        (later.table.objects process').exited = true ∧
          (later.table.objects process').exitCode = (state.table.objects process).exitCode) ∧
      ∀ delivery ∈ later.delivered, delivery.pid = (state.table.objects process).pid →
        delivery.status = (state.table.objects process).exitCode
  /-- `SYS_KILL` of a process that has exited returns -1 without effect. -/
  refused : ∀ (thread : Nat) record (targetPid : UInt32), ∀ process ∈ state.live,
    state.threads[thread]? = some record → record.stage = .user →
    (state.table.objects process).pid = targetPid.toNat →
    (state.table.objects process).exited = true →
    Collection.step (.kill thread targetPid) state =
      some (state.setThread thread { record with eax := failure })
  /-- After a `SYS_KILL` that returned 0, the running child it was for is marked until it exits. -/
  doomed : ∀ (thread : Nat) record record' (targetPid : UInt32) next,
    state.threads[thread]? = some record → record.stage = .user →
    Collection.step (.kill thread targetPid) state = some next →
    next.threads[thread]? = some record' → record'.eax = 0 →
    (∃ child ∈ state.live, (state.table.objects child).pid = targetPid.toNat ∧
      (state.table.objects child).parentPid = (state.table.objects record.process).pid ∧
      (state.table.objects child).exited = false) ∧
    ∀ later, Reaches Collection.step ProcessCall next later → ∀ process ∈ later.live,
      (later.table.objects process).pid = targetPid.toNat →
      (later.table.objects process).exited = true ∨
        (later.table.objects process).killRequested = true
  /-- A marked process that makes a call ends with 128 instead. -/
  killed : ∀ piece record, piece.asks = true → state.threads[piece.thread]? = some record →
    record.stage = .user → record.process ≠ 0 →
    (state.table.objects record.process).killRequested = true →
    Collection.step piece state =
      some (state.ended piece.thread record processKilledExitCode .gone record.eax)
  /-- A marked process that wakes inside a call ends with 128 instead of returning. -/
  woken : ∀ (thread : Nat) record (answer : UInt32), state.threads[thread]? = some record →
    record.stage = .resting → record.process ≠ 0 →
    (state.table.objects record.process).killRequested = true →
    Collection.step (.wake thread answer) state =
      some (state.ended thread record processKilledExitCode .exiting answer.toNat)
  /-- `SYS_EXIT` ends the process with the value of `EBX`. -/
  exits : ∀ (thread : Nat) record (exitCode : UInt32), state.threads[thread]? = some record →
    record.stage = .user → record.process ≠ 0 →
    Collection.step (.exit thread exitCode) state =
      some (state.ended thread record exitCode.toNat .gone record.eax)
  /-- A `SYS_WAITPID` that finds no child returns -1 and changes nothing else. -/
  missed : ∀ (thread : Nat) record record' (pid userStatus : UInt32) next,
    state.threads[thread]? = some record → record.stage = .user →
    Collection.step (.waitpid thread pid userStatus) state = some next →
    next.threads[thread]? = some record' → record'.stage = .user →
    next = state.setThread thread { record with eax := failure }
  /-- A `SYS_WAITPID` that waited returns 0 with the exit code stored and the child removed, or
  -1 with the child in the table. -/
  returns : ∀ piece (thread : Nat) record record' phase process pid next,
    ProcessCall state piece → Collection.step piece state = some next →
    state.threads[thread]? = some record → record.stage = .holding phase process pid →
    next.threads[thread]? = some record' → record'.stage = .user →
    (record'.eax = 0 ∧ next.delivered = ⟨pid, record.status⟩ :: state.delivered ∧
        record.status = (state.table.objects process).exitCode ∧
        (record.userStatus ≠ 0 → ⟨pid, record.status⟩ ∈ state.stored) ∧
        ∀ other ∈ next.live, (next.table.objects other).pid ≠ pid) ∨
      (record'.eax = failure ∧ next.table = state.table ∧ process ∈ next.live ∧
        next.delivered = state.delivered)
  /-- At most one `SYS_WAITPID` returns 0 for a child. -/
  once : (state.delivered.map Delivery.pid).Nodup

theorem boot_audited (objects : Nat → Process) (links : Fields Nat) (kernelThreads : Nat) :
    Audited (Collection.boot objects links kernelThreads) := by
  refine ⟨boot_fostered objects links kernelThreads, ?_, ?_, List.nodup_nil⟩
  · intro other found phase process pid isFound isStage
    rw [boot_record isFound] at isStage
    cases isStage
  · intro delivery member
    cases member

theorem audited_step (audited : Audited state) (call : ProcessCall state piece)
    (taken : Collection.step piece state = some next) : Audited next := by
  obtain ⟨thread, record, found, -, effect⟩ := step_effect audited.tidy call.1 taken
  exact effect.audited audited found call.2

/-- What an effect keeps, kept along a run. -/
theorem Audited.along (audited : Audited state) (property : Collection → Prop)
    (initially : property state)
    (preserved : ∀ {state next : Collection} {thread : Nat} {record : UserThread} {piece : Piece},
      Audited state → state.threads[thread]? = some record → property state →
      Effect state thread record piece next → property next)
    {later : Collection} (run : Reaches Collection.step ProcessCall state later) :
    property later := by
  have both := run.invariant (fun state => Audited state ∧ property state) ⟨audited, initially⟩ (by
    rintro state piece next ⟨audited, holds⟩ call taken
    obtain ⟨thread, record, found, -, effect⟩ := step_effect audited.tidy call.1 taken
    exact ⟨effect.audited audited found call.2, preserved audited found holds effect⟩)
  exact both.2

/-- Deliveries for a settled pid carry its code. -/
theorem Effect.delivers (audited : Audited state) (found : state.threads[thread]? = some record)
    (effect : Effect state thread record piece next) {exitCode : Nat}
    (settled : Settled pid exitCode state)
    (delivered : ∀ delivery ∈ state.delivered, delivery.pid = pid → delivery.status = exitCode) :
    ∀ delivery ∈ next.delivered, delivery.pid = pid → delivery.status = exitCode := by
  rcases effect.delivered_cases with same | ⟨process, pid', stage, same, -⟩
  · rw [same]
    exact delivered
  · rw [same]
    intro delivery member isPid
    rcases List.mem_cons.mp member with rfl | old
    · have held := (audited.tidy.fits thread record found).held _ _ _ stage
      have isStatus := (audited.read thread record _ process pid' found stage rfl).1
      have isCode := (settled.2 process ((audited.tidy.fits thread record found).object stage)
        (held.1.trans isPid)).2
      exact isStatus.trans isCode
    · exact delivered delivery old isPid

theorem Audited.status_law (audited : Audited state) : StatusLaw state := by
  have tidy := audited.tidy
  constructor
  · intro process isLive exited later run
    have settled : Settled (state.table.objects process).pid
        (state.table.objects process).exitCode state := by
      refine ⟨(tidy.listed.sound process isLive).given, ?_⟩
      intro other isObject same
      rw [tidy.object_injective isObject (Or.inl isLive) same]
      exact ⟨exited, rfl⟩
    have before : ∀ delivery ∈ state.delivered,
        delivery.pid = (state.table.objects process).pid →
        delivery.status = (state.table.objects process).exitCode := by
      intro delivery member isPid
      exact absurd isPid.symm ((audited.gone delivery member).2 process (Or.inl isLive))
    obtain ⟨settled', delivered'⟩ := audited.along
      (fun later => Settled (state.table.objects process).pid
          (state.table.objects process).exitCode later ∧
        ∀ delivery ∈ later.delivered, delivery.pid = (state.table.objects process).pid →
          delivery.status = (state.table.objects process).exitCode) ⟨settled, before⟩
      (fun audited found holds effect => ⟨effect.settled audited.tidy found holds.1,
        effect.delivers audited found holds.1 holds.2⟩) run
    exact ⟨fun process' isLive' same => settled'.2 process' (Or.inl isLive') same, delivered'⟩
  · intro thread record targetPid process isLive found user isPid exited
    exact kill_refused tidy found user isLive isPid exited
  · intro thread record record' targetPid next found user taken found' accepted
    obtain ⟨child, isLive, isPid, isChild, running, live, isTable⟩ :=
      kill_marks tidy found user taken found' accepted
    refine ⟨⟨child, isLive, isPid, isChild, running⟩, ?_⟩
    have call : ProcessCall state (.kill thread targetPid) := ⟨trivial, trivial⟩
    have audited' : Audited next := audited_step audited call taken
    have doomed : Doomed targetPid.toNat next := by
      constructor
      · rw [isTable, ← isPid]
        exact (tidy.listed.sound child isLive).given
      · intro process isLive' isPid'
        rw [live] at isLive'
        rw [isTable, (kept_marked _ _).pid] at isPid'
        obtain rfl : process = child :=
          tidy.listed.pid_injective isLive' isLive (isPid'.trans isPid.symm)
        right
        rw [isTable, ProcessTable.marked, change_self]
    intro later run
    exact (audited'.along (Doomed targetPid.toNat) doomed (fun audited found holds effect =>
      effect.doomed audited.tidy found holds) run).2
  · intro piece record asks found user notKernel asked
    exact killed_call_ends tidy asks found user notKernel asked
  · intro thread record answer found resting notKernel asked
    exact killed_sleeper_ends tidy found resting notKernel asked answer
  · intro thread record exitCode found user notKernel
    exact exit_ends found user notKernel exitCode
  · intro thread record record' pid userStatus next found user taken found' returned
    exact waitpid_refused tidy found user taken found' returned
  · intro piece thread record record' phase process pid next call taken found stage found' returned
    obtain ⟨runner, current, isCurrent, -, effect⟩ := step_effect tidy call.1 taken
    by_cases same : thread = runner
    · subst same
      obtain rfl : record = current := Option.some.inj (found.symm.trans isCurrent)
      exact effect.returns audited found call.2 stage found' returned
    · have kept := effect.others same found
      obtain rfl : record' = record := Option.some.inj (found'.symm.trans kept)
      rw [stage] at returned
      cases returned
  · exact audited.nodup

/-- The law holds in every state of every run of system calls. -/
theorem exit_status_delivered (state : Collection) (reached : CollectionReachable ProcessCall state) :
    StatusLaw state := by
  obtain ⟨objects, links, kernelThreads, run⟩ := reached
  have audited := run.invariant Audited (boot_audited objects links kernelThreads)
    fun state piece next audited call taken => audited_step audited call taken
  exact audited.status_law

set_option maxRecDepth 100000 in
/-- A child is killed while it sleeps; its parent is given 128. -/
theorem killed_status_delivered : ∃ state : Collection, state.delivered = [⟨2, 128⟩] ∧
    state.stored = [⟨2, 128⟩] ∧ state.live = [0x1000] ∧ StatusLaw state := by
  have completed : ((runAll Collection.step (fun state piece => FreshObject state piece ∧
      SystemCall piece) [.exec 0 0x1000 0x2000 0x1000000 0x6FFFF000 0x70000000 0x6FFFFFF0,
        .exec 1 0x1100 0x2100 0x1000000 0x6FFFF000 0x70000000 0x6FFFFFF0, .rest 2, .kill 1 2,
        .waitpid 1 2 0x6FFFFF00, .enter 1, .wake 2 0, .finish 2, .test 1, .collect 1 true, .destroy 1,
        .remove 1, .close 1, .discard 1] emptyCollection).map
          fun state => (state.delivered, state.stored, state.live)) =
            some ([⟨2, 128⟩], [⟨2, 128⟩], [0x1000]) := by decide +kernel
  obtain ⟨state, reached, shape⟩ := collection_run_facts completed
  simp only [Prod.mk.injEq] at shape
  exact ⟨state, shape.1, shape.2.1, shape.2.2, exit_status_delivered state reached⟩

end Toyix.Processes
