import Toyix.Processes.Holding

/-!
# No process is destroyed under its thread

A process that exits is marked first and its thread ends later. In between, interrupts are
disabled when the process was in `SYS_EXIT` or at the start of a call. They are enabled when it
was killed inside `SYS_SLEEP` or `SYS_READ` of standard input: a waiter that runs there
finds the mark and destroys the process under a thread that has still to run.

When nothing else runs in that gap, a process is destroyed after its thread. A parent has one
thread, so a child has one waiter.
-/

namespace Toyix.Processes

open Library Library.Links

variable {table : ProcessTable} {live : List Nat} {process : Nat}
  {state next : Collection} {thread : Nat} {record : UserThread} {piece : Piece} {other pid : Nat}
  {phase : Phase} {found' : UserThread}

/-- The thread has run `thread_exit`. -/
def UserThread.Over (record : UserThread) : Prop := record.stage = .gone ∨ record.stage = .reaped

/-- The waiter has entered `process_destroy`. -/
def Phase.entered : Phase → Bool
  | .destroying => true
  | .removed => true
  | .closed => true
  | _ => false

/-! ## The records after an effect -/

/-- The record of the thread that runs, after an effect. -/
inductive Passes (state : Collection) (thread : Nat) (record : UserThread) (piece : Piece) :
    Stage → Prop
  | same : Passes state thread record piece record.stage
  | runs (active : record.stage.active = true) (stage : Stage)
      (free : stage = .user ∨ stage = .resting) : Passes state thread record piece stage
  | ends (running : record.stage.active = true) (stage : Stage)
      (final : stage = .gone ∨ stage = .exiting) : Passes state thread record piece stage
  | finishes (stage : record.stage = .exiting) : Passes state thread record piece .gone
  | reaps (stage : record.stage = .gone) : Passes state thread record piece .reaped
  | finds (process pid : Nat) (stage : record.stage = .user) (member : process ∈ state.live)
      (isPid : (state.table.objects process).pid = pid) (caller : MayWait state record piece process) :
    Passes state thread record piece (.holding .found process pid)
  | advances (phase phase' : Phase) (process pid : Nat)
      (stage : record.stage = .holding phase process pid)
      (listed : phase'.listed = true → phase.listed = true)
      (entered : phase'.entered = true → phase.entered = true ∨
        phase = .collected ∧ piece = .destroy thread) :
    Passes state thread record piece (.holding phase' process pid)

/-- A thread after an effect is another one, the one that ran, or a new one. -/
theorem Effect.threads_cases (found : state.threads[thread]? = some record)
    (effect : Effect state thread record piece next) {found' : UserThread}
    (isFound : next.threads[other]? = some found') :
    (other ≠ thread ∧ state.threads[other]? = some found') ∨
      (other = thread ∧ found'.process = record.process ∧ found'.pid = record.pid ∧
        Passes state thread record piece found'.stage) ∨
      (found'.stage = .user ∧ found'.process ∈ next.live ∧ found'.pid = state.table.nextPid ∧
        (next.table.objects found'.process).pid = state.table.nextPid) := by
  -- all but two effects replace the record of the thread that runs
  have replaced : ∀ record' : UserThread, (state.threads.set thread record')[other]? = some found' →
      record'.process = record.process → record'.pid = record.pid →
      Passes state thread record piece record'.stage →
      (other ≠ thread ∧ state.threads[other]? = some found') ∨
      (other = thread ∧ found'.process = record.process ∧ found'.pid = record.pid ∧
        Passes state thread record piece found'.stage) := by
    intro record' isSet sameProcess samePid passes
    rcases set_thread_cases isSet with ⟨isThread, rfl⟩ | ⟨different, isOther⟩
    · exact Or.inr ⟨isThread, sameProcess, samePid, passes⟩
    · exact Or.inl ⟨different, isOther⟩
  rw [← or_assoc]
  cases effect with
  | answers _ stage | marks _ _ stage | files _ _ stage =>
    exact Or.inl (replaced _ isFound rfl rfl .same)
  | rests stage =>
    exact Or.inl (replaced _ isFound rfl rfl (.runs (user_active stage) _ (Or.inr rfl)))
  | wakes _ stage | refuses _ _ stage | discards _ _ stage =>
    exact Or.inl (replaced _ isFound rfl rfl (.runs (by rw [stage]; rfl) _ (Or.inl rfl)))
  | finishes stage => exact Or.inl (replaced _ isFound rfl rfl (.finishes stage))
  | reaps stage => exact Or.inl (replaced _ isFound rfl rfl (.reaps stage))
  | ends exitCode eax final user stage cause =>
    rcases stage with ⟨stage, rfl⟩ | ⟨stage, rfl⟩
    · exact Or.inl (replaced _ isFound rfl rfl (.ends (user_active stage) _ (Or.inl rfl)))
    · exact Or.inl (replaced _ isFound rfl rfl (.ends (by rw [stage]; rfl) _ (Or.inr rfl)))
  | launches object eax table stage fresh launched =>
    by_cases inside : other < state.threads.length
    · rw [List.getElem?_append_left (by rw [List.length_set]; exact inside)] at isFound
      exact Or.inl (replaced _ isFound rfl rfl .same)
    · rw [List.getElem?_append_right (by rw [List.length_set]; omega)] at isFound
      obtain ⟨within, rfl⟩ := List.getElem?_eq_some_iff.mp isFound
      simp only [List.length_cons, List.length_nil, Nat.zero_add, Nat.lt_one_iff] at within
      right
      simp only [within, List.getElem_cons_zero]
      exact ⟨trivial, Building.member _ _, trivial, launched.pid⟩
  | finds process pid userStatus stage seeks member isPid caller =>
    exact Or.inl (replaced _ isFound rfl rfl (.finds process pid stage member isPid caller))
  | enters process pid stage | sees process pid stage | collects process pid _ stage =>
    exact Or.inl (replaced _ isFound rfl rfl (.advances _ _ process pid stage (fun _ => rfl)
      (fun entered => by cases entered)))
  | tests process pid stage =>
    refine Or.inl (replaced record ?_ rfl rfl .same)
    have self := congrArg Collection.threads (set_thread_self found)
    rw [← isFound]
    exact congrArg (fun threads : List UserThread => threads[other]?) self
  | destroys process pid stage isPiece =>
    exact Or.inl (replaced _ isFound rfl rfl (.advances _ _ process pid stage (fun _ => rfl)
      (fun _ => Or.inr ⟨rfl, isPiece⟩)))
  | removes process pid _ stage | closes process pid stage =>
    exact Or.inl (replaced _ isFound rfl rfl (.advances _ _ process pid stage
      (fun listed => by cases listed) (fun _ => Or.inl rfl)))

/-- Who is not over now was not over before. -/
theorem Passes.not_over {stage : Stage} (passes : Passes state thread record piece stage)
    (runs : stage ≠ .gone ∧ stage ≠ .reaped) : ¬ record.Over := by
  rintro (gone | reaped)
  · cases passes with
    | same => exact runs.1 gone
    | runs stage | ends stage | finishes stage | finds _ _ stage | advances _ _ _ _ stage =>
      rw [gone] at stage
      cases stage
    | reaps => exact runs.2 rfl
  · cases passes with
    | same => exact runs.2 reaped
    | runs stage | ends stage | finishes stage | finds _ _ stage | advances _ _ _ _ stage =>
      rw [reaped] at stage
      cases stage
    | reaps => exact runs.2 rfl

/-- Who holds a process now held it before or has just found it. -/
theorem Passes.holding (passes : Passes state thread record piece (.holding phase process pid)) :
    (∃ phase', record.stage = .holding phase' process pid ∧
        (phase.listed = true → phase'.listed = true) ∧
        (phase.entered = true → phase'.entered = true ∨
          phase' = .collected ∧ piece = .destroy thread)) ∨
      (phase = .found ∧ record.stage = .user ∧ process ∈ state.live ∧
        (state.table.objects process).pid = pid ∧ MayWait state record piece process) := by
  generalize isStage : Stage.holding phase process pid = stage at passes
  cases passes with
  | same => exact Or.inl ⟨phase, isStage.symm, id, Or.inl⟩
  | runs active stage free => rcases free with rfl | rfl <;> cases isStage
  | ends active stage final => rcases final with rfl | rfl <;> cases isStage
  | finishes stage => cases isStage
  | reaps stage => cases isStage
  | finds process' pid' stage member isPid caller =>
    cases isStage
    exact Or.inr ⟨rfl, stage, member, isPid, caller⟩
  | advances phase' phase'' process' pid' stage listed entered =>
    cases isStage
    exact Or.inl ⟨phase', stage, listed, entered⟩

/-! ## Parents -/

/-- Between the mark and the end of a thread nobody runs who waits for its process. -/
def WaitersPause (state : Collection) (piece : Piece) : Prop :=
  ∀ (thread waiter : Nat) record record' phase, state.threads[thread]? = some record →
    record.stage = .exiting → state.threads[waiter]? = some record' →
    record'.stage = .holding phase record.process record.pid → piece.thread ≠ waiter

/-- Waiting is done by system calls only. -/
def SystemCall : Piece → Prop
  | .monitorWait _ _ => False
  | _ => True

/-- Waiters are parents. -/
structure Fostered (state : Collection) : Prop where
  tidy : Tidy state
  parents : ∀ (thread : Nat) record phase process pid, state.threads[thread]? = some record →
    record.stage = .holding phase process pid → record.process ≠ 0 ∧
      (phase.listed = true → (state.table.objects process).parentPid = record.pid)

/-- Waiters are parents, and a thread that is not over belongs to a process in the table
that nobody destroys. -/
structure Kin (state : Collection) : Prop extends Fostered state where
  running : ∀ (thread : Nat) record, state.threads[thread]? = some record → record.process ≠ 0 →
    ¬ record.Over → record.process ∈ state.live ∧
      (state.table.objects record.process).pid = record.pid
  spared : ∀ (thread waiter : Nat) record record' phase, state.threads[thread]? = some record →
    record.process ≠ 0 → ¬ record.Over → state.threads[waiter]? = some record' →
    record'.stage = .holding phase record.process record.pid → phase.entered = false

theorem holding_active (stage : record.stage = .holding phase process pid) :
    record.stage.active = true := by
  rw [stage]
  rfl

/-- A child that its parent may wait for has no other waiter. -/
theorem Fostered.unheld (kin : Fostered state) (found : state.threads[thread]? = some record)
    (call : SystemCall piece) : Unheld state record piece := by
  intro process pid user seeks member isPid caller found' isMember
  obtain ⟨other, isFound⟩ := List.getElem?_of_mem isMember
  rcases caller with ⟨-, monitor, number, rfl⟩ | ⟨notKernel, -, isChild⟩
  · exact call.elim
  obtain ⟨-, ownPid, -⟩ := (kin.tidy.fits thread record found).alive notKernel (user_active user)
  by_contra holds
  rw [Bool.not_eq_false] at holds
  obtain ⟨phase, held, isStage⟩ := stage_of_holds holds
  obtain ⟨heldPid, isLive, isDetached, -⟩ := (kin.tidy.fits other found' isFound).held _ _ _ isStage
  obtain ⟨notKernel', isParent⟩ := kin.parents other found' phase held pid isFound isStage
  cases listed : phase.listed with
  | true =>
    obtain rfl : held = process :=
      kin.tidy.listed.pid_injective (isLive listed) member (heldPid.trans isPid.symm)
    have same : found'.pid = record.pid := by rw [← isParent listed, isChild, ownPid]
    obtain rfl : other = thread :=
      kin.tidy.distinct other thread found' record isFound found notKernel' notKernel same
    obtain rfl : found' = record := Option.some.inj (isFound.symm.trans found)
    rw [user] at isStage
    cases isStage
  | false =>
    exact (kin.tidy.detached held (isDetached listed)).unlike process member
      (isPid.trans heldPid.symm)

/-- Parents change when a process leaves the table. -/
theorem Effect.parent_kept (effect : Effect state thread record piece next)
    (member : process ∈ next.live) (old : (next.table.objects process).pid < state.table.nextPid) :
    (next.table.objects process).parentPid = (state.table.objects process).parentPid ∨
      ∃ removed pid, record.stage = .holding .destroying removed pid ∧
        (state.table.objects process).parentPid = pid := by
  have changed : ∀ (object : Nat) {update : Process → Process} {table : ProcessTable},
      table.objects = (state.table.change object update).objects →
      (∀ fields, (update fields).parentPid = fields.parentPid) →
      (table.objects process).parentPid = (state.table.objects process).parentPid := by
    intro object update table isTable keeps
    rw [isTable]
    exact change_field state.table Process.parentPid (keeps _) process
  cases effect with
  | launches object eax table stage fresh launched =>
    left
    refine congrArg Process.parentPid (launched.kept process ?_)
    rintro rfl
    rw [launched.pid] at old
    exact Nat.lt_irrefl _ old
  | removes removed pid table stage listed nextPid objects =>
    have isObject := objects process
    rw [if_pos (List.mem_of_mem_erase member)] at isObject
    by_cases isChild : (state.table.objects process).parentPid = pid
    · exact Or.inr ⟨removed, pid, stage, isChild⟩
    · left
      rw [Process.orphaned, if_neg isChild] at isObject
      exact congrArg Process.parentPid isObject
  | ends exitCode eax final user stage cause =>
    left
    change ((state.table.ended record.process exitCode).objects process).parentPid = _
    by_cases same : process = record.process
    · rw [same, ended_self]
    · rw [ended_other _ _ same]
  | marks child eax stage user isLive isChild killable =>
    left
    exact changed child rfl fun _ => rfl
  | files eax fds stage user =>
    left
    exact changed record.process rfl fun _ => rfl
  | closes closed pid stage =>
    left
    exact changed closed rfl fun _ => rfl
  | discards discarded pid stage =>
    left
    exact changed discarded rfl fun _ => rfl
  | _ => exact Or.inl rfl

/-- A process leaves the table only when a waiter takes it out. -/
theorem Effect.still_live (effect : Effect state thread record piece next)
    (member : process ∈ state.live) :
    process ∈ next.live ∨ ∃ pid, record.stage = .holding .destroying process pid := by
  cases effect with
  | launches object eax table stage fresh launched => exact Or.inl (List.mem_append_left _ member)
  | removes removed pid table stage listed nextPid objects =>
    by_cases same : process = removed
    · subst same
      exact Or.inr ⟨pid, stage⟩
    · exact Or.inl ((List.mem_erase_of_ne same).mpr member)
  | _ => exact Or.inl member

/-- The pid a waiter holds has been given out. -/
theorem Tidy.held_given (tidy : Tidy state) (found : state.threads[thread]? = some record)
    (stage : record.stage = .holding phase process pid) : pid < state.table.nextPid := by
  obtain ⟨isPid, isLive, isDetached, -⟩ := (tidy.fits thread record found).held _ _ _ stage
  rw [← isPid]
  cases listed : phase.listed with
  | true => exact (tidy.listed.sound process (isLive listed)).given
  | false => exact (tidy.detached process (isDetached listed)).given

/-- Waiters stay parents: a parent that waits has not exited, so nobody takes its children
from it. -/
theorem Fostered.parents_kept (kin : Fostered state) (tidy' : Tidy next)
    (found : state.threads[thread]? = some record) (call : SystemCall piece)
    (effect : Effect state thread record piece next) (isFound : next.threads[other]? = some found')
    (isStage : found'.stage = .holding phase process pid) : found'.process ≠ 0 ∧
      (phase.listed = true → (next.table.objects process).parentPid = found'.pid) := by
  have held' := (tidy'.fits other found' isFound).held _ _ _ isStage
  -- the waiter was a parent before
  have before : found'.process ≠ 0 ∧ (phase.listed = true →
      (state.table.objects process).parentPid = found'.pid) ∧ pid < state.table.nextPid ∧
      ∃ old, state.threads[other]? = some old ∧ old.process = found'.process ∧
        old.pid = found'.pid ∧ old.stage.active = true := by
    rcases effect.threads_cases found isFound with
      ⟨-, wasFound⟩ | ⟨rfl, sameProcess, samePid, passes⟩ | ⟨user, -⟩
    · obtain ⟨notKernel, isParent⟩ := kin.parents other found' _ _ _ wasFound isStage
      exact ⟨notKernel, isParent, kin.tidy.held_given wasFound isStage, found', wasFound, rfl, rfl,
        holding_active isStage⟩
    · rw [isStage] at passes
      rw [sameProcess, samePid]
      rcases passes.holding with ⟨phase', stage, listed, -⟩ | ⟨-, user, member, isPid, caller⟩
      · obtain ⟨notKernel, isParent⟩ := kin.parents other record _ _ _ found stage
        exact ⟨notKernel, fun isListed => isParent (listed isListed),
          kin.tidy.held_given found stage, record, found, rfl, rfl, holding_active stage⟩
      · rcases caller with ⟨-, monitor, number, rfl⟩ | ⟨notKernel, -, isChild⟩
        · exact call.elim
        · have active := user_active user
          have ownPid := ((kin.tidy.fits other record found).alive notKernel active).2.1
          refine ⟨notKernel, fun _ => isChild.trans ownPid, ?_, record, found, rfl, rfl, active⟩
          rw [← isPid]
          exact (kin.tidy.listed.sound process member).given
    · rw [isStage] at user
      cases user
  obtain ⟨notKernel, isParent, given, old, wasFound, sameProcess, samePid, active⟩ := before
  refine ⟨notKernel, fun listed => ?_⟩
  have nextPid : (next.table.objects process).pid < state.table.nextPid := by
    rw [held'.1]
    exact given
  rcases effect.parent_kept (held'.2.1 listed) nextPid with kept | ⟨removed, pid', stage, isChild⟩
  · exact kept.trans (isParent listed)
  · -- the process that goes would be the parent, which is still waiting
    obtain ⟨isPid, isLive, -, exited⟩ := (kin.tidy.fits thread record found).held _ _ _ stage
    rw [← sameProcess] at notKernel
    obtain ⟨isLive', isPid', running⟩ := (kin.tidy.fits other old wasFound).alive notKernel active
    have same : old.process = removed := by
      apply kin.tidy.listed.pid_injective isLive' (isLive rfl)
      rw [isPid', isPid, ← isChild, isParent listed, samePid]
    rw [same, exited rfl] at running
    cases running

section Running

variable (found : state.threads[thread]? = some record)
  (effect : Effect state thread record piece next) (isFound : next.threads[other]? = some found')
  (runs : ¬ found'.Over)

include found effect isFound runs

/-- A thread that is not over was not over before, or it is new. -/
theorem Effect.not_over :
    (∃ old, state.threads[other]? = some old ∧ old.process = found'.process ∧
        old.pid = found'.pid ∧ ¬ old.Over) ∨
      (found'.process ∈ next.live ∧ found'.pid = state.table.nextPid ∧
        (next.table.objects found'.process).pid = state.table.nextPid) := by
  rcases effect.threads_cases found isFound with
    ⟨-, wasFound⟩ | ⟨rfl, sameProcess, samePid, passes⟩ | ⟨-, isNew⟩
  · exact Or.inl ⟨found', wasFound, rfl, rfl, runs⟩
  · refine Or.inl ⟨record, found, sameProcess.symm, samePid.symm, passes.not_over ?_⟩
    exact ⟨fun gone => runs (Or.inl gone), fun reaped => runs (Or.inr reaped)⟩
  · exact Or.inr isNew

/-- Threads that are not over keep their process: the waiter that takes a process out of the
table has entered `process_destroy` for it. -/
theorem Kin.running_kept (kin : Kin state) (notKernel : found'.process ≠ 0) :
    found'.process ∈ next.live ∧ (next.table.objects found'.process).pid = found'.pid := by
  rcases effect.not_over found isFound runs with
    ⟨old, wasFound, sameProcess, samePid, ran⟩ | ⟨isLive, isPid, same⟩
  · rw [← sameProcess] at notKernel ⊢
    rw [← samePid]
    obtain ⟨isLive, isPid⟩ := kin.running other old wasFound notKernel ran
    have given := (kin.tidy.listed.sound _ isLive).given
    have stays : old.process ∈ next.live := by
      rcases effect.still_live isLive with stays | ⟨pid, stage⟩
      · exact stays
      · have heldPid := ((kin.tidy.fits thread record found).held _ _ _ stage).1
        rw [← heldPid, isPid] at stage
        have spared := kin.spared other thread old record _ wasFound notKernel ran found stage
        cases spared
    refine ⟨stays, ?_⟩
    rcases effect.kept_or_launched with ⟨kept, -⟩ | ⟨object, parentPid, fresh, -, launched⟩
    · rw [kept.pid]
      exact isPid
    · rw [launched.kept]
      · exact isPid
      · rintro rfl
        exact fresh isLive
  · exact ⟨isLive, same.trans isPid.symm⟩

/-- Nobody enters `process_destroy` for the process of a thread that is not over. -/
theorem Kin.spared_kept (kin : Kin state) (pause : WaitersPause state piece) {waiter : Nat}
    {record' : UserThread} (notKernel : found'.process ≠ 0) (isWaiter : next.threads[waiter]? = some record')
    (isStage : record'.stage = .holding phase found'.process found'.pid) :
    phase.entered = false := by
  rcases effect.not_over found isFound runs with
    ⟨old, wasFound, sameProcess, samePid, wasRunning⟩ | ⟨-, isPid, -⟩
  · rw [← sameProcess, ← samePid] at isStage
    rw [← sameProcess] at notKernel
    rcases effect.threads_cases found isWaiter with
      ⟨-, wasWaiter⟩ | ⟨rfl, -, -, passes⟩ | ⟨user, -⟩
    · exact kin.spared other waiter old record' phase wasFound notKernel wasRunning wasWaiter isStage
    · rw [isStage] at passes
      rcases passes.holding with ⟨phase', stage, -, entered⟩ | ⟨rfl, -⟩
      · by_contra inside
        rw [Bool.not_eq_false] at inside
        rcases entered inside with already | ⟨rfl, isPiece⟩
        · have spared := kin.spared other waiter old record phase' wasFound notKernel wasRunning
            found stage
          rw [already] at spared
          cases spared
        · -- the child has exited, so its thread is on the way out; but then its waiter does not run
          have exited := ((kin.tidy.fits waiter record found).held _ _ _ stage).2.2.2 rfl
          have inactive : old.stage.active = false := by
            by_contra active
            rw [Bool.not_eq_false] at active
            have running := ((kin.tidy.fits other old wasFound).alive notKernel active).2.2
            rw [exited] at running
            cases running
          have leaving : old.stage = .exiting := by
            cases isOld : old.stage with
            | exiting => rfl
            | gone => exact absurd (Or.inl isOld) wasRunning
            | reaped => exact absurd (Or.inr isOld) wasRunning
            | user | resting | holding =>
              rw [isOld] at inactive
              cases inactive
          apply pause other waiter old record _ wasFound leaving found stage
          rw [isPiece]
          rfl
      · rfl
    · rw [isStage] at user
      cases user
  · -- a new pid is held by nobody
    rcases effect.threads_cases found isWaiter with
      ⟨-, wasWaiter⟩ | ⟨rfl, -, -, passes⟩ | ⟨user, -⟩
    · have given := kin.tidy.held_given wasWaiter isStage
      omega
    · rw [isStage] at passes
      rcases passes.holding with ⟨phase', stage, -, -⟩ | ⟨rfl, -⟩
      · have given := kin.tidy.held_given found stage
        omega
      · rfl
    · rw [isStage] at user
      cases user

end Running

theorem Effect.fostered (kin : Fostered state) (found : state.threads[thread]? = some record)
    (call : SystemCall piece) (effect : Effect state thread record piece next) : Fostered next := by
  have tidy' := effect.tidy kin.tidy found (kin.unheld found call)
  refine ⟨tidy', ?_⟩
  intro other found' phase process pid isFound isStage
  exact kin.parents_kept tidy' found call effect isFound isStage

theorem Effect.kin (kin : Kin state) (found : state.threads[thread]? = some record)
    (call : SystemCall piece) (pause : WaitersPause state piece)
    (effect : Effect state thread record piece next) : Kin next := by
  refine ⟨effect.fostered kin.toFostered found call, ?_, ?_⟩
  · intro other found' isFound notKernel runs
    exact kin.running_kept found effect isFound runs notKernel
  · intro other waiter found' record' phase isFound notKernel runs isWaiter isStage
    exact kin.spared_kept found effect isFound runs pause notKernel isWaiter isStage

/-! ## Runs -/

theorem boot_fostered (objects : Nat → Process) (links : Fields Nat) (kernelThreads : Nat) :
    Fostered (Collection.boot objects links kernelThreads) := by
  refine ⟨boot_tidy objects links kernelThreads, ?_⟩
  intro other found phase process pid isFound isStage
  rw [boot_record isFound] at isStage
  cases isStage

theorem boot_kin (objects : Nat → Process) (links : Fields Nat) (kernelThreads : Nat) :
    Kin (Collection.boot objects links kernelThreads) := by
  refine ⟨boot_fostered objects links kernelThreads, ?_, ?_⟩
  · intro other found isFound notKernel
    rw [boot_record isFound] at notKernel
    exact absurd rfl notKernel
  · intro other waiter found record phase isFound notKernel
    rw [boot_record isFound] at notKernel
    exact absurd rfl notKernel

/-- In every run of system calls in which nobody who waits for an exiting process runs between
its mark and the end of its thread: while a waiter is inside `process_destroy`, the main thread
of the process has run `thread_exit`; and every thread that has not belongs to a process that is
in the table and that nobody destroys. -/
theorem destroyed_after_exit (state : Collection)
    (reached : CollectionReachable (fun state piece => FreshObject state piece ∧
      SystemCall piece ∧ WaitersPause state piece) state) :
    (∀ (waiter : Nat) record phase process pid, state.threads[waiter]? = some record →
      record.stage = .holding phase process pid → phase.entered = true →
      ∃ main : UserThread, state.threads[(state.table.objects process).mainThread]? = some main ∧
        main.process = process ∧ main.Over) ∧
    ∀ (thread : Nat) record, state.threads[thread]? = some record → record.process ≠ 0 →
      ¬ record.Over → record.process ∈ state.live ∧
        ∀ (waiter : Nat) record' phase pid, state.threads[waiter]? = some record' →
          record'.stage = .holding phase record.process pid → phase.entered = false := by
  obtain ⟨objects, links, kernelThreads, run⟩ := reached
  have kin := run.invariant Kin (boot_kin objects links kernelThreads) (by
    intro state piece next kin allowed taken
    obtain ⟨thread, record, found, -, effect⟩ := step_effect kin.tidy allowed.1 taken
    exact effect.kin kin found allowed.2.1 allowed.2.2)
  constructor
  · intro waiter record phase process pid found isStage entered
    have fits := kin.tidy.fits waiter record found
    have isPid := (fits.held _ _ _ isStage).1
    have isObject := fits.object isStage
    obtain ⟨main, isMain, sameProcess, samePid⟩ := kin.tidy.owned process isObject
    refine ⟨main, isMain, sameProcess, ?_⟩
    by_contra runs
    have notKernel : main.process ≠ 0 := by
      rw [sameProcess]
      exact (kin.tidy.checked isObject).notNull
    rw [← sameProcess, ← isPid, ← samePid] at isStage
    have spared := kin.spared _ waiter main record phase isMain notKernel runs found isStage
    rw [entered] at spared
    cases spared
  · intro thread record found notKernel runs
    obtain ⟨isLive, isPid⟩ := kin.running thread record found notKernel runs
    refine ⟨isLive, ?_⟩
    intro waiter record' phase pid isWaiter isStage
    have heldPid := ((kin.tidy.fits waiter record' isWaiter).held _ _ _ isStage).1
    rw [← heldPid, isPid] at isStage
    exact kin.spared thread waiter record record' phase found notKernel runs isWaiter isStage

instance (piece : Piece) : Decidable (SystemCall piece) :=
  match piece with
  | .monitorWait _ _ => isFalse id
  | .exec _ _ _ _ _ _ _ | .rest _ | .wake _ _ | .finish _ | .exit _ _ | .kill _ _ | .call _ _ _
  | .waitpid _ _ _ | .enter _ | .test _ | .collect _ _ | .destroy _ | .remove _ | .close _
  | .discard _ | .reap _ _ => isTrue trivial

/-- The running thread holds no process of an exiting thread. -/
def pauseCheck (state : Collection) (piece : Piece) : Bool :=
  match state.threads[piece.thread]?.map UserThread.stage with
  | some (.holding _ process _) => state.threads.all fun record =>
      !decide (record.stage = .exiting) || decide (record.process ≠ process)
  | _ => true

theorem waiters_pause_of_check (checked : pauseCheck state piece = true) :
    WaitersPause state piece := by
  rintro thread waiter record record' phase found exiting isWaiter isStage rfl
  rw [pauseCheck, isWaiter, Option.map_some, isStage] at checked
  have passes := List.all_eq_true.mp checked record (List.mem_of_getElem? found)
  simp [exiting] at passes

/-- A parent starts a child that goes to sleep and is killed there. -/
def childKilled : List Piece :=
  [.exec 0 0x1000 0x2000 0x1000000 0x6FFFF000 0x70000000 0x6FFFFFF0,
   .exec 1 0x1100 0x2100 0x1000000 0x6FFFF000 0x70000000 0x6FFFFFF0,
   .rest 2, .kill 1 2, .waitpid 1 2 0, .enter 1, .wake 2 0]

set_option maxRecDepth 100000 in
/-- The child's thread ends before the parent goes on. -/
theorem killed_child_destroyed : ∃ state : Collection,
    (state.threads.map UserThread.stage = [.user, .holding .destroying 0x1100 2, .gone]) ∧
    (state.table.objects 0x1100).mainThread = 2 ∧
    ∃ main : UserThread, state.threads[(state.table.objects 0x1100).mainThread]? = some main ∧
      main.process = 0x1100 ∧ main.Over := by
  have completed : ((runAll Collection.step (fun state piece => FreshObject state piece ∧
      SystemCall piece ∧ pauseCheck state piece = true)
        (childKilled ++ [.finish 2, .test 1, .collect 1 true, .destroy 1]) emptyCollection).map
          fun state => (state.threads.map UserThread.stage,
            (state.table.objects 0x1100).mainThread)) =
              some ([.user, .holding .destroying 0x1100 2, .gone], 2) := by decide +kernel
  obtain ⟨state, reached, shape⟩ := collection_run_facts completed
  simp only [Prod.mk.injEq] at shape
  have waits : (state.threads.map UserThread.stage)[1]? = some (.holding .destroying 0x1100 2) := by
    rw [shape.1]
    rfl
  rw [List.getElem?_map] at waits
  obtain ⟨record, found, isStage⟩ := Option.map_eq_some_iff.mp waits
  exact ⟨state, shape.1, shape.2,
    (destroyed_after_exit state (reached.mono fun _ _ checked => ⟨checked.1, checked.2.1,
      waiters_pause_of_check checked.2.2⟩)).1 1 record _ _ _ found isStage rfl⟩

set_option maxRecDepth 100000 in
/-- The parent runs between the mark and the end of the thread. It destroys the process while
the thread has still to run. -/
theorem child_destroyed_early : ∃ state : Collection,
    CollectionReachable (fun state piece => FreshObject state piece ∧ SystemCall piece) state ∧
    state.threads.map UserThread.stage = [.user, .holding .destroying 0x1100 2, .exiting] ∧
    (state.table.objects 0x1100).mainThread = 2 := by
  have completed : ((runAll Collection.step (fun state piece => FreshObject state piece ∧
      SystemCall piece)
        (childKilled ++ [.test 1, .collect 1 true, .destroy 1]) emptyCollection).map
          fun state => (state.threads.map UserThread.stage,
            (state.table.objects 0x1100).mainThread)) =
              some ([.user, .holding .destroying 0x1100 2, .exiting], 2) := by decide +kernel
  obtain ⟨state, reached, shape⟩ := collection_run_facts completed
  exact ⟨state, reached, Prod.mk.inj shape⟩

end Toyix.Processes
