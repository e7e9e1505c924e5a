import Toyix.Library.Transition
import Toyix.Library.Words
import Mathlib.Data.List.FinRange
import Mathlib.Algebra.Group.Nat.Defs
import Mathlib.Data.List.Basic

/-!
# The jobs of the shell

The commands of `user/shell.c` that start, list, collect and kill processes, from the line that
is typed to the table of jobs. The kernel is known by its answers: `exec` answers with the pid of
a new child or -1, `waitpid` answers 0 only for a child of the shell and then removes it,
`procinfo` answers for the children of the shell and for nobody else. Which of the possible
answers a call gets is part of the step.

Next to the table a run keeps the children that the kernel knows and the pids started by a
successful `runbg` and not yet collected by a successful `wait`.
-/

namespace Toyix.User

open Library Function

def shellArgMax : Nat := 12
def shellJobNameMax : Nat := 32

/-! ## Words of a line -/

def toyixIsspace (ch : Char) : Bool := ch = ' ' || ch = '\t' || ch = '\r' || ch = '\n'

/-- The words of a line, at most as many as there is room for. -/
def tokenize : Nat → List Char → List (List Char)
  | 0, _ => []
  | room + 1, line =>
    match line.dropWhile toyixIsspace with
    | [] => []
    | ch :: rest =>
      (ch :: rest).takeWhile (fun ch => !toyixIsspace ch) ::
        tokenize room (((ch :: rest).dropWhile fun ch => !toyixIsspace ch).drop 1)

def isDigit (ch : Char) : Bool := decide ('0' ≤ ch) && decide (ch ≤ '9')

/-- The digits of a number, computed in 32 bits. -/
def digitsValue (digits : List Char) : Int :=
  digits.foldl (fun value ch => int32 (value * 10 + ((ch.toNat : Int) - 48))) 0

/-- The sign of a number and what follows it. -/
def splitSign : List Char → Bool × List Char
  | '-' :: rest => (true, rest)
  | '+' :: rest => (false, rest)
  | text => (false, text)

/-- `toyix_atoi`; nothing when the text is not a number. -/
def toyixAtoi (text : List Char) : Option Int :=
  let (negative, text) := splitSign (text.dropWhile toyixIsspace)
  let digits := text.takeWhile isDigit
  if digits = [] then none
  else if (text.dropWhile isDigit).dropWhile toyixIsspace ≠ [] then none
  else some (if negative then int32 (-digitsValue digits) else digitsValue digits)

/-! ## The table of jobs -/

structure ShellJob where
  pid : UInt32
  active : Bool
  name : List Char
  deriving DecidableEq

/-- `shell_jobs`, with its eight entries. -/
abbrev ShellJobs := Fin 8 → ShellJob

/-- The part of a name that fits. -/
def copyJobName (name : List Char) : List Char := name.take (shellJobNameMax - 1)

def shellFindJobIndex (jobs : ShellJobs) (pid : UInt32) : Option (Fin 8) :=
  (List.finRange 8).find? fun index => (jobs index).active && decide ((jobs index).pid = pid)

def shellAllocJobSlot (jobs : ShellJobs) : Option (Fin 8) :=
  (List.finRange 8).find? fun index => !(jobs index).active

def shellTrackJob (pid : UInt32) (name : List Char) (jobs : ShellJobs) : ShellJobs :=
  match (shellFindJobIndex jobs pid).or (shellAllocJobSlot jobs) with
  | some index => update jobs index ⟨pid, true, copyJobName name⟩
  | none => jobs

def shellForgetJob (pid : UInt32) (jobs : ShellJobs) : ShellJobs :=
  match shellFindJobIndex jobs pid with
  | some index => update jobs index ⟨0, false, []⟩
  | none => jobs

def shellJobName (jobs : ShellJobs) (pid : UInt32) : List Char :=
  match shellFindJobIndex jobs pid with
  | some index => if (jobs index).name = [] then "unknown".toList else (jobs index).name
  | none => "unknown".toList

/-! ## The kernel's answers -/

/-- The fields of `toyix_procinfo_t`. -/
structure ProcInfo where
  pid : UInt32
  parentPid : UInt32
  state : UInt32
  exitCode : UInt32
  exited : Bool
  killRequested : Bool

/-- The shell, with the children that the kernel knows, the pids in the background and what was
printed. -/
structure Shell where
  jobs : ShellJobs
  children : List UInt32
  background : List UInt32
  output : List String

def Shell.print (shell : Shell) (line : String) : Shell :=
  { shell with output := shell.output ++ [line] }

/-- A line that is typed, and what the kernel answers to the calls made for it: the value of
`exec`, the status when `waitpid` returns 0, the contents of `procinfo`, and whether `kill`
returns 0. -/
structure ShellLine where
  line : List Char
  exec : UInt32
  waitpid : Option UInt32
  procinfo : UInt32 → ProcInfo
  kill : Bool

/-- `toyix_exec`: -1, or the pid of a new child, which a `toyix_i32` can hold. -/
def sysExec (answer : UInt32) (shell : Shell) : Option Shell :=
  if answer = 0xFFFFFFFF then some shell
  else if 2 ^ 31 ≤ answer.toNat ∨ answer ∈ shell.children then none
  else some { shell with children := answer :: shell.children }

/-- `toyix_exec` as `runbg` calls it: the child that it starts is in the background from then on. -/
def sysExecBackground (answer : UInt32) (shell : Shell) : Option Shell :=
  (sysExec answer shell).map fun launched =>
    if answer = 0xFFFFFFFF then launched
    else { launched with background := answer :: launched.background }

/-- `toyix_waitpid`: 0 for a child, which is then removed, or -1. -/
def sysWaitpid (answer : Option UInt32) (pid : UInt32) (shell : Shell) : Option Shell :=
  match answer with
  | some _ =>
    if pid ∈ shell.children then some { shell with children := shell.children.erase pid } else none
  | none => some shell

/-- `toyix_procinfo`: the information about a child, or -1. -/
def sysProcinfo (answer : UInt32 → ProcInfo) (pid : UInt32) (shell : Shell) : Option ProcInfo :=
  if pid ∈ shell.children then some (answer pid) else none

/-! ## Commands -/

def processStateName (state : UInt32) : String :=
  if state = 0 then "new"
  else if state = 1 then "running"
  else if state = 2 then "zombie"
  else if state = 3 then "destroyed"
  else "unknown"

def cmdRun (argv : List (List Char)) (typed : ShellLine) (shell : Shell) : Option Shell :=
  match argv with
  | _ :: programName :: _ =>
    (sysExec typed.exec shell).bind fun shell =>
      if int32 typed.exec.toNat < 0 then
        some (shell.print ("run: failed to launch " ++ String.ofList programName))
      else
        (sysWaitpid typed.waitpid typed.exec
          (shell.print (s!"shell: run {String.ofList programName} pid={typed.exec.toNat}"))).map
            fun shell =>
              match typed.waitpid with
              | none =>
                (shell.print s!"run: wait failed for pid {typed.exec.toNat}").print
                  "run: process may not be a child or may not exist"
              | some status =>
                shell.print s!"shell: {String.ofList programName} exited code {status.toNat}"
  | _ => some (shell.print "usage: run PROGRAM [ARGS...]")

def cmdRunbg (argv : List (List Char)) (typed : ShellLine) (shell : Shell) : Option Shell :=
  match argv with
  | _ :: programName :: _ =>
    if shellAllocJobSlot shell.jobs = none then some (shell.print "runbg: job table full")
    else
      (sysExecBackground typed.exec shell).map fun shell =>
        if int32 typed.exec.toNat < 0 then
          shell.print ("runbg: failed to launch " ++ String.ofList programName)
        else
          { shell with jobs := shellTrackJob typed.exec programName shell.jobs }.print
            s!"shell: runbg {String.ofList programName} pid={typed.exec.toNat}"
  | _ => some (shell.print "usage: runbg PROGRAM [ARGS...]")

/-- What `cmd_jobs` prints about a job. -/
def jobLine (job : ShellJob) (info : ProcInfo) : String :=
  s!"  pid={info.pid.toNat} parent={info.parentPid.toNat} name={String.ofList job.name}" ++
    s!" state={processStateName info.state}" ++
    (if info.exited then s!" code={info.exitCode.toNat}" else "") ++
    (if info.killRequested then " kill=yes" else "")

/-- The turn of the loop of `cmd_jobs` for one entry; true when the job was found. -/
def listJob (typed : ShellLine) (found : Bool × Shell) (index : Fin 8) : Bool × Shell :=
  if (found.2.jobs index).active = false then found
  else
    match sysProcinfo typed.procinfo (found.2.jobs index).pid found.2 with
    | none =>
      (found.1, { found.2 with jobs := shellForgetJob (found.2.jobs index).pid found.2.jobs })
    | some info => (true, found.2.print (jobLine (found.2.jobs index) info))

def cmdJobs (typed : ShellLine) (shell : Shell) : Shell :=
  let (found, shell) := (List.finRange 8).foldl (listJob typed) (false, shell.print "shell jobs:")
  if found then shell else shell.print "  none"

/-- The argument of `wait` and `kill`: a positive number, as a pid. -/
def pidArgument (text : List Char) : Option UInt32 :=
  match toyixAtoi text with
  | none => none
  | some parsed => if parsed ≤ 0 then none else some (UInt32.ofNat parsed.toNat)

def cmdWait (argv : List (List Char)) (typed : ShellLine) (shell : Shell) : Option Shell :=
  match argv with
  | [_, text] =>
    match pidArgument text with
    | none => some (shell.print "wait: expected positive PID")
    | some pid =>
      (sysWaitpid typed.waitpid pid shell).map fun shell =>
        match typed.waitpid with
        | none => shell.print s!"wait: failed for pid {pid.toNat}"
        | some status =>
          let printed := shell.print
            s!"shell: wait pid={pid.toNat} name={String.ofList (shellJobName shell.jobs pid)} code={status.toNat}"
          { printed with
            jobs := shellForgetJob pid shell.jobs
            background := shell.background.erase pid }
  | _ => some (shell.print "usage: wait PID")

def cmdKill (argv : List (List Char)) (typed : ShellLine) (shell : Shell) : Shell :=
  match argv with
  | [_, text] =>
    match pidArgument text with
    | none => shell.print "kill: expected positive PID"
    | some pid =>
      if typed.kill then shell.print s!"shell: kill requested pid={pid.toNat}"
      else shell.print s!"kill: failed for pid {pid.toNat}"
  | _ => shell.print "usage: kill PID"

/-- One turn of the loop of `main`, for the commands that have to do with jobs. The other
commands do not touch the table and are left out. -/
def shellStep (typed : ShellLine) (shell : Shell) : Option Shell :=
  let argv := tokenize shellArgMax typed.line
  match argv with
  | [] => some shell
  | command :: _ =>
    if command = "run".toList then cmdRun argv typed shell
    else if command = "runbg".toList then cmdRunbg argv typed shell
    else if command = "jobs".toList then some (cmdJobs typed shell)
    else if command = "wait".toList then cmdWait argv typed shell
    else if command = "kill".toList then some (cmdKill argv typed shell)
    else some shell

/-- The shell when it starts. -/
def shellStart : Shell := ⟨fun _ => ⟨0, false, []⟩, [], [], []⟩

/-! ## The table -/

variable {jobs : ShellJobs} {pid : UInt32} {shell next : Shell} {typed : ShellLine}

/-- The table has an active entry for the pid. -/
def Tracks (jobs : ShellJobs) (pid : UInt32) : Prop :=
  ∃ index, (jobs index).active = true ∧ (jobs index).pid = pid

/-- No pid has two active entries. -/
def Distinct (jobs : ShellJobs) : Prop :=
  ∀ index index', (jobs index).active = true → (jobs index').active = true →
    (jobs index).pid = (jobs index').pid → index = index'

theorem find_job_some {index : Fin 8} (found : shellFindJobIndex jobs pid = some index) :
    (jobs index).active = true ∧ (jobs index).pid = pid := by
  have passes := List.find?_some found
  simpa using passes

theorem find_job_none (found : shellFindJobIndex jobs pid = none) : ¬ Tracks jobs pid := by
  rintro ⟨index, active, isPid⟩
  have misses := List.find?_eq_none.mp found index (List.mem_finRange index)
  simp [active, isPid] at misses

theorem alloc_slot_some {index : Fin 8} (found : shellAllocJobSlot jobs = some index) :
    (jobs index).active = false := by
  have passes := List.find?_some found
  simpa using passes

/-- Tracking a new pid fills a free slot. -/
theorem track_job (distinct : Distinct jobs) (absent : ¬ Tracks jobs pid) (name : List Char)
    (room : shellAllocJobSlot jobs ≠ none) :
    Distinct (shellTrackJob pid name jobs) ∧
      ∀ other, Tracks (shellTrackJob pid name jobs) other ↔ other = pid ∨ Tracks jobs other := by
  obtain ⟨slot, free⟩ := Option.ne_none_iff_exists'.mp room
  have missing : shellFindJobIndex jobs pid = none := by
    cases found : shellFindJobIndex jobs pid with
    | none => rfl
    | some index => exact absurd ⟨index, find_job_some found⟩ absent
  have tracked : shellTrackJob pid name jobs =
      update jobs slot ⟨pid, true, copyJobName name⟩ := by
    simp [shellTrackJob, missing, free]
  have inactive := alloc_slot_some free
  rw [tracked]
  constructor
  · intro index index' active active' same
    by_cases isSlot : index = slot <;> by_cases isSlot' : index' = slot
    · rw [isSlot, isSlot']
    · subst isSlot
      rw [update_self] at same
      rw [update_of_ne isSlot'] at same active'
      exact absurd ⟨index', active', same.symm⟩ absent
    · subst isSlot'
      rw [update_self] at same
      rw [update_of_ne isSlot] at same active
      exact absurd ⟨index, active, same⟩ absent
    · rw [update_of_ne isSlot] at same active
      rw [update_of_ne isSlot'] at same active'
      exact distinct index index' active active' same
  · intro other
    constructor
    · rintro ⟨index, active, isPid⟩
      by_cases isSlot : index = slot
      · rw [isSlot, update_self] at isPid
        exact Or.inl isPid.symm
      · rw [update_of_ne isSlot] at active isPid
        exact Or.inr ⟨index, active, isPid⟩
    · rintro (rfl | ⟨index, active, isPid⟩)
      · exact ⟨slot, by rw [update_self], by rw [update_self]⟩
      · have isOther : index ≠ slot := by
          rintro rfl
          rw [inactive] at active
          cases active
        exact ⟨index, by rw [update_of_ne isOther, active], by
          rw [update_of_ne isOther, isPid]⟩

/-- Forgetting a pid takes its entry away. -/
theorem forget_job (distinct : Distinct jobs) (pid : UInt32) :
    Distinct (shellForgetJob pid jobs) ∧
      ∀ other, Tracks (shellForgetJob pid jobs) other ↔ other ≠ pid ∧ Tracks jobs other := by
  unfold shellForgetJob
  split
  · rename_i slot found
    obtain ⟨active, isPid⟩ := find_job_some found
    have inactive : ∀ index, (update jobs slot ⟨0, false, []⟩ index).active = true →
        index ≠ slot := by
      rintro index isActive rfl
      rw [update_self] at isActive
      cases isActive
    constructor
    · intro index index' isActive isActive' same
      have other := inactive index isActive
      have other' := inactive index' isActive'
      rw [update_of_ne other] at isActive same
      rw [update_of_ne other'] at isActive' same
      exact distinct index index' isActive isActive' same
    · intro tracked
      constructor
      · rintro ⟨index, isActive, isTracked⟩
        have other := inactive index isActive
        rw [update_of_ne other] at isActive isTracked
        refine ⟨?_, index, isActive, isTracked⟩
        rintro rfl
        exact other (distinct index slot isActive active (isTracked.trans isPid.symm))
      · rintro ⟨different, index, isActive, isTracked⟩
        have other : index ≠ slot := by
          rintro rfl
          exact different (isTracked.symm.trans isPid)
        exact ⟨index, by rw [update_of_ne other, isActive], by
          rw [update_of_ne other, isTracked]⟩
  · rename_i missing
    refine ⟨distinct, fun other => ⟨?_, And.right⟩⟩
    intro tracks
    refine ⟨?_, tracks⟩
    rintro rfl
    exact find_job_none missing tracks

/-! ## The invariant -/

/-- The active entries are the children in the background, each once. -/
structure JobsMatch (shell : Shell) : Prop where
  distinct : Distinct shell.jobs
  tracked : ∀ pid, Tracks shell.jobs pid ↔ pid ∈ shell.background
  children : ∀ pid ∈ shell.background, pid ∈ shell.children

/-- The invariant, with what the kernel guarantees about its children. -/
structure ShellInvariant (shell : Shell) : Prop extends JobsMatch shell where
  nodup : shell.children.Nodup
  backgroundNodup : shell.background.Nodup

/-- The invariant does not depend on what was printed. -/
theorem ShellInvariant.congr (inv : ShellInvariant shell) (jobs : next.jobs = shell.jobs)
    (children : next.children = shell.children) (background : next.background = shell.background) :
    ShellInvariant next := by
  refine ⟨⟨?_, ?_, ?_⟩, ?_, ?_⟩
  · rw [jobs]
    exact inv.distinct
  · rw [jobs, background]
    exact inv.tracked
  · rw [children, background]
    exact inv.children
  · rw [children]
    exact inv.nodup
  · rw [background]
    exact inv.backgroundNodup

/-- A launch adds a child that nobody knew. -/
theorem sys_exec_cases {answer : UInt32} (taken : sysExec answer shell = some next) :
    (answer = 0xFFFFFFFF ∧ next = shell) ∨ (answer.toNat < 2 ^ 31 ∧ answer ∉ shell.children ∧
      next = { shell with children := answer :: shell.children }) := by
  unfold sysExec at taken
  split at taken
  · rename_i failed
    exact Or.inl ⟨failed, (Option.some.inj taken).symm⟩
  · split at taken
    · cases taken
    · rename_i allowed
      obtain ⟨small, fresh⟩ := not_or.mp allowed
      exact Or.inr ⟨Nat.lt_of_not_le small, fresh, (Option.some.inj taken).symm⟩

/-- A launched child is not in the background. -/
theorem ShellInvariant.launch (inv : ShellInvariant shell) {answer : UInt32}
    (fresh : answer ∉ shell.children) :
    ShellInvariant { shell with children := answer :: shell.children } := by
  refine ⟨⟨inv.distinct, inv.tracked, ?_⟩, List.nodup_cons.mpr ⟨fresh, inv.nodup⟩,
    inv.backgroundNodup⟩
  intro pid isBackground
  exact List.mem_cons_of_mem _ (inv.children pid isBackground)

/-- A child that is not in the background is collected. -/
theorem ShellInvariant.collect (inv : ShellInvariant shell) (absent : pid ∉ shell.background) :
    ShellInvariant { shell with children := shell.children.erase pid } := by
  refine ⟨⟨inv.distinct, inv.tracked, ?_⟩, inv.nodup.erase pid, inv.backgroundNodup⟩
  intro other isBackground
  refine (List.mem_erase_of_ne ?_).mpr (inv.children other isBackground)
  rintro rfl
  exact absent isBackground

theorem cmd_run_invariant (inv : ShellInvariant shell) {argv : List (List Char)}
    (taken : cmdRun argv typed shell = some next) : ShellInvariant next := by
  unfold cmdRun at taken
  split at taken
  · obtain ⟨launched, isLaunched, continued⟩ := Option.bind_eq_some_iff.mp taken
    rcases sys_exec_cases isLaunched with ⟨failed, rfl⟩ | ⟨-, fresh, rfl⟩
    · have negative : int32 typed.exec.toNat < 0 := by
        rw [failed]
        decide
      rw [if_pos negative] at continued
      cases continued
      exact inv.congr rfl rfl rfl
    · have inv' := inv.launch fresh
      have absent : typed.exec ∉ shell.background := fun isBackground =>
        fresh (inv.children _ isBackground)
      split at continued
      · cases continued
        exact inv'.congr rfl rfl rfl
      · obtain ⟨waited, isWaited, rfl⟩ := Option.map_eq_some_iff.mp continued
        unfold sysWaitpid at isWaited
        split at isWaited
        · rename_i status isStatus
          split at isWaited
          · cases isWaited
            simp only [isStatus]
            have collected := inv'.collect absent
            exact collected.congr rfl rfl rfl
          · cases isWaited
        · rename_i isStatus
          cases isWaited
          simp only [isStatus]
          exact inv'.congr rfl rfl rfl
  · cases taken
    exact inv.congr rfl rfl rfl

theorem cmd_runbg_invariant (inv : ShellInvariant shell) {argv : List (List Char)}
    (taken : cmdRunbg argv typed shell = some next) : ShellInvariant next := by
  unfold cmdRunbg at taken
  split at taken
  · rename_i command programName rest
    split at taken
    · cases taken
      exact inv.congr rfl rfl rfl
    · rename_i room
      obtain ⟨started, isStarted, rfl⟩ := Option.map_eq_some_iff.mp taken
      obtain ⟨launched, isLaunched, rfl⟩ := Option.map_eq_some_iff.mp isStarted
      rcases sys_exec_cases isLaunched with ⟨failed, rfl⟩ | ⟨small, fresh, rfl⟩
      · have negative : int32 typed.exec.toNat < 0 := by
          rw [failed]
          decide
        rw [if_pos negative, if_pos failed]
        exact inv.congr rfl rfl rfl
      · -- A pid that fits is not taken for an error: the branch that tracks it is the one taken.
        have positive : ¬ int32 typed.exec.toNat < 0 := by
          rw [int32_of_range (by omega) (by omega)]
          omega
        have started : typed.exec ≠ 0xFFFFFFFF := by
          intro failed
          rw [failed] at small
          exact absurd small (by decide)
        rw [if_neg positive, if_neg started]
        have inv' := inv.launch fresh
        have absent : typed.exec ∉ shell.background := fun isBackground =>
          fresh (inv.children _ isBackground)
        obtain ⟨distinct, tracked⟩ := track_job inv.distinct
          (fun tracks => absent ((inv.tracked _).mp tracks)) programName room
        refine ⟨⟨distinct, ?_, ?_⟩, inv'.nodup, List.nodup_cons.mpr ⟨absent, inv.backgroundNodup⟩⟩
        · intro pid
          refine (tracked pid).trans ?_
          rw [inv.tracked]
          exact List.mem_cons.symm
        · intro pid isBackground
          rcases List.mem_cons.mp isBackground with rfl | old
          · exact List.mem_cons_self
          · exact inv'.children pid old
  · cases taken
    exact inv.congr rfl rfl rfl

/-- Listing finds every job, since jobs are children. -/
theorem list_job_invariant {found : Bool × Shell} (inv : ShellInvariant found.2) (index : Fin 8) :
    ShellInvariant (listJob typed found index).2 := by
  unfold listJob
  split
  · exact inv
  · rename_i active
    rw [Bool.not_eq_false] at active
    have isChild : (found.2.jobs index).pid ∈ found.2.children :=
      inv.children _ ((inv.tracked _).mp ⟨index, active, rfl⟩)
    rw [sysProcinfo, if_pos isChild]
    exact inv.congr rfl rfl rfl

theorem cmd_jobs_invariant (inv : ShellInvariant shell) : ShellInvariant (cmdJobs typed shell) := by
  have listed : ∀ (indices : List (Fin 8)) (found : Bool × Shell), ShellInvariant found.2 →
      ShellInvariant (indices.foldl (listJob typed) found).2 := by
    intro indices
    induction indices with
    | nil =>
      intro found inv
      exact inv
    | cons index rest ih =>
      intro found inv
      exact ih _ (list_job_invariant inv index)
  have inv' : ShellInvariant (shell.print "shell jobs:") := inv.congr rfl rfl rfl
  have loop := listed (List.finRange 8) (false, shell.print "shell jobs:") inv'
  unfold cmdJobs
  simp only
  split
  · exact loop
  · exact loop.congr rfl rfl rfl

theorem cmd_wait_invariant (inv : ShellInvariant shell) {argv : List (List Char)}
    (taken : cmdWait argv typed shell = some next) : ShellInvariant next := by
  unfold cmdWait at taken
  split at taken
  · split at taken
    · cases taken
      exact inv.congr rfl rfl rfl
    · rename_i pid _
      obtain ⟨waited, isWaited, rfl⟩ := Option.map_eq_some_iff.mp taken
      unfold sysWaitpid at isWaited
      split at isWaited
      · rename_i status isStatus
        split at isWaited
        · cases isWaited
          obtain ⟨distinct, tracked⟩ := forget_job inv.distinct pid
          simp only [isStatus]
          refine ⟨⟨distinct, ?_, ?_⟩, inv.nodup.erase pid, inv.backgroundNodup.erase pid⟩
          · intro other
            refine (tracked other).trans ?_
            rw [inv.tracked]
            exact inv.backgroundNodup.mem_erase_iff.symm
          · intro other isBackground
            obtain ⟨different, old⟩ := inv.backgroundNodup.mem_erase_iff.mp isBackground
            exact (List.mem_erase_of_ne different).mpr (inv.children other old)
        · cases isWaited
      · rename_i isStatus
        cases isWaited
        simp only [isStatus]
        exact inv.congr rfl rfl rfl
  · cases taken
    exact inv.congr rfl rfl rfl

theorem cmd_kill_invariant (inv : ShellInvariant shell) (argv : List (List Char)) :
    ShellInvariant (cmdKill argv typed shell) := by
  unfold cmdKill
  split
  · split
    · exact inv.congr rfl rfl rfl
    · split
      · exact inv.congr rfl rfl rfl
      · exact inv.congr rfl rfl rfl
  · exact inv.congr rfl rfl rfl

theorem shell_step_invariant (inv : ShellInvariant shell)
    (taken : shellStep typed shell = some next) : ShellInvariant next := by
  unfold shellStep at taken
  simp only at taken
  split at taken
  · cases taken
    exact inv
  · split at taken
    · exact cmd_run_invariant inv taken
    · split at taken
      · exact cmd_runbg_invariant inv taken
      · split at taken
        · cases taken
          exact cmd_jobs_invariant inv
        · split at taken
          · exact cmd_wait_invariant inv taken
          · split at taken
            · cases taken
              exact cmd_kill_invariant inv _
            · cases taken
              exact inv

/-- At every prompt the active entries of the table have different pids and are exactly the
children started by a successful `runbg` and not yet collected by a successful `wait`; and a
`runbg` that finds the table full starts nothing. -/
theorem shell_jobs_match (shell : Shell)
    (reached : Reaches shellStep (fun _ _ => True) shellStart shell) :
    JobsMatch shell ∧ ∀ argv typed next, (∀ index, (shell.jobs index).active = true) →
      cmdRunbg argv typed shell = some next →
      next.children = shell.children ∧ next.background = shell.background := by
  have inv : ShellInvariant shell := by
    apply reached.invariant ShellInvariant
    · refine ⟨⟨?_, ?_, ?_⟩, List.nodup_nil, List.nodup_nil⟩
      · intro index index' active
        cases active
      · intro pid
        constructor
        · rintro ⟨index, active, -⟩
          cases active
        · intro absurd
          cases absurd
      · intro pid absurd
        cases absurd
    · intro shell typed next inv _ taken
      exact shell_step_invariant inv taken
  refine ⟨inv.toJobsMatch, ?_⟩
  intro argv typed next full taken
  have noSlot : shellAllocJobSlot shell.jobs = none := by
    apply List.find?_eq_none.mpr
    intro index _
    simp [full index]
  unfold cmdRunbg at taken
  split at taken
  · rw [if_pos noSlot] at taken
    cases taken
    exact ⟨rfl, rfl⟩
  · cases taken
    exact ⟨rfl, rfl⟩

/-- A line without answers of the kernel. -/
def plainLine (line : String) : ShellLine :=
  ⟨line.toList, 0xFFFFFFFF, none, fun pid => ⟨pid, 1, 1, 0, false, false⟩, false⟩

set_option maxRecDepth 100000 in
/-- Two programs in the background; the first one is collected. -/
theorem second_job_tracked : ∃ shell : Shell, shell.background = [3] ∧
    (shell.jobs 0).active = false ∧ (shell.jobs 1).pid = 3 ∧ JobsMatch shell := by
  have completed : ((runAll shellStep (fun _ _ => True)
      [{ plainLine "runbg counter" with exec := 2 }, { plainLine "runbg demo x" with exec := 3 },
        plainLine "jobs", { plainLine "wait 2" with waitpid := some 0 }] shellStart).map fun shell =>
          (shell.background, (shell.jobs 0).active, (shell.jobs 1).pid)) =
            some ([3], false, 3) := by decide +kernel
  obtain ⟨shell, reached, shape⟩ := Reaches.of_facts completed
  simp only [Prod.mk.injEq] at shape
  exact ⟨shell, shape.1, shape.2.1, shape.2.2, (shell_jobs_match shell reached).1⟩

end Toyix.User
