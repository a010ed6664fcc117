import Nosv.Runtime

/-!
# Blocking calls of a parallel task

A parallel task must not block: its descriptor is shared by all of its
executions. Each call that could block, requeue or suspend the calling
task is modelled up to the point where it returns or where the thread
gives up its CPU, for ordinary and parallel tasks alike. `Site` is
everything that such a call may touch: the descriptor of the task and its
submit window, one mutex, one barrier, one condition variable, and what
has been submitted to the scheduler.

Most calls check `task_is_parallel`, and then not always first.
`nosv_barrier_wait`, `nosv_mutex_unlock`, `nosv_cond_wait` and
`nosv_suspend` do not. `Safe` is what is left: the calls, and the states,
for which a parallel task neither blocks nor leaves anything behind
(`meets_iff_safe`).
-/

namespace Nosv

inductive CallErr where
  | outsideTask
  | invalidOperation
  deriving DecidableEq, Repr

inductive CallOutcome where
  /-- `none` is `NOSV_SUCCESS` -/
  | returns (err : Option CallErr)
  /-- the thread hands its CPU over and blocks -/
  | blocks
  /-- an assertion fails -/
  | asserts
  /-- `nosv_abort` -/
  | aborts
  deriving DecidableEq, Repr

structure Site where
  /-- the calling task -/
  current : TaskId
  task : Task
  inTaskBody : Bool
  submitWindow : List TaskId
  submitWindowMaxsize : Nat
  immediateSuccessor : Option TaskId
  /-- what has been given to the scheduler, in order -/
  submitted : List TaskId
  /-- what `scheduler_get` without blocking returns -/
  ready : Option TaskId
  /-- whether the quantum of the process is over -/
  quantumOver : Bool
  /-- `task_affine` with the CPU of the caller -/
  affine : TaskId → Bool
  now : Nat
  mutexTaken : Bool
  mutexList : List TaskId
  barrierCount : UInt32
  barrierTowait : UInt32
  barrierWaiting : List TaskId
  condList : List TaskId
  condListTimed : List TaskId

inductive BlockingCall where
  | pause
  | waitfor (targetNs : Nat)
  | yield (noflush : Bool)
  | schedpoint
  | mutexLock
  | mutexUnlock
  | barrierWait
  /-- `nosv_cond_timedwait`; `none` is `nosv_cond_wait` -/
  | condWait (abstimeNs : Option Nat)
  /-- `nosv_submit` of a task with the blocking flag; `last` tells whether
  its blocking count becomes zero -/
  | submitBlocking (t : TaskId) (last : Bool)
  | suspend
  deriving DecidableEq, Repr

namespace Site

/-! ## The calls -/

def schedulerSubmitSingle (s : Site) (t : TaskId) : Site :=
  { s with submitted := s.submitted ++ [t] }

def nosvFlushSubmitWindow (s : Site) : Site :=
  { s with submitted := s.submitted ++ s.submitWindow, submitWindow := [] }

def schedulerBatchSubmit (s : Site) (t : TaskId) : Site :=
  if s.submitWindowMaxsize = 1 then s.schedulerSubmitSingle t
  else
    let s := { s with submitWindow := s.submitWindow ++ [t] }
    if s.submitWindowMaxsize ≤ s.submitWindow.length then s.nosvFlushSubmitWindow else s

def taskPause (s : Site) (useBlockingCount : Bool) : CallOutcome × Site :=
  if taskIsParallel s.task then (.asserts, s)
  else
    let s := s.nosvFlushSubmitWindow
    if useBlockingCount then
      let s := { s with task := { s.task with blockingCount := countUp s.task.blockingCount } }
      if 0 < s.task.blockingCount then (.blocks, s) else (.returns none, s)
    else (.blocks, s)

def workerYieldTo (s : Site) : CallOutcome × Site :=
  if taskIsParallel s.task then (.asserts, s)
  else (.blocks, s.schedulerSubmitSingle s.current)

/-- `worker_yield_if_needed`, and the return of its caller. -/
def workerYieldIfNeeded (s : Site) : CallOutcome × Site :=
  match s.immediateSuccessor, s.ready with
  | some _, _ => { s with immediateSuccessor := none }.workerYieldTo
  | none, some _ => s.workerYieldTo
  | none, none => (.returns none, s)

def nosvPause (s : Site) : CallOutcome × Site :=
  let s := s.nosvFlushSubmitWindow
  if taskIsParallel s.task then (.returns (some .invalidOperation), s) else s.taskPause true

def nosvWaitfor (s : Site) (targetNs : Nat) : CallOutcome × Site :=
  if taskIsParallel s.task then (.returns (some .invalidOperation), s)
  else
    let s := s.nosvFlushSubmitWindow
    match setTaskDeadline s.task s.now targetNs with
    | (true, task) => (.blocks, { s with task := task }.schedulerSubmitSingle s.current)
    | (false, task) => (.returns none, { s with task := task })

def nosvYield (s : Site) (noflush : Bool) : CallOutcome × Site :=
  let s := if noflush then s else s.nosvFlushSubmitWindow
  if taskIsParallel s.task then (.returns (some .invalidOperation), s)
  else s.workerYieldIfNeeded

def nosvSchedpoint (s : Site) : CallOutcome × Site :=
  let s := s.nosvFlushSubmitWindow
  if taskIsParallel s.task then (.returns (some .invalidOperation), s)
  else if s.quantumOver then s.workerYieldIfNeeded
  else (.returns none, s)

def nosvMutexLock (s : Site) : CallOutcome × Site :=
  if taskIsParallel s.task then (.returns (some .invalidOperation), s)
  else if s.mutexTaken then { s with mutexList := s.mutexList ++ [s.current] }.taskPause false
  else (.returns none, { s with mutexTaken := true })

def nosvMutexUnlockInternal (s : Site) (yieldAllowed : Bool) : CallOutcome × Site :=
  match s.mutexList with
  | [] => (.returns none, { s with mutexTaken := false })
  | t :: rest =>
      let s := { s with mutexList := rest }
      if yieldAllowed && s.affine t then s.workerYieldTo
      else (.returns none, s.schedulerSubmitSingle t)

def nosvBarrierWait (s : Site) : CallOutcome × Site :=
  let s := { s with barrierTowait := s.barrierTowait - 1 }
  if s.barrierTowait ≠ 0 then
    { s with barrierWaiting := s.barrierWaiting ++ [s.current] }.taskPause false
  else
    (.returns none, { s with
      barrierWaiting := []
      barrierTowait := s.barrierCount
      submitted := s.submitted ++ s.barrierWaiting })

/-- The end of `nosv_cond_timedwait`, when the wait has returned. -/
def condLeave (s : Site) (timed : Bool) : CallOutcome × Site :=
  if timed then
    { s with condListTimed := s.condListTimed.filter (· ≠ s.current) }.nosvMutexLock
  else s.nosvMutexLock

def nosvCondTimedwait (s : Site) (abstimeNs : Option Nat) : CallOutcome × Site :=
  match abstimeNs with
  | none =>
      match { s with condList := s.condList ++ [s.current] }.nosvMutexUnlockInternal false with
      | (.returns none, s) =>
          match s.nosvPause with
          | (.returns none, s) => s.condLeave false
          | r => r
      | (_, s) => (.aborts, s)
  | some abstime =>
      if abstime < s.now then (.returns none, s)
      else
        match { s with condListTimed := s.condListTimed ++ [s.current] }.nosvMutexUnlockInternal
            false with
        | (.returns none, s) =>
            if abstime - s.now = 0 then (.asserts, s)
            else
              match s.nosvWaitfor (abstime - s.now) with
              | (.returns none, s) => s.condLeave true
              | (.returns (some _), s) => (.aborts, s)
              | r => r
        | (_, s) => (.aborts, s)

def nosvSubmitBlocking (s : Site) (t : TaskId) (last : Bool) : CallOutcome × Site :=
  if taskIsParallel s.task then (.returns (some .invalidOperation), s)
  else (if last then s.schedulerBatchSubmit t else s).taskPause true

def nosvSuspend (s : Site) : CallOutcome × Site :=
  if s.inTaskBody then (.returns none, { s with task := { s.task with suspend := true } })
  else (.returns (some .outsideTask), s)

def call (s : Site) : BlockingCall → CallOutcome × Site
  | .pause => s.nosvPause
  | .waitfor targetNs => s.nosvWaitfor targetNs
  | .yield noflush => s.nosvYield noflush
  | .schedpoint => s.nosvSchedpoint
  | .mutexLock => s.nosvMutexLock
  | .mutexUnlock => s.nosvMutexUnlockInternal true
  | .barrierWait => s.nosvBarrierWait
  | .condWait abstimeNs => s.nosvCondTimedwait abstimeNs
  | .submitBlocking t last => s.nosvSubmitBlocking t last
  | .suspend => s.nosvSuspend

/-! ## What a parallel task may expect -/

/-- Where somebody may find the calling task and resume it. -/
def waitLists (s : Site) : List (List TaskId) :=
  [s.mutexList, s.barrierWaiting, s.condList, s.condListTimed, s.submitted]

/-- The call did not queue the calling task anywhere and did not mark it as
suspended. -/
def Unqueued (s s' : Site) : Prop :=
  s'.task.suspend = s.task.suspend
    ∧ ∀ l ∈ s'.waitLists.zip s.waitLists, l.1.count s.current ≤ l.2.count s.current

/-- The mutex, the barrier, the condition variable and the scheduler are as
before. -/
def Untouched (s s' : Site) : Prop :=
  s'.mutexTaken = s.mutexTaken ∧ s'.barrierTowait = s.barrierTowait ∧ s'.waitLists = s.waitLists

/-- The call completes without blocking, requeueing or suspending the task,
or it is refused and has no effect. -/
def Meets (s : Site) (c : BlockingCall) : Prop :=
  match s.call c with
  | (.returns (some .invalidOperation), s') => s.Untouched s'
  | (.returns _, s') => s.Unqueued s'
  | _ => False

/-- The calls that a parallel task may make in a state. -/
def Safe (s : Site) : BlockingCall → Prop
  | .pause => s.submitWindow = []
  | .waitfor _ => True
  | .yield noflush => noflush = true ∨ s.submitWindow = []
  | .schedpoint => s.submitWindow = []
  | .mutexLock => True
  | .mutexUnlock => ∀ t ∈ s.mutexList.head?, s.affine t = false ∧ t ≠ s.current
  | .barrierWait => s.barrierTowait = 1 ∧ s.current ∉ s.barrierWaiting
  | .condWait none => False
  | .condWait (some abstime) => abstime < s.now
  | .submitBlocking _ _ => True
  | .suspend => s.inTaskBody = false ∨ s.task.suspend = true

variable {s : Site}

/-! ## Each call -/

theorem unqueued_refl (s : Site) : s.Unqueued s := by
  refine ⟨rfl, fun l hl => ?_⟩
  obtain ⟨i, hi⟩ := List.mem_iff_getElem?.mp hl
  rw [List.getElem?_zip_eq_some] at hi
  rw [Option.some.inj (hi.1.symm.trans hi.2)]

theorem untouched_refl (s : Site) : s.Untouched s := ⟨rfl, rfl, rfl⟩

/-- The window is flushed into the scheduler. -/
theorem untouched_flush_iff : s.Untouched s.nosvFlushSubmitWindow ↔ s.submitWindow = [] := by
  simp [Untouched, nosvFlushSubmitWindow, waitLists]

theorem meets_pause_iff (hp : taskIsParallel s.task = true) :
    s.Meets .pause ↔ s.submitWindow = [] := by
  have hcall : s.call .pause = (.returns (some .invalidOperation), s.nosvFlushSubmitWindow) := by
    simp only [call, nosvPause]
    exact if_pos hp
  simp only [Meets, hcall]
  exact untouched_flush_iff

theorem meets_yield_iff (hp : taskIsParallel s.task = true) (noflush : Bool) :
    s.Meets (.yield noflush) ↔ noflush = true ∨ s.submitWindow = [] := by
  cases noflush with
  | true =>
      have hcall : s.call (.yield true) = (.returns (some .invalidOperation), s) := if_pos hp
      simp only [Meets, hcall, true_or, iff_true]
      exact untouched_refl s
  | false =>
      have hcall : s.call (.yield false)
          = (.returns (some .invalidOperation), s.nosvFlushSubmitWindow) := if_pos hp
      simp only [Meets, hcall, Bool.false_eq_true, false_or]
      exact untouched_flush_iff

theorem meets_schedpoint_iff (hp : taskIsParallel s.task = true) :
    s.Meets .schedpoint ↔ s.submitWindow = [] := by
  have hcall : s.call .schedpoint
      = (.returns (some .invalidOperation), s.nosvFlushSubmitWindow) := if_pos hp
  simp only [Meets, hcall]
  exact untouched_flush_iff

theorem not_meets {c : BlockingCall} (h : ∀ e, (s.call c).1 ≠ .returns e) : ¬ s.Meets c := by
  intro hm
  unfold Meets at hm
  split at hm
  · rename_i hcall
    exact h _ (by rw [hcall])
  · rename_i hcall
    exact h _ (by rw [hcall])
  · exact hm

/-- The calls that check first. -/
theorem meets_of_refused {c : BlockingCall}
    (hcall : s.call c = (.returns (some .invalidOperation), s)) : s.Meets c := by
  simp only [Meets, hcall]
  exact untouched_refl s

theorem meets_mutexUnlock_iff (hp : taskIsParallel s.task = true) :
    s.Meets .mutexUnlock ↔ ∀ t ∈ s.mutexList.head?, s.affine t = false ∧ t ≠ s.current := by
  cases hlist : s.mutexList with
  | nil =>
      have hcall : s.call .mutexUnlock = (.returns none, { s with mutexTaken := false }) := by
        simp only [call, nosvMutexUnlockInternal, hlist]
      simp only [Meets, hcall, List.head?_nil, Option.not_mem_none, false_implies, implies_true,
        iff_true]
      exact unqueued_refl s
  | cons t rest =>
      cases haff : s.affine t with
      | true =>
          have hcall : s.call .mutexUnlock = (.asserts, { s with mutexList := rest }) := by
            simp only [call, nosvMutexUnlockInternal, hlist, haff, Bool.and_self, if_true]
            exact if_pos hp
          simp [Meets, hcall, haff]
      | false =>
          have hcall : s.call .mutexUnlock
              = (.returns none, { s with mutexList := rest }.schedulerSubmitSingle t) := by
            simp [call, nosvMutexUnlockInternal, hlist, haff]
          have hcons : rest.count s.current ≤ (t :: rest).count s.current := List.count_le_count_cons
          simp [Meets, hcall, Unqueued, waitLists, schedulerSubmitSingle, hlist, haff, hcons,
            List.count_append, List.count_singleton]

theorem meets_barrierWait_iff (hp : taskIsParallel s.task = true) :
    s.Meets .barrierWait ↔ s.barrierTowait = 1 ∧ s.current ∉ s.barrierWaiting := by
  by_cases hone : s.barrierTowait = 1
  · have hcall : s.call .barrierWait = (.returns none, { s with
        barrierWaiting := [], barrierTowait := s.barrierCount,
        submitted := s.submitted ++ s.barrierWaiting }) := by
      simp [call, nosvBarrierWait, hone]
    simp [Meets, hcall, Unqueued, waitLists, hone, List.count_append, List.count_eq_zero]
  · have hne : s.barrierTowait - 1 ≠ 0 := fun h => hone (by grind)
    have hcall : (s.call .barrierWait).1 = .asserts := by
      simp [call, nosvBarrierWait, hne, taskPause, hp]
    exact iff_of_false (not_meets fun e => by rw [hcall]; simp) fun h => hone h.1

/-- An unlock without `worker_yield_to` always returns. -/
theorem nosvMutexUnlockInternal_false (s : Site) :
    ∃ s₁, s.nosvMutexUnlockInternal false = (.returns none, s₁) ∧ s₁.task = s.task
      ∧ s₁.condList = s.condList ∧ s₁.now = s.now := by
  unfold nosvMutexUnlockInternal
  split
  · exact ⟨_, rfl, rfl, rfl, rfl⟩
  · simp only [Bool.false_and, Bool.false_eq_true, if_false]
    exact ⟨_, rfl, rfl, rfl, rfl⟩

/-- The task is left in the list, and the mutex unlocked. -/
theorem not_meets_condWait (hp : taskIsParallel s.task = true) : ¬ s.Meets (.condWait none) := by
  obtain ⟨s₁, hunlock, htask, hlist, -⟩ :=
    nosvMutexUnlockInternal_false { s with condList := s.condList ++ [s.current] }
  have hpause : s₁.nosvPause = (.returns (some .invalidOperation), s₁.nosvFlushSubmitWindow) := by
    simp only [nosvPause]
    exact if_pos (htask ▸ hp)
  have hcall : s.call (.condWait none)
      = (.returns (some .invalidOperation), s₁.nosvFlushSubmitWindow) := by
    simp only [call, nosvCondTimedwait, hunlock, hpause]
  intro hm
  simp only [Meets, hcall] at hm
  simp [Untouched, waitLists, nosvFlushSubmitWindow, hlist] at hm

theorem meets_condTimedwait_iff (hp : taskIsParallel s.task = true) (abstime : Nat) :
    s.Meets (.condWait (some abstime)) ↔ abstime < s.now := by
  by_cases hlate : abstime < s.now
  · have hcall : s.call (.condWait (some abstime)) = (.returns none, s) := by
      simp only [call, nosvCondTimedwait]
      exact if_pos hlate
    simp only [Meets, hcall, hlate, iff_true]
    exact unqueued_refl s
  · obtain ⟨s₁, hunlock, htask, -, -⟩ :=
      nosvMutexUnlockInternal_false { s with condListTimed := s.condListTimed ++ [s.current] }
    have hwait (n : Nat) : s₁.nosvWaitfor n = (.returns (some .invalidOperation), s₁) :=
      if_pos (htask ▸ hp)
    refine iff_of_false (not_meets fun e => ?_) hlate
    simp only [call, nosvCondTimedwait, if_neg hlate, hunlock, hwait]
    split <;> simp

theorem meets_suspend_iff :
    s.Meets .suspend ↔ s.inTaskBody = false ∨ s.task.suspend = true := by
  cases hbody : s.inTaskBody with
  | true =>
      have hcall : s.call .suspend
          = (.returns none, { s with task := { s.task with suspend := true } }) := if_pos hbody
      simp [Meets, hcall, Unqueued, waitLists]
  | false =>
      have hcall : s.call .suspend = (.returns (some .outsideTask), s) := by
        simp [call, nosvSuspend, hbody]
      simp only [Meets, hcall, true_or, iff_true]
      exact unqueued_refl s

end Site

open Site

/-- A call of a parallel task completes without blocking, requeueing or
suspending it, or is refused without an effect, exactly when it is safe. -/
theorem meets_iff_safe {s : Site} (hp : taskIsParallel s.task = true) (c : BlockingCall) :
    s.Meets c ↔ s.Safe c := by
  cases c with
  | pause => exact meets_pause_iff hp
  | waitfor targetNs => exact iff_of_true (meets_of_refused (if_pos hp)) trivial
  | yield noflush => exact meets_yield_iff hp noflush
  | schedpoint => exact meets_schedpoint_iff hp
  | mutexLock => exact iff_of_true (meets_of_refused (if_pos hp)) trivial
  | mutexUnlock => exact meets_mutexUnlock_iff hp
  | barrierWait => exact meets_barrierWait_iff hp
  | condWait abstime =>
      cases abstime with
      | none => exact iff_of_false (not_meets_condWait hp) id
      | some abstime => exact meets_condTimedwait_iff hp abstime
  | submitBlocking t last => exact iff_of_true (meets_of_refused (if_pos hp)) trivial
  | suspend => exact meets_suspend_iff

/-- A task of degree 2 that calls with nothing in its window; another task
has the mutex, and the barrier is for two. -/
def parallelSite : Site where
  current := 0
  task := { nosvCreateInternal 0 ⟨.none, .strict, 0⟩ with degree := 2, blockingCount := 0 }
  inTaskBody := true
  submitWindow := []
  submitWindowMaxsize := 1
  immediateSuccessor := none
  submitted := []
  ready := none
  quantumOver := false
  affine := fun _ => true
  now := 0
  mutexTaken := true
  mutexList := []
  barrierCount := 2
  barrierTowait := 2
  barrierWaiting := []
  condList := []
  condListTimed := []

theorem meets_iff_safe_pause :
    taskIsParallel parallelSite.task = true ∧ parallelSite.Meets .pause :=
  ⟨by decide, (meets_iff_safe (by decide) .pause).mpr rfl⟩

/-- `nosv_barrier_wait` fails the assertion of `task_pause`. -/
theorem parallel_barrierWait_asserts :
    taskIsParallel parallelSite.task = true
      ∧ (parallelSite.call .barrierWait).1 = .asserts ∧ ¬ parallelSite.Meets .barrierWait := by
  refine ⟨by decide, by decide +kernel, not_meets fun e => ?_⟩
  rw [show (parallelSite.call .barrierWait).1 = .asserts by decide +kernel]
  simp

end Nosv
