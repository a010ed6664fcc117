import Nosv.Lib.Run
import Nosv.Runtime

/-!
# Inline submission

`nosv_submit` with `NOSV_SUBMIT_INLINE` calls `task_execute`, which is
written for the loop of the workers, from the middle of another task. One
thread is followed here, a worker or an attached thread, with the stack of
inline submissions it is in. Between two of its steps other threads may
submit any task and do anything to the tasks that are not on this stack;
if a task on the stack is parallel, its other executions may set a suspend
mode, suspend and end.

Of a descriptor only the members stand here that the calls of this thread
write: `flags`, `worker` and `blocking_count`, and the degree, which tells
parallel tasks. A call that may give the CPU away (`nosv_yield`,
`nosv_schedpoint`, `nosv_waitfor`, waiting in a lock) is the step `switch`;
`nosv_submit` is `submit` whatever its other flags, and with
`NOSV_SUBMIT_BLOCKING` a `pause` follows it.

The members of a frame after `spot` are history: nothing reads them. Among
them is what is done to the calling task while the call is in progress, by
whatever thread (`Outside`).
-/

namespace Nosv

open Run

/-- `task_execution_handle_t` -/
structure ExecutionHandle where
  task : TaskId
  executionId : Nat
  deriving DecidableEq, Repr

/-- The members of `struct nosv_worker` that tell what the thread is in. -/
structure WorkerState where
  handle : Option ExecutionHandle
  inTaskBody : Bool
  deriving DecidableEq, Repr

structure Descriptor where
  parallel : Bool
  /-- `TASK_FLAG_SUSPEND` -/
  suspend : Bool
  suspendMode : SuspendMode
  /-- `task->worker` -/
  worker : Option Nat
  blockingCount : Int
  deriving DecidableEq, Repr

namespace Descriptor

/-- `nosv_set_suspend_mode`; `none` stands for a value that is no mode. -/
def setSuspendMode (k : Descriptor) (mode : Option SuspendMode) (args : Nat) : Descriptor :=
  let k := { k with suspendMode := .none }
  match mode with
  | none => k
  | some .submit => if args ≠ 1 ∧ args ≠ 0 then k else { k with suspendMode := .submit }
  | some mode => { k with suspendMode := mode }

/-- `task_suspend` -/
def taskSuspend (k : Descriptor) : Descriptor :=
  { k with suspend := false, suspendMode := .none,
           blockingCount := if k.suspendMode = .none then countUp k.blockingCount
             else k.blockingCount }

/-- What `task_execute` writes after the callbacks. -/
def endExecution (k : Descriptor) : Descriptor :=
  let k := { k with worker := none }
  if k.suspend then k.taskSuspend else { k with blockingCount := 1 }

end Descriptor

/-! ## What is done to a task from outside of its execution -/

inductive Outside where
  /-- a `nosv_submit` of the task -/
  | submits
  /-- another execution of a parallel task sets its suspend mode -/
  | setsSuspendMode (mode : Option SuspendMode) (args : Nat)
  /-- another execution suspends -/
  | suspends
  /-- another execution ends -/
  | ends
  deriving DecidableEq, Repr

def Descriptor.after (k : Descriptor) : Outside → Descriptor
  | .submits => { k with blockingCount := countDown k.blockingCount }
  | .setsSuspendMode mode args => k.setSuspendMode mode args
  | .suspends => { k with suspend := true }
  | .ends => k.endExecution

/-! ## What a task sees of its thread -/

/-- `nosv_self` -/
def nosvSelf (w : WorkerState) : Option TaskId := w.handle.map (·.task)

/-- `nosv_get_execution_id`; `none` is `NOSV_ERR_OUTSIDE_TASK`. -/
def nosvGetExecutionId (w : WorkerState) : Option Nat := w.handle.map (·.executionId - 1)

/-- `nosv_suspend` for the current task; `none` is `NOSV_ERR_OUTSIDE_TASK`. -/
def nosvSuspend (w : WorkerState) (k : Descriptor) : Option Descriptor :=
  if w.handle = none ∨ w.inTaskBody = false then none else some { k with suspend := true }

/-! ## The thread -/

/-- Where the thread is in the execution of its current task. -/
inductive InlineSpot where
  /-- in the loop of the worker, without a task -/
  | loop
  /-- in `run_callback`, or in the code of an attached thread -/
  | body
  /-- in `task_execute`, after `run_callback`; `end_callback` runs here -/
  | ending
  /-- in `task_execute`, without a task -/
  | done
  deriving DecidableEq, Repr

inductive Stop where
  | running
  /-- blocked by `nosv_pause` -/
  | paused
  /-- has given the CPU away -/
  | switched
  deriving DecidableEq, Repr

/-- An inline submission in progress. -/
structure InlineFrame where
  oldHandle : ExecutionHandle
  /-- where the caller goes on -/
  spot : InlineSpot
  /-- the worker as it was when the call was made -/
  worker : WorkerState
  /-- the task that made the call, as it was -/
  task : Descriptor
  /-- what has been done to that task since -/
  outside : List Outside

structure InlineThread where
  /-- the address of `current_worker` -/
  self : Nat
  attached : Bool
  worker : WorkerState
  task : TaskId → Descriptor
  spot : InlineSpot
  stop : Stop
  frames : List InlineFrame

inductive InlineMove where
  | execute (h : ExecutionHandle)
  | submitInline (t : TaskId)
  | submit (t : TaskId)
  | other (t : TaskId) (e : Outside)
  | setSuspendMode (mode : Option SuspendMode) (args : Nat)
  | suspend
  | pause
  | switch
  | resume
  | bodyEnds
  | finish
  | restore
  | elsewhere (t : TaskId) (k : Descriptor)

namespace InlineThread

def setTask (s : InlineThread) (t : TaskId) (k : Descriptor) : InlineThread :=
  { s with task := Function.update s.task t k }

/-- What is done to task `t` from outside of the execution on this thread. -/
def doOutside (s : InlineThread) (t : TaskId) (e : Outside) : InlineThread :=
  { s.setTask t ((s.task t).after e) with
    frames := s.frames.map fun f =>
      if f.oldHandle.task = t then { f with outside := f.outside ++ [e] } else f }

/-- `task_execute` up to `run_callback`. -/
def taskExecute (s : InlineThread) (h : ExecutionHandle) : InlineThread :=
  let k := s.task h.task
  let k := if k.parallel then k else { k with worker := some s.self }
  { s.setTask h.task k with worker := ⟨some h, true⟩, spot := .body }

/-- Task `t` is in the middle of an inline submission of this thread, or
current. -/
def OnStack (s : InlineThread) (t : TaskId) : Prop :=
  (∃ h, s.worker.handle = some h ∧ h.task = t) ∨ ∃ f ∈ s.frames, f.oldHandle.task = t

instance (s : InlineThread) (t : TaskId) : Decidable (s.OnStack t) :=
  decidable_of_iff ((∃ h ∈ s.worker.handle, h.task = t) ∨ ∃ f ∈ s.frames, f.oldHandle.task = t)
    (by simp only [OnStack, Option.mem_def])

def step (s : InlineThread) : InlineMove → Option InlineThread
  | .execute h => if s.spot = .loop then some (s.taskExecute h) else none
  | .submitInline t =>
      let k := s.task t
      match s.worker.handle with
      | none => none
      | some old =>
          -- the code asserts that the count is zero
          if s.stop = .running ∧ k.parallel = false ∧ countDown k.blockingCount = 0 then
            let s := { s with frames := ⟨old, s.spot, s.worker, s.task old.task, []⟩ :: s.frames }
            let s := s.setTask t { k with blockingCount := countDown k.blockingCount }
            some (s.taskExecute ⟨t, 1⟩)
          else none
  | .submit t => some (s.doOutside t .submits)
  | .other t e => if (s.task t).parallel then some (s.doOutside t e) else none
  | .setSuspendMode mode args =>
      match s.worker.handle with
      | none => none
      | some h =>
          if s.stop = .running then
            some (s.setTask h.task ((s.task h.task).setSuspendMode mode args))
          else none
  | .suspend =>
      match s.worker.handle with
      | none => none
      | some h =>
          if s.stop = .running then
            match nosvSuspend s.worker (s.task h.task) with
            | none => some s
            | some k => some (s.setTask h.task k)
          else none
  | .pause =>
      match s.worker.handle with
      | none => none
      | some h =>
          let k := s.task h.task
          let count := countUp k.blockingCount
          if s.stop = .running ∧ k.parallel = false then
            some { s.setTask h.task { k with blockingCount := count } with
              stop := if 0 < count then .paused else .running }
          else none
  | .switch =>
      match s.worker.handle with
      | none => none
      | some h =>
          if s.stop = .running ∧ (s.task h.task).parallel = false then
            some { s with stop := .switched }
          else none
  | .resume =>
      match s.worker.handle with
      | none => none
      | some h =>
          if s.stop = .switched ∨ (s.stop = .paused ∧ (s.task h.task).blockingCount ≤ 0) then
            some { s with stop := .running }
          else none
  | .bodyEnds =>
      -- the code of an attached thread does not run in a callback
      if s.stop = .running ∧ s.spot = .body ∧ (s.attached = true → s.frames ≠ []) then
        some { s with worker := { s.worker with inTaskBody := false }, spot := .ending }
      else none
  | .finish =>
      match s.worker.handle with
      | none => none
      | some h =>
          if s.stop = .running ∧ s.spot = .ending then
            some { s.setTask h.task (s.task h.task).endExecution with
              worker := { s.worker with handle := none }, spot := .done }
          else none
  | .restore =>
      if s.spot = .done then
        match s.frames with
        | [] => some { s with spot := .loop }
        | f :: rest =>
            some { s with worker := { s.worker with handle := some f.oldHandle }, spot := f.spot,
                          frames := rest }
      else none
  | .elsewhere t k => if s.OnStack t then none else some (s.setTask t k)

/-- A worker in its loop, or a thread that has just attached with a task
of its own. -/
def init (self : Nat) (task : TaskId → Descriptor) : Option TaskId → InlineThread
  | none => ⟨self, false, ⟨none, false⟩, task, .loop, .running, []⟩
  | some t =>
      let k := ⟨false, false, .none, some self, 0⟩
      ⟨self, true, ⟨some ⟨t, 1⟩, true⟩, Function.update task t k, .body, .running, []⟩

/-- What is claimed of the return of an inline submission: worker and task
are as before the call, and so are the answers of the calls that look at
them. -/
structure Unseen (f : InlineFrame) (s : InlineThread) : Prop where
  worker : s.worker = f.worker
  task : s.task f.oldHandle.task = f.task
  self : nosvSelf s.worker = nosvSelf f.worker
  executionId : nosvGetExecutionId s.worker = nosvGetExecutionId f.worker
  suspend : nosvSuspend s.worker (s.task f.oldHandle.task) = nosvSuspend f.worker f.task

instance (f : InlineFrame) (s : InlineThread) : Decidable (Unseen f s) :=
  decidable_of_iff (s.worker = f.worker ∧ s.task f.oldHandle.task = f.task
      ∧ nosvSelf s.worker = nosvSelf f.worker
      ∧ nosvGetExecutionId s.worker = nosvGetExecutionId f.worker
      ∧ nosvSuspend s.worker (s.task f.oldHandle.task) = nosvSuspend f.worker f.task)
    ⟨fun h => ⟨h.1, h.2.1, h.2.2.1, h.2.2.2.1, h.2.2.2.2⟩,
      fun h => ⟨h.worker, h.task, h.self, h.executionId, h.suspend⟩⟩

/-- The inline submission that a step returns from. -/
def returning (s : InlineThread) : InlineMove → Option InlineFrame
  | .restore => if s.spot = .done then s.frames.head? else none
  | _ => none

def Transparent (s : InlineThread) (m : InlineMove) : Prop :=
  ∀ f ∈ s.returning m, ∀ s' ∈ s.step m, Unseen f s'

instance (s : InlineThread) (m : InlineMove) : Decidable (s.Transparent m) := by
  unfold Transparent
  infer_instance

/-- The calling task was left alone meanwhile: an ordinary task has not been
submitted, and what the submissions and the other executions of a parallel
task did to its descriptor cancels out. -/
def Alone (f : InlineFrame) : Prop :=
  (f.task.parallel = false → f.outside = []) ∧
    (f.task.parallel = true → f.outside.foldl Descriptor.after f.task = f.task)

instance (f : InlineFrame) : Decidable (Alone f) := inferInstanceAs (Decidable (_ ∧ _))

/-- The call was not made in a task body, and its task was left alone. -/
def Unmarked (s : InlineThread) (m : InlineMove) : Prop :=
  ∀ f ∈ s.returning m, f.worker.inTaskBody = false ∧ Alone f

instance (s : InlineThread) (m : InlineMove) : Decidable (s.Unmarked m) := by
  unfold Unmarked
  infer_instance

/-- The submissions fit the blocking count: none of them wraps it around,
and a worker executes a task that has been submitted. -/
def Fitting (s : InlineThread) : InlineMove → Prop
  | .submit t => CountFits (s.task t).blockingCount
  | .execute h => (s.task h.task).parallel = false → CountTaken (s.task h.task).blockingCount
  | _ => True

instance (s : InlineThread) (m : InlineMove) : Decidable (s.Fitting m) := by
  cases m <;> (dsimp only [Fitting]; infer_instance)

/-! ## The stack of inline submissions -/

/-- The caller of a frame is as it was, but for what was done to it. -/
structure Kept (task : TaskId → Descriptor) (f : InlineFrame) : Prop where
  handle : f.worker.handle = some f.oldHandle
  spot : f.spot = .body ∨ f.spot = .ending
  caller : task f.oldHandle.task = f.outside.foldl Descriptor.after f.task
  parallel : (task f.oldHandle.task).parallel = f.task.parallel
  count : f.task.parallel = false →
    (task f.oldHandle.task).blockingCount = f.task.blockingCount - f.outside.length
  started : f.task.parallel = false → CountTaken (task f.oldHandle.task).blockingCount

structure Inv (s : InlineThread) : Prop where
  kept : ∀ f ∈ s.frames, Kept s.task f
  nodup : (s.frames.map (·.oldHandle.task)).Nodup
  current : ∀ h, s.worker.handle = some h → ∀ f ∈ s.frames, f.oldHandle.task ≠ h.task
  running : ∀ h, s.worker.handle = some h → (s.task h.task).parallel = false →
    CountTaken (s.task h.task).blockingCount
      ∨ (s.stop = .paused ∧ (s.task h.task).blockingCount = 1)
  ended : s.spot = .ending ∨ s.spot = .done → s.worker.inTaskBody = false
  empty : s.spot = .loop ∨ s.spot = .done → s.worker.handle = none
  loop : s.spot = .loop → s.frames = []

variable {s s' : InlineThread} {t : TaskId} {k : Descriptor} {h : ExecutionHandle} {e : Outside}

theorem Kept.congr {task task' : TaskId → Descriptor} {f : InlineFrame} (hf : Kept task f)
    (heq : task' f.oldHandle.task = task f.oldHandle.task) : Kept task' f := by
  refine ⟨hf.handle, hf.spot, ?_, ?_, fun hp => ?_, fun hp => ?_⟩
  · rw [heq]
    exact hf.caller
  · rw [heq]
    exact hf.parallel
  · rw [heq]
    exact hf.count hp
  · rw [heq]
    exact hf.started hp

/-- An ordinary task that executes and is not paused has been submitted. -/
theorem Inv.taken (hi : s.Inv) (hh : s.worker.handle = some h) (hstop : s.stop ≠ .paused)
    (hpar : (s.task h.task).parallel = false) : CountTaken (s.task h.task).blockingCount :=
  (hi.running h hh hpar).resolve_right fun hpaused => hstop hpaused.1

/-- A write to a task that no frame waits for. -/
theorem Inv.kept_write (hi : s.Inv) (ht : ∀ f ∈ s.frames, f.oldHandle.task ≠ t) :
    ∀ f ∈ s.frames, Kept (Function.update s.task t k) f := fun f hf =>
  (hi.kept f hf).congr (Function.update_of_ne (ht f hf) _ _)

/-- The current task writes to its descriptor. -/
theorem Inv.write (hi : s.Inv) (hh : s.worker.handle = some h) (stop : Stop)
    (hcount : k.parallel = false →
      CountTaken k.blockingCount ∨ (stop = .paused ∧ k.blockingCount = 1)) :
    Inv { s.setTask h.task k with stop := stop } := by
  refine ⟨hi.kept_write (hi.current h hh), hi.nodup, hi.current, fun h' hh' hpar => ?_,
    hi.ended, hi.empty, hi.loop⟩
  obtain rfl := Option.some.inj (hh.symm.trans hh')
  simp only [setTask, Function.update_self] at hpar ⊢
  exact hcount hpar

theorem setSuspendMode_keeps (k : Descriptor) (mode : Option SuspendMode) (args : Nat) :
    (k.setSuspendMode mode args).parallel = k.parallel
      ∧ (k.setSuspendMode mode args).blockingCount = k.blockingCount := by
  rcases mode with - | mode
  · exact ⟨rfl, rfl⟩
  · cases mode with
    | submit =>
        simp only [Descriptor.setSuspendMode]
        split <;> exact ⟨rfl, rfl⟩
    | _ => exact ⟨rfl, rfl⟩

theorem after_parallel (k : Descriptor) (e : Outside) : (k.after e).parallel = k.parallel := by
  cases e with
  | submits => rfl
  | setsSuspendMode mode args => exact (setSuspendMode_keeps k mode args).1
  | suspends => rfl
  | ends =>
      simp only [Descriptor.after, Descriptor.endExecution]
      split <;> rfl

theorem Inv.execute (hi : s.Inv) (hspot : s.spot = .loop)
    (hcount : (s.task h.task).parallel = false → CountTaken (s.task h.task).blockingCount) :
    (s.taskExecute h).Inv := by
  have hnil := hi.loop hspot
  have hframes : (s.taskExecute h).frames = [] := hnil
  refine ⟨fun f hf => ?_, ?_, fun h' hh' f hf => ?_, fun h' hh' hpar => ?_, fun hs => ?_,
    fun hs => ?_, fun hs => ?_⟩
  · rw [hframes] at hf
    cases hf
  · rw [hframes]
    exact List.nodup_nil
  · rw [hframes] at hf
    cases hf
  · obtain rfl := Option.some.inj hh'
    simp only [taskExecute, setTask, Function.update_self] at hpar ⊢
    split at hpar
    · rename_i hp
      rw [hp] at hpar
      cases hpar
    · rename_i hp
      rw [if_neg hp]
      exact Or.inl (hcount hpar)
  · rcases hs with hs | hs <;> cases hs
  · rcases hs with hs | hs <;> cases hs
  · cases hs

/-- An idle task is not in execution on this thread. -/
theorem Inv.fresh (hi : s.Inv) (hh : s.worker.handle = some h) (hstop : s.stop = .running)
    (hpar : (s.task t).parallel = false) (hcount : countDown (s.task t).blockingCount = 0) :
    h.task ≠ t ∧ ∀ f ∈ s.frames, f.oldHandle.task ≠ t := by
  constructor
  · rintro rfl
    exact (hi.taken hh (by simp [hstop]) hpar).down_ne hcount
  · rintro f hf rfl
    have hkept := hi.kept f hf
    exact (hkept.started (hkept.parallel.symm.trans hpar)).down_ne hcount

theorem Inv.submitInline (hi : s.Inv) (hh : s.worker.handle = some h) (hstop : s.stop = .running)
    (hpar : (s.task t).parallel = false) (hcount : countDown (s.task t).blockingCount = 0) :
    (({ s with frames := ⟨h, s.spot, s.worker, s.task h.task, []⟩ :: s.frames } : InlineThread).setTask
      t { s.task t with blockingCount := countDown (s.task t).blockingCount }).taskExecute ⟨t, 1⟩
        |>.Inv := by
  obtain ⟨hne, hout⟩ := hi.fresh hh hstop hpar hcount
  have hspot : s.spot = .body ∨ s.spot = .ending := by
    have hempty := hi.empty
    rw [hh] at hempty
    cases hs : s.spot <;> simp [hs] at hempty ⊢
  have hcaller : Kept s.task ⟨h, s.spot, s.worker, s.task h.task, []⟩ :=
    ⟨hh, hspot, rfl, rfl, fun _ => by simp, hi.taken hh (by simp [hstop])⟩
  refine ⟨fun f hf => ?_, ?_, fun h' hh' f hf => ?_, fun h' hh' _ => ?_, fun hs => ?_,
    fun hs => ?_, fun hs => ?_⟩
  · simp only [taskExecute, setTask, Function.update_idem]
    rcases List.mem_cons.mp hf with rfl | hf
    · exact hcaller.congr (Function.update_of_ne hne _ _)
    · exact (hi.kept f hf).congr (Function.update_of_ne (hout f hf) _ _)
  · simp only [taskExecute, setTask, List.map_cons, List.nodup_cons, List.mem_map, not_exists,
      not_and]
    exact ⟨fun f hf heq => hi.current h hh f hf heq, hi.nodup⟩
  · obtain rfl := Option.some.inj hh'
    rcases List.mem_cons.mp hf with rfl | hf
    · exact hne
    · exact hout f hf
  · obtain rfl := Option.some.inj hh'
    simp only [taskExecute, setTask, Function.update_self, hpar, Bool.false_eq_true, if_false, hcount]
    exact Or.inl countTaken_zero
  · rcases hs with hs | hs <;> cases hs
  · rcases hs with hs | hs <;> cases hs
  · cases hs

/-- What is done to the caller of a frame is noted in the frame. -/
theorem Kept.after {task : TaskId → Descriptor} {f : InlineFrame} (hf : Kept task f)
    (he : (task f.oldHandle.task).parallel = false →
      e = .submits ∧ CountFits (task f.oldHandle.task).blockingCount) :
    Kept (Function.update task f.oldHandle.task ((task f.oldHandle.task).after e))
      { f with outside := f.outside ++ [e] } := by
  refine ⟨hf.handle, hf.spot, ?_, ?_, fun hpar => ?_, fun hpar => ?_⟩
  · simp only [Function.update_self, hf.caller, List.foldl_append, List.foldl_cons, List.foldl_nil]
  · simp only [Function.update_self, after_parallel]
    exact hf.parallel
  · obtain ⟨rfl, hfits⟩ := he (hf.parallel.trans hpar)
    have hdown := (hf.started hpar).down_eq hfits
    have hcount := hf.count hpar
    simp only [Function.update_self, Descriptor.after, List.length_append, List.length_singleton]
    omega
  · obtain ⟨rfl, hfits⟩ := he (hf.parallel.trans hpar)
    simp only [Function.update_self, Descriptor.after]
    exact (hf.started hpar).down hfits

/-- A submission, or a step of another execution of a parallel task. -/
theorem Inv.doOutside (hi : s.Inv) (he : (s.task t).parallel = false →
      e = .submits ∧ CountFits (s.task t).blockingCount) : (s.doOutside t e).Inv := by
  have hcaller (f : InlineFrame) : (if f.oldHandle.task = t then
      { f with outside := f.outside ++ [e] } else f).oldHandle = f.oldHandle := by
    split <;> rfl
  have hnodup : ((s.frames.map fun f => if f.oldHandle.task = t then
      { f with outside := f.outside ++ [e] } else f).map (·.oldHandle.task))
        = s.frames.map (·.oldHandle.task) := by
    rw [List.map_map]
    exact List.map_congr_left fun f _ => by simp only [Function.comp_apply, hcaller]
  refine ⟨fun f hf => ?_, hnodup ▸ hi.nodup, fun h hh f hf => ?_, fun h hh hpar => ?_,
    hi.ended, hi.empty, fun hs => ?_⟩
  · obtain ⟨g, hg, rfl⟩ := List.mem_map.mp hf
    by_cases hgt : g.oldHandle.task = t
    · subst hgt
      simp only [if_true, InlineThread.doOutside, setTask]
      exact (hi.kept g hg).after he
    · simp only [if_neg hgt, InlineThread.doOutside, setTask]
      exact (hi.kept g hg).congr (Function.update_of_ne hgt _ _)
  · obtain ⟨g, hg, rfl⟩ := List.mem_map.mp hf
    rw [hcaller]
    exact hi.current h hh g hg
  · by_cases hht : h.task = t
    · subst hht
      simp only [InlineThread.doOutside, setTask, Function.update_self, after_parallel] at hpar ⊢
      obtain ⟨rfl, hfits⟩ := he hpar
      rcases hi.running h hh hpar with htaken | ⟨-, hone⟩
      · exact Or.inl (htaken.down hfits)
      · simp only [Descriptor.after, hone, countDown_one]
        exact Or.inl countTaken_zero
    · simp only [InlineThread.doOutside, setTask, Function.update_of_ne hht] at hpar ⊢
      exact hi.running h hh hpar
  · simp only [InlineThread.doOutside, hi.loop hs, List.map_nil]

theorem Inv.bodyEnds (hi : s.Inv) :
    Inv { s with worker := { s.worker with inTaskBody := false }, spot := .ending } := by
  refine ⟨hi.kept, hi.nodup, hi.current, hi.running, fun _ => rfl, fun hs => ?_, fun hs => ?_⟩
  · rcases hs with hs | hs <;> cases hs
  · cases hs

/-- The current task is over, or suspended. -/
theorem Inv.finish (hi : s.Inv) (hh : s.worker.handle = some h) (hspot : s.spot = .ending) :
    Inv { s.setTask h.task k with worker := { s.worker with handle := none }, spot := .done } := by
  refine ⟨hi.kept_write (hi.current h hh), hi.nodup, fun h' hh' => ?_, fun h' hh' => ?_, fun _ => ?_,
    fun _ => rfl, fun hs => ?_⟩
  · cases hh'
  · cases hh'
  · exact hi.ended (Or.inl hspot)
  · cases hs

theorem Inv.toLoop (hi : s.Inv) (hspot : s.spot = .done) (hnil : s.frames = []) :
    Inv { s with spot := .loop } := by
  refine ⟨hi.kept, hi.nodup, hi.current, hi.running, fun hs => ?_, fun _ => hi.empty (Or.inr hspot),
    fun _ => hnil⟩
  rcases hs with hs | hs <;> cases hs

theorem Inv.restore {f : InlineFrame} {rest : List InlineFrame} (hi : s.Inv)
    (hspot : s.spot = .done) (hframes : s.frames = f :: rest) :
    Inv { s with worker := { s.worker with handle := some f.oldHandle }, spot := f.spot,
                 frames := rest } := by
  have hnodup := hi.nodup
  rw [hframes, List.map_cons, List.nodup_cons] at hnodup
  have hf := hi.kept f (hframes ▸ List.mem_cons_self)
  refine ⟨fun g hg => hi.kept g (hframes ▸ List.mem_cons_of_mem f hg), hnodup.2,
    fun h hh g hg heq => ?_, fun h hh hpar => ?_, fun _ => hi.ended (Or.inr hspot), fun hs => ?_,
    fun hs => ?_⟩
  · obtain rfl := Option.some.inj hh
    exact hnodup.1 (heq ▸ List.mem_map_of_mem hg)
  · obtain rfl := Option.some.inj hh
    exact Or.inl (hf.started (hf.parallel.symm.trans hpar))
  · rcases hf.spot with hb | hb <;> simp [hb] at hs
  · rcases hf.spot with hb | hb <;> simp [hb] at hs

theorem Inv.elsewhere (hi : s.Inv) (hout : ¬ s.OnStack t) : (s.setTask t k).Inv := by
  unfold OnStack at hout
  rw [not_or] at hout
  refine ⟨hi.kept_write fun f hf heq => hout.2 ⟨f, hf, heq⟩, hi.nodup, hi.current,
    fun h hh hpar => ?_, hi.ended, hi.empty, hi.loop⟩
  have hne : h.task ≠ t := fun heq => hout.1 ⟨h, hh, heq⟩
  simp only [setTask, Function.update_of_ne hne] at hpar ⊢
  exact hi.running h hh hpar

/-! ## Runs -/

theorem inv_step {m : InlineMove} (hfit : s.Fitting m) (hstep : s.step m = some s') (hi : s.Inv) :
    s'.Inv := by
  cases m with
  | execute h =>
      obtain ⟨hspot, heq⟩ := Option.ite_none_right_eq_some.mp hstep
      obtain rfl := Option.some.inj heq
      exact hi.execute hspot hfit
  | submitInline t =>
      simp only [step] at hstep
      split at hstep
      · cases hstep
      · rename_i old hh
        obtain ⟨⟨hstop, hpar, hcount⟩, heq⟩ := Option.ite_none_right_eq_some.mp hstep
        obtain rfl := Option.some.inj heq
        exact hi.submitInline hh hstop hpar hcount
  | submit t =>
      obtain rfl := Option.some.inj hstep
      exact hi.doOutside fun _ => ⟨rfl, hfit⟩
  | other t e =>
      obtain ⟨hpar, heq⟩ := Option.ite_none_right_eq_some.mp hstep
      obtain rfl := Option.some.inj heq
      exact hi.doOutside fun hord => absurd (hord.symm.trans hpar) (by decide)
  | setSuspendMode mode args =>
      simp only [step] at hstep
      split at hstep
      · cases hstep
      · rename_i h hh
        obtain ⟨hstop, heq⟩ := Option.ite_none_right_eq_some.mp hstep
        obtain rfl := Option.some.inj heq
        obtain ⟨hpar, hcount⟩ := setSuspendMode_keeps (s.task h.task) mode args
        refine hi.write hh s.stop fun hp => ?_
        rw [hcount]
        exact hi.running h hh (hpar ▸ hp)
  | suspend =>
      simp only [step] at hstep
      split at hstep
      · cases hstep
      · rename_i h hh
        obtain ⟨hstop, heq⟩ := Option.ite_none_right_eq_some.mp hstep
        unfold nosvSuspend at heq
        split at heq
        · obtain rfl := Option.some.inj heq
          exact hi
        · rename_i k hk
          obtain ⟨-, hk⟩ := Option.ite_none_left_eq_some.mp hk
          obtain rfl := Option.some.inj hk
          obtain rfl := Option.some.inj heq
          exact hi.write hh s.stop fun hp => hi.running h hh hp
  | pause =>
      simp only [step] at hstep
      split at hstep
      · cases hstep
      · rename_i h hh
        obtain ⟨⟨hstop, hpar⟩, heq⟩ := Option.ite_none_right_eq_some.mp hstep
        obtain rfl := Option.some.inj heq
        refine hi.write hh _ fun _ => ?_
        have htaken := hi.taken hh (by simp [hstop]) hpar
        by_cases hblocks : 0 < countUp (s.task h.task).blockingCount
        · exact Or.inr ⟨if_pos hblocks, htaken.up_eq_one hblocks⟩
        · exact Or.inl (htaken.up_taken (Int.not_lt.mp hblocks))
  | switch =>
      simp only [step] at hstep
      split at hstep
      · cases hstep
      · rename_i h hh
        obtain ⟨⟨hstop, hpar⟩, heq⟩ := Option.ite_none_right_eq_some.mp hstep
        obtain rfl := Option.some.inj heq
        exact ⟨hi.kept, hi.nodup, hi.current,
          fun h' hh' hp => Or.inl (hi.taken hh' (by simp [hstop]) hp), hi.ended, hi.empty, hi.loop⟩
  | resume =>
      simp only [step] at hstep
      split at hstep
      · cases hstep
      · rename_i h hh
        obtain ⟨hstop, heq⟩ := Option.ite_none_right_eq_some.mp hstep
        obtain rfl := Option.some.inj heq
        refine ⟨hi.kept, hi.nodup, hi.current, fun h' hh' hp => Or.inl ?_, hi.ended, hi.empty, hi.loop⟩
        obtain rfl := Option.some.inj (hh.symm.trans hh')
        rcases hi.running h hh hp with htaken | ⟨hpaused, hone⟩
        · exact htaken
        · -- a paused task goes on when it has been submitted
          rcases hstop with hswitched | ⟨-, hcount⟩
          · rw [hswitched] at hpaused
            cases hpaused
          · omega
  | bodyEnds =>
      obtain ⟨-, heq⟩ := Option.ite_none_right_eq_some.mp hstep
      obtain rfl := Option.some.inj heq
      exact hi.bodyEnds
  | finish =>
      simp only [step] at hstep
      split at hstep
      · cases hstep
      · rename_i h hh
        obtain ⟨⟨-, hspot⟩, heq⟩ := Option.ite_none_right_eq_some.mp hstep
        obtain rfl := Option.some.inj heq
        exact hi.finish hh hspot
  | restore =>
      obtain ⟨hspot, hstep⟩ := Option.ite_none_right_eq_some.mp hstep
      cases hframes : s.frames with
      | nil =>
          rw [hframes] at hstep
          obtain rfl := Option.some.inj hstep
          have hloop := hi.toLoop hspot hframes
          rwa [hframes] at hloop
      | cons f rest =>
          rw [hframes] at hstep
          obtain rfl := Option.some.inj hstep
          exact hi.restore hspot hframes
  | elsewhere t k =>
      obtain ⟨hout, heq⟩ := Option.ite_none_left_eq_some.mp hstep
      obtain rfl := Option.some.inj heq
      exact hi.elsewhere hout

theorem inv_init (self : Nat) (task : TaskId → Descriptor) (own : Option TaskId) :
    (init self task own).Inv := by
  cases own with
  | none =>
      refine ⟨fun f hf => ?_, List.nodup_nil, fun h hh => ?_, fun h hh => ?_, fun hs => rfl,
        fun _ => rfl, fun _ => rfl⟩
      · cases hf
      · cases hh
      · cases hh
  | some t =>
      refine ⟨fun f hf => ?_, List.nodup_nil, fun h hh f hf => ?_, fun h hh hpar => ?_,
        fun hs => ?_, fun hs => ?_, fun _ => rfl⟩
      · cases hf
      · cases hf
      · obtain rfl := Option.some.inj hh
        simp only [init, Function.update_self]
        exact Or.inl countTaken_zero
      · rcases hs with hs | hs <;> cases hs
      · rcases hs with hs | hs <;> cases hs

/-- The caller of a frame is as it was exactly if it was left alone. -/
theorem Kept.task_iff {task : TaskId → Descriptor} {f : InlineFrame} (hf : Kept task f) :
    task f.oldHandle.task = f.task ↔ Alone f := by
  cases hpar : f.task.parallel with
  | true =>
      rw [hf.caller]
      simp [Alone, hpar]
  | false =>
      have hcount := hf.count hpar
      constructor
      · intro htask
        rw [htask] at hcount
        have hlen : f.outside.length = 0 := by omega
        exact ⟨fun _ => List.length_eq_zero_iff.mp hlen, fun htrue => absurd (hpar.symm.trans htrue)
          (by decide)⟩
      · intro halone
        rw [hf.caller, halone.1 hpar]
        rfl

/-- A call is transparent exactly if the worker was in no task body and the
task was left alone. -/
theorem Inv.transparent_iff (hi : s.Inv) (m : InlineMove) : s.Transparent m ↔ s.Unmarked m := by
  unfold Transparent Unmarked
  refine forall₂_congr fun f hf => ?_
  cases m with
  | restore =>
      obtain ⟨hspot, hhead⟩ := Option.ite_none_right_eq_some.mp hf
      obtain ⟨rest, hframes⟩ := List.head?_eq_some_iff.mp hhead
      have hkept := hi.kept f (hframes ▸ List.mem_cons_self)
      have hbody := hi.ended (Or.inr hspot)
      have hstep : s.step .restore = some { s with
          worker := { s.worker with handle := some f.oldHandle }, spot := f.spot,
          frames := rest } := by
        simp only [step, if_pos hspot, hframes]
      rw [hstep, ← hkept.task_iff]
      simp only [Option.mem_def, Option.some.injEq, forall_eq']
      constructor
      · rintro ⟨hworker, htask, -, -, -⟩
        refine ⟨?_, htask⟩
        rw [← hworker]
        exact hbody
      · rintro ⟨hin, htask⟩
        have hworker : (⟨some f.oldHandle, s.worker.inTaskBody⟩ : WorkerState) = f.worker := by
          rw [← hkept.handle, hbody, ← hin]
        refine ⟨hworker, htask, ?_, ?_, ?_⟩
        · simp only [hworker]
        · simp only [hworker]
        · simp only [hworker, htask]
  | _ => cases hf

end InlineThread

/-- Along every run of a worker or an attached thread whose submissions fit
the blocking count, the inline submissions that return leave their caller
as it was if and only if none of them was made in a task body and their
callers were left alone. -/
theorem inline_transparent_iff (self : Nat) (task : TaskId → Descriptor) (own : Option TaskId)
    (moves : List InlineMove)
    (hfit : Along InlineThread.step InlineThread.Fitting (.init self task own) moves) :
    Along InlineThread.step InlineThread.Transparent (.init self task own) moves
      ↔ Along InlineThread.step InlineThread.Unmarked (.init self task own) moves :=
  along_iff_of_invariant
    (fun _ _ _ hfit _ hstep hinv => InlineThread.inv_step hfit hstep hinv)
    (fun _ m _ hinv => hinv.transparent_iff m) hfit (InlineThread.inv_init self task own)

/-- A parallel task and an idle one. -/
def inlineTasks : TaskId → Descriptor
  | 0 => ⟨true, false, .none, none, 0⟩
  | _ => ⟨false, false, .none, none, 1⟩

/-- An inline submission from the end callback. -/
theorem inline_transparent_ending :
    (run InlineThread.step (.init 0 inlineTasks none) [.execute ⟨0, 1⟩, .bodyEnds,
        .submitInline 1, .bodyEnds, .finish, .restore, .finish]).isSome = true
      ∧ Along InlineThread.step InlineThread.Transparent (.init 0 inlineTasks none)
        [.execute ⟨0, 1⟩, .bodyEnds, .submitInline 1, .bodyEnds, .finish, .restore, .finish] :=
  ⟨by decide +kernel,
    (inline_transparent_iff 0 inlineTasks none _ (by decide +kernel)).mpr (by decide +kernel)⟩

-- another execution of the parallel task ends before the call returns
example : ¬ Along InlineThread.step InlineThread.Transparent (.init 0 inlineTasks none)
    [.execute ⟨0, 1⟩, .bodyEnds, .submitInline 1, .other 0 .ends, .bodyEnds, .finish, .restore] := by
  decide +kernel

/-- An attached thread submits a task inline; when the call has returned it
may no longer suspend. -/
theorem inline_leaves_body :
    ¬ Along InlineThread.step InlineThread.Transparent
        (.init 0 (fun _ => ⟨false, false, .none, none, 1⟩) (some 0))
        [.submitInline 1, .bodyEnds, .finish, .restore]
      ∧ ∃ s, run InlineThread.step (.init 0 (fun _ => ⟨false, false, .none, none, 1⟩) (some 0))
          [.submitInline 1, .bodyEnds, .finish, .restore] = some s
        ∧ nosvSelf s.worker = some 0 ∧ nosvSuspend s.worker (s.task 0) = none := by
  have heval : (run InlineThread.step (.init 0 (fun _ => ⟨false, false, .none, none, 1⟩) (some 0))
      [.submitInline 1, .bodyEnds, .finish, .restore]).map
        (fun s => (nosvSelf s.worker, nosvSuspend s.worker (s.task 0))) = some (some 0, none) := by
    decide +kernel
  obtain ⟨s, hrun, hval⟩ := Option.map_eq_some_iff.mp heval
  simp only [Prod.mk.injEq] at hval
  exact ⟨by decide +kernel, s, hrun, hval⟩

end Nosv
