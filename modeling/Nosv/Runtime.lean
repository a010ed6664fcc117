import Nosv.SharedWord

/-!
# Tasks and the calls they make

The life of tasks around the scheduler: which calls submit a task, block
it, suspend it or end it, and what each writes to its descriptor. A
submission puts the task into the in-queue; `insert` is the scheduler
taking it from there (`scheduler_process_ready_tasks`), and `get` hands
it to a worker.

* A call is one step. The atomic operations inside a call that touch a
  task are done by the thread that owns it at that moment, or commute
  with what other threads may do to it.
* The submit window only delays the push of a task.
* Waiting in a mutex, a condition variable or a barrier is the phase
  `waiting`: such a task is resumed by a push or by `worker_yield_to`.
* `event_count` is not followed: a decrease of it may complete a task, or
  push it, at any time. While the events of a task fit the counter, that
  happens to a task that has ended, or that sleeps for its events.

The fields of `TaskInfo` after `yielding` are history: nothing reads them,
except that the origin of a submission is told from `asked`.
-/

namespace Nosv

open RBTree Relation Places

/-- What a submission comes from: `nosv_yield` and a suspension in submit
mode with argument one, or anything else. -/
inductive Origin where
  | yields
  | plain
  deriving DecidableEq, Repr

inductive Phase where
  /-- created, or completed -/
  | idle
  /-- submitted: in the in-queue or stored by the scheduler -/
  | queued
  /-- the immediate successor of a worker -/
  | immediate
  /-- unlinked from the scheduler, with executions in progress -/
  | running
  /-- blocked through its blocking count -/
  | paused
  /-- waiting in a mutex, a condition variable or a barrier -/
  | waiting
  /-- suspended until its events are over -/
  | sleeping
  /-- all executions have ended, events are pending -/
  | ended
  deriving DecidableEq, Repr

structure TaskInfo where
  phase : Phase
  /-- executions in progress -/
  live : Nat
  /-- submitted by a `nosv_yield` that has not returned -/
  yielding : Bool
  /-- argument of the last `nosv_set_suspend_mode` that no suspension and
  no `nosv_yield` followed -/
  args : Nat
  /-- the last `nosv_set_suspend_mode` that no suspension followed was for
  submit mode with argument one -/
  asked : Bool
  /-- a `nosv_cancel` succeeded after the degree was last set -/
  cancelled : Bool
  deriving DecidableEq, Repr

structure Runtime where
  sched : Scheduler
  inQueue : List (TaskId × Origin)
  info : TaskId → TaskInfo

namespace Runtime

def task (r : Runtime) (t : TaskId) : Task := r.sched.task t

/-- Task `t` gets descriptor `k` and state `i`, and is pushed if an origin
is given. -/
def put (r : Runtime) (t : TaskId) (k : Task) (i : TaskInfo) (push : Option Origin) : Runtime where
  sched := r.sched.modTask t fun _ => k
  inQueue := match push with
    | none => r.inQueue
    | some o => r.inQueue ++ [(t, o)]
  info := Function.update r.info t i

end Runtime

/-! ## The calls on one descriptor -/

/-- `nosv_set_suspend_mode`; `none` stands for a value that is no mode.
The first component tells success. -/
def nosvSetSuspendMode (k : Task) (mode : Option SuspendMode) (args : Nat) : Bool × Task :=
  let k := { k with suspendMode := .none }
  match mode with
  | none => (false, k)
  | some .submit =>
      if args ≠ 1 ∧ args ≠ 0 then (false, k)
      else (true, { k with suspendMode := .submit, word := args })
  | some mode => (true, { k with suspendMode := mode, word := args })

/-- `set_task_deadline`; the first component is its result. -/
def setTaskDeadline (k : Task) (startTime timeout : Nat) : Bool × Task :=
  if k.deadlineState = .none then
    (true, { k with deadline := u64 (startTime + timeout), deadlineState := .pending })
  else (false, { k with deadline := 0, deadlineState := .none })

/-- What `task_complete` writes to the descriptor. -/
def taskComplete (k : Task) : Task := { k with eventCount := 1, scheduledCount := 0 }

/-- `task_suspend`: the descriptor, the phase, and whether the task is
pushed. `events` tells whether it has events pending. -/
def taskSuspend (k : Task) (now : Nat) (events : Bool) : Task × Phase × Bool :=
  let args := k.suspendArgs
  let mode := k.suspendMode
  let k := { k with word := 0, suspendMode := .none, suspend := false }
  match mode with
  | .none =>
      let count := countUp k.blockingCount
      let k := { k with blockingCount := count }
      if count ≤ 0 then (k, .queued, true) else (k, .paused, false)
  | .timeout => ((setTaskDeadline k now args).2, .queued, true)
  | .submit => ({ k with word := args }, .queued, true)
  | .event => if events then (k, .sleeping, false) else (k, .queued, true)

/-! ## Steps -/

inductive Call where
  | setAttributes (t : TaskId) (priority : Int) (affinity : Affinity) (degree : Int)
  | submit (t : TaskId)
  | submitImmediate (t : TaskId)
  | submitInline (t : TaskId)
  | runImmediate (t : TaskId) (counted : Bool)
  | dropImmediate (t : TaskId)
  | deadlineWake (t : TaskId)
  | setSuspendMode (t : TaskId) (mode : Option SuspendMode) (args : Nat)
  | suspend (t : TaskId)
  | endBody (t : TaskId) (now : Nat) (events : Bool)
  | complete (t : TaskId)
  | eventsOver (t : TaskId)
  | pause (t : TaskId)
  | waitfor (t : TaskId) (now timeout : Nat)
  | yield (t : TaskId) (switch : Bool)
  | yieldReturns (t : TaskId)
  | schedpoint (t : TaskId)
  | block (t : TaskId)
  | unblock (t : TaskId)
  | unlockYield (t u : TaskId)
  | cancel (t : TaskId)
  | insert (n : Nat)
  | get (cpu pid : Nat) (external : Bool) (ts : Nat)
  | purge (logicPid : Nat)

namespace Runtime

/-- Task `t` executes and may call the library. -/
def Calls (r : Runtime) (t : TaskId) : Prop :=
  0 < (r.info t).live ∧ (r.info t).yielding = false

instance (r : Runtime) (t : TaskId) : Decidable (r.Calls t) := inferInstanceAs (Decidable (_ ∧ _))

/-- Task `t` executes and may block: `NOSV_ERR_INVALID_OPERATION`
otherwise. -/
def MayBlock (r : Runtime) (t : TaskId) : Prop := r.Calls t ∧ taskIsParallel (r.task t) = false

instance (r : Runtime) (t : TaskId) : Decidable (r.MayBlock t) :=
  inferInstanceAs (Decidable (_ ∧ _))

/-- Task `t` may be submitted: it is not started anew before it has
completed, and a parallel task is never unblocked. -/
def MaySubmit (r : Runtime) (t : TaskId) : Prop :=
  (r.info t).phase ≠ .ended ∧ (taskIsParallel (r.task t) = true → (r.info t).phase = .idle)

instance (r : Runtime) (t : TaskId) : Decidable (r.MaySubmit t) :=
  inferInstanceAs (Decidable (_ ∧ _))

/-- The blocking count after `nosv_submit`. -/
def submitCount (r : Runtime) (t : TaskId) : Int := countDown (r.task t).blockingCount

/-- Task `t` stops executing and is pushed. -/
def resubmit (r : Runtime) (t : TaskId) (k : Task) (i : TaskInfo) (o : Origin) : Runtime :=
  r.put t k { i with phase := .queued, live := 0 } (some o)

/-- The end of `task_execute`: the suspension of the task, or the end of an
execution. -/
def endBody (r : Runtime) (t : TaskId) (now : Nat) (events : Bool) : Runtime :=
  let k := r.task t
  let i := r.info t
  if k.suspend then
    let (k, phase, pushed) := taskSuspend k now events
    let origin := if i.asked then Origin.yields else .plain
    r.put t k { i with phase := phase, live := i.live - 1, args := 0, asked := false }
      (if pushed then some origin else none)
  else
    let live := i.live - 1
    let phase := if i.phase = .running ∧ live = 0 then .ended else i.phase
    r.put t { k with blockingCount := 1 } { i with phase := phase, live := live } none

/-- A worker receives the task that the scheduler handed out. -/
def receive (topo : Topology) (r : Runtime) (result : Option TaskId × Scheduler) : Runtime :=
  match result with
  | (none, s) => { r with sched := s }
  | (some t, s) =>
      let phase := if s.Holding topo t then (r.info t).phase else .running
      let i := { r.info t with phase := phase, live := (r.info t).live + 1 }
      { r with sched := s, info := Function.update r.info t i }

def step (topo : Topology) (r : Runtime) : Call → Option Runtime
  | .setAttributes t priority affinity degree =>
      let k := { r.task t with priority := priority, affinity := affinity, degree := degree }
      if (r.info t).phase = .idle ∧ affinity.Valid topo ∧ 0 < degree ∧ k.Typed then
        some (r.put t k { r.info t with cancelled := false } none)
      else none
  | .submit t =>
      let k := { r.task t with blockingCount := r.submitCount t }
      if r.MaySubmit t then
        if r.submitCount t = 0 then
          some (r.put t k { r.info t with phase := .queued } (some .plain))
        else some (r.put t k (r.info t) none)
      else none
  | .submitImmediate t =>
      let k := { r.task t with blockingCount := r.submitCount t }
      if r.MaySubmit t ∧ taskIsParallel (r.task t) = false then
        if r.submitCount t = 0 then
          some (r.put t k { r.info t with phase := .immediate } none)
        else some (r.put t k (r.info t) none)
      else none
  | .submitInline t =>
      let k := { r.task t with blockingCount := r.submitCount t }
      if (r.info t).phase = .idle ∧ taskIsParallel (r.task t) = false then
        some (r.put t k { r.info t with phase := .running, live := 1 } none)
      else none
  | .runImmediate t counted =>
      let k := r.task t
      let k := if counted then { k with scheduledCount := u32 (k.scheduledCount + 1) } else k
      if (r.info t).phase = .immediate then
        some (r.put t k { r.info t with phase := .running, live := 1 } none)
      else none
  | .dropImmediate t =>
      if (r.info t).phase = .immediate then
        some (r.put t (r.task t) { r.info t with phase := .queued } (some .plain))
      else none
  | .deadlineWake t =>
      if taskIsParallel (r.task t) = false then
        some { r with sched := submitDeadlineWake r.sched t }
      else none
  | .setSuspendMode t mode args =>
      let (ok, k) := nosvSetSuspendMode (r.task t) mode args
      if r.Calls t then
        some (r.put t k { r.info t with
          args := if ok then args else (r.info t).args
          asked := ok && mode == some .submit && args == 1 } none)
      else none
  | .suspend t =>
      if r.Calls t then some (r.put t { r.task t with suspend := true } (r.info t) none) else none
  | .endBody t now events => if r.Calls t then some (r.endBody t now events) else none
  | .complete t => some (r.put t (taskComplete (r.task t)) { r.info t with phase := .idle } none)
  | .eventsOver t => some (r.put t (r.task t) { r.info t with phase := .queued } (some .plain))
  | .pause t =>
      let count := countUp (r.task t).blockingCount
      let k := { r.task t with blockingCount := count }
      if r.MayBlock t then
        if 0 < count then some (r.put t k { r.info t with phase := .paused, live := 0 } none)
        else some (r.put t k (r.info t) none)
      else none
  | .waitfor t now timeout =>
      let (res, k) := setTaskDeadline (r.task t) now timeout
      if r.MayBlock t then
        if res then some (r.resubmit t k (r.info t) .plain) else some (r.put t k (r.info t) none)
      else none
  | .yield t switch =>
      let i := { r.info t with args := 0 }
      if r.MayBlock t then
        if switch then
          some (r.resubmit t { r.task t with word := 18446744073709551615 }
            { i with yielding := true } .yields)
        else some (r.put t { r.task t with word := 0 } i none)
      else none
  | .yieldReturns t =>
      if 0 < (r.info t).live ∧ (r.info t).yielding = true then
        some (r.put t { r.task t with word := 0 } { r.info t with yielding := false } none)
      else none
  | .schedpoint t =>
      if r.MayBlock t then some (r.resubmit t (r.task t) (r.info t) .plain) else none
  | .block t =>
      if r.MayBlock t then
        some (r.put t (r.task t) { r.info t with phase := .waiting, live := 0 } none)
      else none
  | .unblock t =>
      if (r.info t).phase = .waiting then
        some (r.put t (r.task t) { r.info t with phase := .queued } (some .plain))
      else none
  | .unlockYield t u =>
      -- `worker_yield_to`: the caller is submitted, the waiting task runs
      if r.MayBlock t ∧ (r.info u).phase = .waiting ∧ u ≠ t then
        let r := r.resubmit t (r.task t) (r.info t) .plain
        some (r.put u (r.task u) { r.info u with phase := .running, live := 1 } none)
      else none
  | .cancel t =>
      if r.Calls t then
        match nosvCancel (r.task t) with
        | none => some r
        | some k => some (r.put t k { r.info t with cancelled := true } none)
      else none
  | .insert n =>
      match r.inQueue[n]? with
      | none => none
      | some (t, _) =>
          match schedulerInsertReadyTask r.sched t with
          | none => none
          | some s => some { r with sched := s, inQueue := r.inQueue.eraseIdx n }
  | .get cpu pid external ts =>
      if cpu < topo.count .cpu then
        some (r.receive topo (schedulerGetInternal topo r.sched cpu pid external ts))
      else none
  | .purge logicPid => some { r with sched := schedulerDeadlinePurge r.sched logicPid }

/-- Fresh tasks of given processes, nothing submitted. -/
def init (pid : TaskId → Nat) (quantumNs : Nat) (clock : Nat → Nat) : Runtime where
  sched := schedulerInit (fun t => nosvCreateInternal (pid t) ⟨.none, .preferred, 0⟩) quantumNs clock
  inQueue := []
  info := fun _ => ⟨.idle, 0, false, 0, false, false⟩

end Runtime

end Nosv
