import Mathlib.Algebra.BigOperators.Group.Finset.Basic
import Mathlib.Algebra.Order.BigOperators.Group.Finset
import Mathlib.Data.Fintype.EquivFin
import Mathlib.Logic.Embedding.Basic
import Nosv.EventCount

/-!
# The costs that the monitor accumulates

The statistics of a task type and of its tasks, as the monitor keeps them:
a task that becomes ready adds its cost to the type, or is counted if there
is no prediction of its time, and a task that completes takes it back. What
a prediction says is left out; there is one as soon as a task of the type
has completed.

A run takes the tasks of one type through the steps that the runtime tells
the monitor about: calls of `nosv_submit` in three steps (the prediction,
the change of status and the count), changes of status by the executions of
a task, the operations on `event_count`, completion, and detaching. The
type is made for tasks that run callbacks, or by `nosv_attach` for the task
of a thread.
-/

namespace Nosv

open Run

namespace TaskMonitor

/-! ## The statistics -/

/-- `monitoring_status_t`, without `null_status` -/
inductive Status where
  | ready
  | executing
  | paused
  deriving DecidableEq

/-- `task_stats_t` -/
structure TaskStats where
  cost : Nat
  initialized : Bool
  /-- `current_chrono`, where nothing is `null_status` -/
  chrono : Option Status
  /-- `time_prediction` is available. -/
  predicted : Bool
  deriving DecidableEq

/-- `tasktype_stats_t` -/
structure TypeStats where
  accumulatedCost : Nat
  numPredictionlessInstances : Nat
  /-- `total_num` of the accumulator of times -/
  samples : Nat
  /-- the assertion of `tasktype_stats_decrease_accumulated_cost` has failed -/
  failed : Bool
  deriving DecidableEq

/-- `task_stats_init`, with `DEFAULT_COST` -/
def taskStatsInit : TaskStats := ⟨1, false, none, false⟩

/-- `tasktype_stats_init` -/
def tasktypeStatsInit : TypeStats := ⟨0, 0, 0, false⟩

/-- A `uint64_t` after subtracting `n` -/
def u64Sub (m n : Nat) : Nat := u64 (m + (18446744073709551616 - u64 n))

/-- `tasktype_stats_increase_accumulated_cost` -/
def increaseAccumulatedCost (type : TypeStats) (cost : Nat) : TypeStats :=
  { type with accumulatedCost := u64 (type.accumulatedCost + cost) }

/-- `tasktype_stats_decrease_accumulated_cost` -/
def decreaseAccumulatedCost (type : TypeStats) (cost : Nat) : TypeStats :=
  { type with accumulatedCost := u64Sub type.accumulatedCost cost
              failed := type.failed || decide (type.accumulatedCost < cost) }

/-- `tasktype_stats_increase_num_predictionless_instances` -/
def increaseNumPredictionlessInstances (type : TypeStats) : TypeStats :=
  { type with numPredictionlessInstances := u64 (type.numPredictionlessInstances + 1) }

/-- `tasktype_stats_decrease_num_predictionless_instances` -/
def decreaseNumPredictionlessInstances (type : TypeStats) : TypeStats :=
  { type with numPredictionlessInstances := u64Sub type.numPredictionlessInstances 1 }

/-- `taskmonitor_task_submitted`; `get_cost` gives `cost`, if the type has
one. -/
def taskmonitorTaskSubmitted (type : TypeStats) (stats : TaskStats) (cost : Option Nat) : TaskStats :=
  if stats.initialized = true then stats
  else { stats with initialized := true
                    cost := u64 (cost.getD 1)
                    predicted := stats.predicted || decide (type.samples ≠ 0) }

/-- `taskmonitor_task_started` -/
def taskmonitorTaskStarted (type : TypeStats) (stats : TaskStats) (status : Status) :
    TypeStats × TaskStats :=
  (if stats.chrono = none ∧ status = .ready then
      if stats.predicted = true then increaseAccumulatedCost type stats.cost
      else increaseNumPredictionlessInstances type
    else type,
    { stats with chrono := some status })

/-- `taskmonitor_task_completed` -/
def taskmonitorTaskCompleted (type : TypeStats) (stats : TaskStats) : TypeStats × TaskStats :=
  let type := { type with samples := type.samples + 1 }
  (if stats.predicted = true then decreaseAccumulatedCost type stats.cost
    else decreaseNumPredictionlessInstances type,
    { stats with chrono := none })

/-! ## Tasks of a type -/

/-- A task with what the monitor knows of it -/
structure Monitored where
  count : EventCount
  stats : TaskStats
  /-- calls of `nosv_submit` that have not changed the status yet -/
  called : Nat
  /-- calls of `nosv_submit` that have, and are to count down `blocking_count` -/
  counting : Nat
  /-- executions that wait in `task_pause` for a submission -/
  paused : Nat
  /-- the task has become ready and has not completed since -/
  alive : Bool
  destroyed : Bool
  deriving DecidableEq

/-- How the type was made -/
inductive Start (ι : Type) where
  /-- `nosv_type_init`, with a callback that tasks run -/
  | typeInit
  /-- `nosv_attach`, for the task of the thread -/
  | attach (t : ι)
  deriving DecidableEq

structure Monitor (ι : Type) where
  type : TypeStats
  tasks : ι → Monitored

inductive Move where
  /-- `monitoring_task_submitted` -/
  | submitted (cost : Option Nat)
  /-- the status in `nosv_submit`, which counts down next -/
  | ready
  /-- the status in `nosv_submit` with `NOSV_SUBMIT_DEADLINE_WAKE` -/
  | wake
  /-- `blocking_count` in `nosv_submit` -/
  | release
  /-- `nosv_submit` with `NOSV_SUBMIT_INLINE` -/
  | inline
  /-- an execution changes the status -/
  | status (status : Status)
  /-- `blocking_count` in `task_pause` -/
  | pause
  /-- an execution ends and suspends in `NOSV_SUSPEND_MODE_NONE` -/
  | suspendNone
  /-- another step of the descriptor -/
  | count (move : CountMove)
  /-- `task_complete` -/
  | complete
  | detach
  deriving DecidableEq

section Model

variable {ι : Type} [DecidableEq ι]

def Start.attached (start : Start ι) (t : ι) : Bool := start = .attach t

/-- `task->type->run_callback` is there. -/
def Start.runs : Start ι → Bool
  | .typeInit => true
  | .attach _ => false

def created : Monitored := ⟨EventCount.init, taskStatsInit, 0, 0, 0, false, false⟩

/-- The task of a thread, which `nosv_attach` has submitted -/
def adopted (stats : TaskStats) : Monitored where
  count := { EventCount.init with
    task := { EventCount.init.task with blockingCount := 0 }, idle := false, live := 1 }
  stats := stats
  called := 0
  counting := 0
  paused := 0
  alive := true
  destroyed := false

def init : Start ι → Monitor ι
  | .typeInit => ⟨tasktypeStatsInit, fun _ => created⟩
  | .attach t =>
      let (type, stats) := taskmonitorTaskStarted tasktypeStatsInit taskStatsInit .ready
      ⟨type, Function.update (fun _ => created) t (adopted stats)⟩

def setBlockingCount (c : EventCount) (count : Int) : EventCount :=
  { c with task := { c.task with blockingCount := count } }

/-- A call of `nosv_submit` counts down `blocking_count`: the task goes to
the scheduler at zero. -/
def releaseCount (k : Monitored) : Option Monitored :=
  let count := countDown k.count.task.blockingCount
  let c := setBlockingCount k.count count
  if count = 0 then
    if c.idle = true then (c.step .submit).map fun c => { k with count := c }
    else if 0 < c.parked ∧ c.queued = false then (c.step .resubmit).map fun c => { k with count := c }
    -- the scheduler wakes up the thread that has paused
    else if 0 < k.paused then some { k with count := c, paused := k.paused - 1 }
    else some { k with count := { c with queued := true } }
  else some { k with count := c }

/-- An execution that has not paused -/
def Monitored.Acts (k : Monitored) : Prop := k.paused < k.count.live

instance (k : Monitored) : Decidable k.Acts := inferInstanceAs (Decidable (_ < _))

/-- The steps that an execution takes itself -/
def byExecution : CountMove → Bool
  | .cancel | .increase _ | .suspend | .park | .endExecution => true
  | .setDegree _ | .submit | .submitInline | .readDegree | .handOut | .decrease _ | .resubmit
  | .clearWaiting | .complete => false

/-- A step of the descriptor that has no step of its own here. -/
def countStep (start : Start ι) (t : ι) (c : EventCount) : CountMove → Option EventCount
  | .submit | .submitInline | .complete => none
  | .handOut => if start.runs = true then c.step .handOut else none
  | .endExecution => if start.attached t = true then none else c.step .endExecution
  | .suspend => if start.attached t = true then none else c.step .suspend
  | .park => if start.attached t = true then none else c.step .park
  | m => c.step m

/-- A change of status that the monitor is told. -/
def change (type : TypeStats) (k : Monitored) (status : Status) : TypeStats × Monitored :=
  let (type, stats) := taskmonitorTaskStarted type k.stats status
  (type, { k with stats := stats })

/-- The completion of a task -/
def finish (type : TypeStats) (k : Monitored) : TypeStats × Monitored :=
  let (type, stats) := taskmonitorTaskCompleted type k.stats
  (type, { k with stats := stats, alive := false })

/-- One task moves. -/
def taskStep (start : Start ι) (t : ι) (type : TypeStats) (k : Monitored) : Move → Option (TypeStats × Monitored)
  | .submitted cost =>
      some (type, { k with stats := taskmonitorTaskSubmitted type k.stats cost, called := k.called + 1 })
  | .ready =>
      if 0 < k.called then
        let (type, k) := change type k .ready
        some (type, { k with called := k.called - 1, counting := k.counting + 1, alive := true })
      else none
  | .wake =>
      if 0 < k.called then
        let (type, k) := change type k .ready
        some (type, { k with called := k.called - 1, alive := true })
      else none
  | .release =>
      if 0 < k.counting then
        (releaseCount k).map fun k => (type, { k with counting := k.counting - 1 })
      else none
  | .inline =>
      if 0 < k.counting ∧ start.runs = true then
        ((setBlockingCount k.count (countDown k.count.task.blockingCount)).step .submitInline).map fun c =>
          (type, { k with count := c, counting := k.counting - 1 })
      else none
  | .status status => if k.Acts then some (change type k status) else none
  | .pause =>
      let count := countUp k.count.task.blockingCount
      if k.Acts ∧ taskIsParallel k.count.task = false then
        some (type, { k with count := setBlockingCount k.count count
                             paused := if 0 < count then k.paused + 1 else k.paused })
      else none
  | .suspendNone =>
      if k.Acts ∧ start.attached t = false then
        ((setBlockingCount k.count (countUp k.count.task.blockingCount)).step .park).map fun c =>
          (type, { k with count := c })
      else none
  | .count m =>
      if byExecution m = true → k.Acts then
        (countStep start t k.count m).map fun c => (type, { k with count := c })
      else none
  | .complete =>
      (k.count.step .complete).map fun c =>
        let (type, k) := finish type k
        (type, { k with count := c })
  | .detach =>
      if start.attached t = true then
        let (type, k) := finish type k
        some (type, { k with destroyed := true })
      else none

/-- A destroyed task takes no step. -/
def step (start : Start ι) (s : Monitor ι) : ι × Move → Option (Monitor ι)
  | (t, m) =>
      if (s.tasks t).destroyed = true then none
      else (taskStep start t s.type (s.tasks t) m).map fun (type, k) =>
        ⟨type, Function.update s.tasks t k⟩

/-! ## What is promised, and what is claimed -/

/-- What the callers of `nosv_submit` promise: a task is submitted when it
has ended, is paused or suspended, or is going to be, so that no submission
that reaches zero finds it otherwise, and none is still going on when it
completes or is detached. -/
def Promised (s : Monitor ι) : ι × Move → Prop
  | (t, .release) =>
      let c := (s.tasks t).count
      countDown c.task.blockingCount = 0 → c.idle = true ∨ (0 < c.parked ∧ c.queued = false)
        ∨ (0 < c.live ∧ taskIsParallel c.task = false)
  | (t, .complete) | (t, .detach) => (s.tasks t).counting = 0
  | _ => True

instance (s : Monitor ι) : ∀ a, Decidable (Promised s a)
  | (_, .release) => inferInstanceAs (Decidable (_ → _))
  | (_, .complete) | (_, .detach) => inferInstanceAs (Decidable (_ = _))
  | (_, .submitted _) | (_, .ready) | (_, .wake) | (_, .inline) | (_, .status _) | (_, .pause)
  | (_, .suspendNone) | (_, .count _) => isTrue trivial

/-- No early submission reaches zero: while an ordinary task runs on, its
`blocking_count` is at most zero, unless it has wrapped around. -/
def Unwrapped (s : Monitor ι) : ι × Move → Prop
  | (t, .release) =>
      let c := (s.tasks t).count
      0 < c.live → taskIsParallel c.task = false → countDown c.task.blockingCount = 0 → 0 < (s.tasks t).paused
  | _ => True

instance (s : Monitor ι) : ∀ a, Decidable (Unwrapped s a)
  | (_, .release) => inferInstanceAs (Decidable (_ → _))
  | (_, .submitted _) | (_, .ready) | (_, .wake) | (_, .inline) | (_, .status _) | (_, .pause)
  | (_, .suspendNone) | (_, .count _) | (_, .complete) | (_, .detach) => isTrue trivial

/-- What is added to `event_count` leaves the flag alone. -/
def Room (s : Monitor ι) : ι × Move → Prop
  | (t, .count m) => (s.tasks t).count.Room m
  | _ => True

instance (s : Monitor ι) : ∀ a, Decidable (Room s a)
  | (t, .count m) => inferInstanceAs (Decidable ((s.tasks t).count.Room m))
  | (_, .submitted _) | (_, .ready) | (_, .wake) | (_, .release) | (_, .inline) | (_, .status _)
  | (_, .pause) | (_, .suspendNone) | (_, .complete) | (_, .detach) => isTrue trivial

variable [Fintype ι]

/-- The costs of the tasks that are alive fit into 64 bits. -/
def CostsFit (s : Monitor ι) : Prop :=
  ∑ t, (if (s.tasks t).alive = true then (s.tasks t).stats.cost else 0) < 18446744073709551616

instance (s : Monitor ι) : Decidable (CostsFit s) := inferInstanceAs (Decidable (_ < _))

/-- They fit after the step. -/
def CostsFitAfter (start : Start ι) (s : Monitor ι) (a : ι × Move) : Prop :=
  match step start s a with
  | none => True
  | some s' => CostsFit s'

instance (start : Start ι) (s : Monitor ι) (a : ι × Move) : Decidable (CostsFitAfter start s a) :=
  match h : step start s a with
  | none => isTrue (by rw [CostsFitAfter, h]; trivial)
  | some s' => decidable_of_iff (CostsFit s') (by rw [CostsFitAfter, h])

/-- The cost that a task has in the accumulation -/
def Monitored.weight (k : Monitored) : Nat :=
  if k.alive = true ∧ k.stats.predicted = true then k.stats.cost else 0

/-- A task that is counted as one without a prediction -/
def Monitored.unpredicted (k : Monitored) : Nat :=
  if k.alive = true ∧ k.stats.predicted = false then 1 else 0

/-- The costs of the tasks with a prediction that are alive are accumulated,
those without one are counted, and no assertion has failed. -/
structure Balanced (s : Monitor ι) : Prop where
  cost : s.type.accumulatedCost = ∑ t, (s.tasks t).weight
  count : s.type.numPredictionlessInstances = ∑ t, (s.tasks t).unpredicted
  safe : s.type.failed = false

end Model

end TaskMonitor

end Nosv
