import Nosv.Queue
import Nosv.Topology

/-!
# The scheduler

`scheduler_t` and the functions that run under the delegation lock:
insertion of ready tasks, the deadline purge and the search for a task
for a CPU. Each function is the source's, with the scheduler passed
explicitly.

* The list of process schedulers is the list `queues` of their pids;
  `queues_direct` is the table `proc`, and a pid that is not in `queues`
  has a `NULL` entry there.
* The arrays of affine queues are one family indexed by `QueueId`.
* `clock_ns` reads the next value of an arbitrary stream `clock`.
* Loops that consume a container recurse on its size, which is where the
  source leaves them because the container is empty.
-/

namespace Nosv

open RBTree

/-- The queues of a `process_scheduler_t`: `queue` and the four arrays
`per_cpu_queue_strict`, `per_cpu_queue_preferred`, `per_numa_queue_strict`
and `per_numa_queue_preferred`. -/
inductive QueueId where
  | main
  | cpuStrict (i : Nat)
  | cpuPreferred (i : Nat)
  | numaStrict (i : Nat)
  | numaPreferred (i : Nat)
  deriving DecidableEq, Repr

def QueueId.isPreferred : QueueId → Bool
  | .cpuPreferred _ => true
  | .numaPreferred _ => true
  | _ => false

structure ProcessScheduler where
  tasks : Int
  servedTasks : Int
  preferredAffinityTasks : Int
  deadlineTasks : RB TaskId
  now : Nat
  yieldTasks : List TaskId
  queues : QueueId → Queue

structure Timestamp where
  tsNs : Nat
  pid : Int
  deriving DecidableEq, Repr

structure Scheduler where
  /-- the task descriptors in shared memory -/
  task : TaskId → Task
  tasks : Int
  queues : List Nat
  proc : Nat → ProcessScheduler
  deadlinePurge : Nat
  timestamps : Nat → Timestamp
  quantumNs : Nat
  clock : Nat → Nat
  ticks : Nat

namespace Scheduler

def modTask (s : Scheduler) (t : TaskId) (f : Task → Task) : Scheduler :=
  { s with task := Function.update s.task t (f (s.task t)) }

def modProc (s : Scheduler) (p : Nat) (f : ProcessScheduler → ProcessScheduler) : Scheduler :=
  { s with proc := Function.update s.proc p (f (s.proc p)) }

def setQueue (s : Scheduler) (p : Nat) (i : QueueId) (q : Queue) : Scheduler :=
  s.modProc p fun ps => { ps with queues := Function.update ps.queues i q }

def priority (s : Scheduler) (t : TaskId) : Int := (s.task t).priority

end Scheduler

/-! ## Process schedulers and queues -/

/-- The counters and containers of a process scheduler before its first task. -/
def emptyProcess (now : Nat) : ProcessScheduler where
  tasks := 0
  servedTasks := 0
  preferredAffinityTasks := 0
  deadlineTasks := .nil
  now := now
  yieldTasks := []
  queues := fun _ => schedulerInitQueue

/-- `scheduler_init_pid` -/
def schedulerInitPid (s : Scheduler) (pid : Nat) : Scheduler :=
  { s with
    proc := Function.update s.proc pid (emptyProcess (s.clock s.ticks))
    queues := s.queues ++ [pid]
    ticks := s.ticks + 1 }

/-- `scheduler_add_queue` on a queue of process `p`. -/
def addQueue (s : Scheduler) (p : Nat) (i : QueueId) (t : TaskId) : Scheduler :=
  s.setQueue p i (schedulerAddQueue s.priority ((s.proc p).queues i) t)

/-- `scheduler_pop_queue` of the task found in a queue of process `p`. Only
the tree clears the hooks of the task. -/
def popQueue (s : Scheduler) (p : Nat) (i : QueueId) (t : TaskId) : Scheduler :=
  let q := (s.proc p).queues i
  let s := s.setQueue p i (schedulerPopQueue q)
  if q.priorityEnabled then s.modTask t fun k => { k with word := 0 } else s

/-- `task_deadline_compare` -/
def taskDeadlineCompare (s : Scheduler) (a b : TaskId) : Ordering :=
  compare (s.task a).deadline (s.task b).deadline

/-- `RB_REMOVE` from the deadline tree: the removed node keeps its links. -/
def removeDeadline (s : Scheduler) (p : Nat) (t : TaskId) : Scheduler :=
  let tree := (s.proc p).deadlineTasks
  let left := match leftLink t tree with
    | none => 0
    | some u => ptr u
  (s.modTask t fun k => { k with word := left }).modProc p
    fun ps => { ps with deadlineTasks := remove t tree }

/-! ## Insertion of ready tasks -/

/-- The loop `while (RB_INSERT(...)) task->deadline++`. -/
def insertDeadline (s : Scheduler) (p : Nat) (t : TaskId) : Nat → Option Scheduler
  | 0 => none
  | n + 1 =>
      match insert (taskDeadlineCompare s) t (s.proc p).deadlineTasks with
      | some tree =>
          some ((s.modTask t fun k => { k with word := 0 }).modProc p
            fun ps => { ps with deadlineTasks := tree })
      | none =>
          insertDeadline (s.modTask t fun k => { k with deadline := u64 (k.deadline + 1) }) p t n

/-- The choice of a container in `scheduler_insert_ready_task`; `none`
when the retry loop over equal deadlines does not end. -/
def insertContainer (s : Scheduler) (p : Nat) (t : TaskId) : Option Scheduler :=
  if (s.task t).yield ≠ 0 then
    let ps := s.proc p
    some ((s.modTask t fun k =>
        { k with word := (sizeT (ps.servedTasks + ps.tasks)).toNat }).modProc p
      fun ps => { ps with yieldTasks := ps.yieldTasks ++ [t] })
  else if (s.task t).deadline ≠ 0 then
    if (s.task t).deadlineState = .pending then
      insertDeadline (s.modTask t fun k => { k with deadlineState := .waiting }) p t
        (size (s.proc p).deadlineTasks + 1)
    else
      some (addQueue (s.modTask t deadlineTaskWakeUp) p .main t)
  else
    some (addQueue s p .main t)

/-- `pidqueue->tasks += degree; scheduler->tasks += degree` -/
def addDegree (s : Scheduler) (p : Nat) (degree : Int) : Scheduler :=
  { (s.modProc p fun ps => { ps with tasks := sizeT (ps.tasks + degree) }) with
    tasks := sizeT (s.tasks + degree) }

/-- `scheduler_init_pid` when the process has no scheduler yet. -/
def ensurePid (s : Scheduler) (pid : Nat) : Scheduler :=
  if pid ∈ s.queues then s else schedulerInitPid s pid

/-- `scheduler_insert_ready_task` -/
def schedulerInsertReadyTask (s : Scheduler) (t : TaskId) : Option Scheduler :=
  let pid := (s.task t).pid
  let degree := taskGetDegree (s.task t)
  match insertContainer (ensurePid s pid) pid t with
  | none => none
  | some s => some (addDegree s pid degree)

/-! ## Circular order of the process schedulers -/

/-- `list_next_circular` -/
def listNextCircular (l : List Nat) (p : Nat) : Nat :=
  match (l.dropWhile (· ≠ p)).tail with
  | q :: _ => q
  | [] => l.headD p

/-- The order in which a do-while loop over the list visits it, starting
from `p`. -/
def circularFrom (l : List Nat) (p : Nat) : List Nat :=
  l.dropWhile (· ≠ p) ++ l.takeWhile (· ≠ p)

/-- The process scheduler of `pid`, or the first of the list when it has
none. -/
def startPid (s : Scheduler) (pid : Nat) : Nat :=
  if pid ∈ s.queues then pid else s.queues.headD pid

/-! ## Deadline purge -/

/-- Move a woken task from the deadline tree to the ready queue. -/
def purgeTask (s : Scheduler) (p : Nat) (t : TaskId) : Scheduler :=
  addQueue ((removeDeadline s p t).modTask t deadlineTaskWakeUp) p .main t

/-- The `RB_FOREACH_SAFE` loop over one tree; also gives what is left of
`to_purge`. -/
def purgeProcess (s : Scheduler) (p : Nat) : List TaskId → Nat → Scheduler × Nat
  | [], n => (s, n)
  | t :: ts, n =>
      if (s.task t).deadlineState = .ready then
        if n - 1 = 0 then (purgeTask s p t, 0)
        else purgeProcess (purgeTask s p t) p ts (n - 1)
      else purgeProcess s p ts n

/-- The outer loop of `scheduler_deadline_purge_internal`. -/
def purgeProcesses (s : Scheduler) : List Nat → Nat → Scheduler
  | [], _ => s
  | p :: ps, n =>
      match purgeProcess s p (inorder (s.proc p).deadlineTasks) n with
      | (s', n') => if n' = 0 then s' else purgeProcesses s' ps n'

/-- `scheduler_deadline_purge_internal`, called by a worker of `logicPid`. -/
def schedulerDeadlinePurgeInternal (s : Scheduler) (logicPid count : Nat) : Scheduler :=
  if s.tasks = 0 then s
  else purgeProcesses s (circularFrom s.queues (startPid s logicPid)) count

/-- `scheduler_deadline_purge` -/
def schedulerDeadlinePurge (s : Scheduler) (logicPid : Nat) : Scheduler :=
  let toPurge := s.deadlinePurge
  if toPurge = 0 then s
  else
    let s := schedulerDeadlinePurgeInternal s logicPid toPurge
    { s with deadlinePurge := s.deadlinePurge - toPurge }

/-! ## Affinity -/

/-- `task_affine` -/
def taskAffine (topo : Topology) (a : Affinity) (cpu : Nat) : Bool :=
  match a.level with
  | .cpu => a.index = topo.cpuSid cpu
  | .numa =>
      let numaSystem := topo.topoDomSid .numa (topo.cpuParentNuma cpu)
      topo.topoDomLid .numa a.index = (numaSystem : Int)
  | _ => true

/-- The queue chosen by `scheduler_insert_affine`; the levels without a
queue of their own are excluded by its assertions. -/
def affineQueue (topo : Topology) (a : Affinity) : QueueId :=
  match a.level with
  | .cpu =>
      let idx := (topo.topoDomLid .cpu a.index).toNat
      if a.type = .strict then .cpuStrict idx else .cpuPreferred idx
  | .numa =>
      let idx := (topo.topoDomLid .numa a.index).toNat
      if a.type = .strict then .numaStrict idx else .numaPreferred idx
  | _ => .main

/-- `scheduler_insert_affine` -/
def schedulerInsertAffine (topo : Topology) (s : Scheduler) (p : Nat) (t : TaskId) : Scheduler :=
  let a := (s.task t).affinity
  let s :=
    if a.type = .preferred then
      s.modProc p fun ps =>
        { ps with preferredAffinityTasks := sizeT (ps.preferredAffinityTasks + 1) }
    else s
  addQueue s p (affineQueue topo a) t

/-! ## Expired tasks -/

/-- The common end of the two expired branches of
`scheduler_get_deadline_expired`. -/
def expireDeadline (s : Scheduler) (p : Nat) (t : TaskId) : Scheduler :=
  (removeDeadline s p t).modTask t deadlineTaskWakeUp

/-- `sched->now = clock_ns()` -/
def updateNow (s : Scheduler) (p : Nat) : Scheduler :=
  { (s.modProc p fun ps => { ps with now := s.clock s.ticks }) with ticks := s.ticks + 1 }

/-- `scheduler_get_deadline_expired` -/
def schedulerGetDeadlineExpired (s : Scheduler) (p : Nat) : Option TaskId × Scheduler :=
  match min? (s.proc p).deadlineTasks with
  | none => (none, s)
  | some t =>
      if (s.task t).deadline < (s.proc p).now then (some t, expireDeadline s p t)
      else
        let s := updateNow s p
        if (s.task t).deadline < (s.proc p).now then (some t, expireDeadline s p t)
        else (none, s)

/-- Take the first task off the yield list and unmark it. -/
def popYield (s : Scheduler) (p : Nat) (t : TaskId) : Scheduler :=
  (s.modTask t fun k => { k with word := 0 }).modProc p
    fun ps => { ps with yieldTasks := ps.yieldTasks.tail }

/-- `scheduler_get_yield_expired` -/
def schedulerGetYieldExpired (s : Scheduler) (p : Nat) : Option TaskId × Scheduler :=
  match (s.proc p).yieldTasks with
  | [] => (none, s)
  | t :: _ =>
      if ((s.task t).yield : Int) ≤ (s.proc p).servedTasks then (some t, popYield s p t)
      else (none, s)

/-! ## Search in one process scheduler -/

/-- `task->scheduled_count++` -/
def schedule (s : Scheduler) (t : TaskId) : Scheduler :=
  s.modTask t fun k => { k with scheduledCount := u32 (k.scheduledCount + 1) }

/-- `scheduler_get_from_queue`: the task and the value of `*removed`. -/
def schedulerGetFromQueue (s : Scheduler) (p : Nat) (i : QueueId) :
    Option (TaskId × Int) × Scheduler :=
  match schedulerFindInQueue ((s.proc p).queues i) with
  | none => (none, s)
  | some t =>
      let degree := (s.task t).degree
      let s := schedule s t
      let count := (s.task t).scheduledCount
      if degree < 0 ∨ degree ≤ count then
        let removed := if degree < 0 then 1 + (-degree - count) else 1
        (some (t, removed), popQueue s p i t)
      else
        (some (t, 1), s.modTask t fun k => { k with eventCount := u32 (k.eventCount + 1) })

/-- The label `task_obtained`, with what precedes it for a preferred queue. -/
def taskObtained (s : Scheduler) (p : Nat) (preferred : Bool) (removed : Int) : Scheduler :=
  s.modProc p fun ps =>
    { ps with
      preferredAffinityTasks :=
        if preferred then sizeT (ps.preferredAffinityTasks - removed)
        else ps.preferredAffinityTasks
      tasks := sizeT (ps.tasks - removed) }

/-- The deadline loop of `scheduler_find_task_process`. -/
def findDeadline (topo : Topology) (p cpu : Nat) : Nat → Scheduler → Option TaskId × Scheduler
  | 0, s => (none, s)
  | n + 1, s =>
      match schedulerGetDeadlineExpired s p with
      | (none, s) => (none, s)
      | (some t, s) =>
          if taskAffine topo (s.task t).affinity cpu then (some t, schedule s t)
          else findDeadline topo p cpu n (schedulerInsertAffine topo s p t)

/-- The yield loop of `scheduler_find_task_process`. -/
def findYield (topo : Topology) (p cpu : Nat) : Nat → Scheduler → Option TaskId × Scheduler
  | 0, s => (none, s)
  | n + 1, s =>
      match schedulerGetYieldExpired s p with
      | (none, s) => (none, s)
      | (some t, s) =>
          if taskAffine topo (s.task t).affinity cpu then (some t, schedule s t)
          else findYield topo p cpu n (schedulerInsertAffine topo s p t)

/-- `scheduler_get_from_queue` on a list of queues, up to the first that
gives a task. -/
def getFromQueues (p : Nat) : List QueueId → Scheduler → Option (TaskId × Int) × Scheduler
  | [], s => (none, s)
  | i :: is, s =>
      match schedulerGetFromQueue s p i with
      | (some (t, removed), s) => (some (t, removed), taskObtained s p i.isPreferred removed)
      | (none, s) => getFromQueues p is s

/-- The loop of `scheduler_find_task_process` over the main queue. -/
def findMain (topo : Topology) (p cpu : Nat) :
    Nat → Scheduler → Option (TaskId × Int) × Scheduler
  | 0, s => (none, s)
  | n + 1, s =>
      match schedulerFindInQueue ((s.proc p).queues .main) with
      | none => (none, s)
      | some t =>
          if taskAffine topo (s.task t).affinity cpu then getFromQueues p [.main] s
          else findMain topo p cpu n (schedulerInsertAffine topo (popQueue s p .main t) p t)

/-- The affine queues that `scheduler_find_task_process` polls for a CPU. -/
def polledQueues (topo : Topology) (cpu : Nat) : List QueueId :=
  [.cpuStrict cpu, .cpuPreferred cpu,
    .numaStrict (topo.cpuParentNuma cpu), .numaPreferred (topo.cpuParentNuma cpu)]

/-- `scheduler_find_task_process` -/
def schedulerFindTaskProcess (topo : Topology) (cpu : Nat) (s : Scheduler) (p : Nat) :
    Option (TaskId × Int) × Scheduler :=
  if (s.proc p).tasks = 0 then (none, s)
  else match findDeadline topo p cpu (size (s.proc p).deadlineTasks) s with
    | (some t, s) => (some (t, 1), taskObtained s p false 1)
    | (none, s) =>
        match findYield topo p cpu (s.proc p).yieldTasks.length s with
        | (some t, s) => (some (t, 1), taskObtained s p false 1)
        | (none, s) =>
            match getFromQueues p (polledQueues topo cpu) s with
            | (some r, s) => (some r, s)
            | (none, s) =>
                findMain topo p cpu ((s.proc p).queues .main).contents.length s

/-- The preferred queues, in the order in which they are stolen from. -/
def preferredQueues (topo : Topology) : List QueueId :=
  (List.range (topo.topoLvlCnt .cpu)).map .cpuPreferred
    ++ (List.range (topo.topoLvlCnt .numa)).map .numaPreferred

/-- `scheduler_find_task_noaffine_process` -/
def schedulerFindTaskNoaffineProcess (topo : Topology) (s : Scheduler) (p : Nat) :
    Option (TaskId × Int) × Scheduler :=
  if (s.proc p).tasks = 0 then (none, s)
  else if (s.proc p).preferredAffinityTasks = 0 then (none, s)
  else getFromQueues p (preferredQueues topo) s

/-- The loop of `scheduler_find_task_yield_process`. -/
def findAnyYield (topo : Topology) (p cpu : Nat) :
    Nat → Scheduler → Option TaskId × Scheduler
  | 0, s => (none, s)
  | n + 1, s =>
      match (s.proc p).yieldTasks with
      | [] => (none, s)
      | t :: _ =>
          let s := popYield s p t
          if taskAffine topo (s.task t).affinity cpu then (some t, schedule s t)
          else findAnyYield topo p cpu n (schedulerInsertAffine topo s p t)

/-- `scheduler_find_task_yield_process`; `*removed` is still the `1` that
the earlier searches stored. -/
def schedulerFindTaskYieldProcess (topo : Topology) (cpu : Nat) (s : Scheduler) (p : Nat) :
    Option (TaskId × Int) × Scheduler :=
  match findAnyYield topo p cpu (s.proc p).yieldTasks.length s with
  | (some t, s) => (some (t, 1), taskObtained s p false 1)
  | (none, s) => (none, s)

/-! ## Search over all processes -/

/-- `scheduler_should_yield`, with the timestamp it took. -/
def schedulerShouldYield (s : Scheduler) (pid cpu ts : Nat) : Bool :=
  (s.timestamps cpu).pid = pid
    && decide (s.quantumNs < u64 (ts + 18446744073709551616 - (s.timestamps cpu).tsNs))

/-- `scheduler_update_accounting` -/
def schedulerUpdateAccounting (s : Scheduler) (pid : Nat) (t : Option TaskId) (cpu ts : Nat) :
    Scheduler :=
  match t with
  | none =>
      { s with timestamps :=
          Function.update s.timestamps cpu ⟨(s.timestamps cpu).tsNs, -1⟩ }
  | some t =>
      let taskPid := (s.task t).pid
      if taskPid ≠ pid then
        { s with timestamps := Function.update s.timestamps cpu ⟨ts, taskPid⟩ }
      else if (pid : Int) ≠ (s.timestamps cpu).pid then
        { s with timestamps := Function.update s.timestamps cpu ⟨ts, pid⟩ }
      else s

/-- `scheduler->tasks -= task_removed; sched->served_tasks += task_removed` -/
def countServed (s : Scheduler) (p : Nat) (removed : Int) : Scheduler :=
  { (s.modProc p fun ps => { ps with servedTasks := sizeT (ps.servedTasks + removed) }) with
    tasks := sizeT (s.tasks - removed) }

/-- `SCHEDULER_FOREACH_DO`: the first process that gives a task, with the
two counters updated for it. -/
def schedulerForeachDo (f : Scheduler → Nat → Option (TaskId × Int) × Scheduler)
    (external : Bool) (pid : Nat) : List Nat → Scheduler → Option TaskId × Scheduler
  | [], s => (none, s)
  | p :: ps, s =>
      if external && p == pid then schedulerForeachDo f external pid ps s
      else match f s p with
        | (some (t, removed), s) => (some t, countServed s p removed)
        | (none, s) => schedulerForeachDo f external pid ps s

/-- `scheduler_get_internal` for `cpu`, which runs process `pid`; `ts` is
the value of `clock_fast_ns`. -/
def schedulerGetInternal (topo : Topology) (s : Scheduler) (cpu pid : Nat) (external : Bool)
    (ts : Nat) : Option TaskId × Scheduler :=
  if s.tasks = 0 then (none, schedulerUpdateAccounting s 0 none cpu 0)
  else
    let yield := schedulerShouldYield s pid cpu ts
    let start := startPid s pid
    let it := if yield then listNextCircular s.queues start else start
    let order := circularFrom s.queues it
    match schedulerForeachDo (schedulerFindTaskProcess topo cpu) external pid order s with
    | (some t, s) => (some t, schedulerUpdateAccounting s pid (some t) cpu ts)
    | (none, s) =>
        match schedulerForeachDo (schedulerFindTaskNoaffineProcess topo) external pid order s with
        | (some t, s) => (some t, schedulerUpdateAccounting s pid (some t) cpu ts)
        | (none, s) =>
            let order := if yield then order
              else circularFrom s.queues (listNextCircular s.queues it)
            match schedulerForeachDo (schedulerFindTaskYieldProcess topo cpu)
                external pid order s with
            | (some t, s) => (some t, schedulerUpdateAccounting s pid (some t) cpu ts)
            | (none, s) => (none, s)

end Nosv
