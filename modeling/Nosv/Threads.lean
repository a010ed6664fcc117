import Nosv.EventQueue
import Nosv.Pids

/-!
# Workers, processes and CPUs

The right to run on a CPU, as `hardware/threads.c` passes it around: from
one worker to another of its process or of a different one, through a
creation event to the delegate thread of another process, or, when the
last process goes, to nobody. `Crew` is the state that the processes
share, with the program counters of all threads.

* A step is one access to what threads share: a section under a spinlock,
  a write to a descriptor or to `pids_cpus`, a signal, a put to or a pull
  from an event queue. What a thread reads of a task it was handed is read
  together with the next such step, as nobody else may change it.
* The scheduler is the place `ready` of tasks: `scheduler_get` may return
  any task that is there, or none. An ordinary task is not there any more
  then, as `scheduled_count` is asserted not to wrap around.
* `pidmanager_transfer_to_idle` and `pidmanager_register` hold the lock of
  the pid manager over several steps; a section that does one thing is one
  step that needs the lock to be free.
* A worker and the thread that runs it have one name. It is not used again
  when the structure is freed, so that a thread in `nosv_detach` still has
  one.
-/

namespace Nosv

abbrev WorkerId := Nat
abbrev Pid := Nat
abbrev Cpu := Nat

/-! ## Tasks -/

inductive JobPlace where
  /-- neither submitted nor executing -/
  | rest
  /-- submitted: the scheduler may return it -/
  | ready
  /-- returned by the scheduler, or the immediate successor of a worker -/
  | flight
  | running
  /-- blocked through its blocking count -/
  | paused
  /-- blocked until somebody resumes it: a mutex, a barrier, its events -/
  | waiting
  /-- destroyed by `nosv_detach` -/
  | dead
  deriving DecidableEq, Repr

/-- What is kept of a `nosv_task`: the process of its type, the worker that
executes it, its blocking count. The place is that of an ordinary task;
`execs` is how many executions of a parallel one the scheduler has. -/
structure Job where
  pid : Pid
  parallel : Bool
  worker : Option WorkerId
  count : Int
  place : JobPlace
  execs : Nat
  deriving DecidableEq, Repr

/-- How the body of an ordinary task ends: for good, or suspended in one
of the suspend modes. -/
inductive Ending where
  | ends
  | pauses
  | resubmits
  | sleeps
  deriving DecidableEq, Repr

/-! ## Threads -/

/-- What a thread does when it has handed its CPU over. -/
inductive After where
  /-- `worker_block` -/
  | block
  /-- the end of `nosv_detach` -/
  | detach
  /-- the end of `worker_coordinate_shutdown` -/
  | exit
  /-- the end of `pidmanager_transfer_to_idle` -/
  | unlock
  deriving DecidableEq, Repr

/-- Where a thread is that hands its CPU over. A handle is the task, or
`none` for `EMPTY_TASK_EXECUTION_HANDLE`. -/
inductive Hand where
  /-- `worker_yield_to`, before the current task is submitted -/
  | submitSelf (t : TaskId)
  /-- `worker_execute_or_delegate` -/
  | dispatch (t : TaskId) (busy : Bool)
  /-- `cpu_transfer`, before `pids_cpus` is written -/
  | transfer (p : Pid) (h : Option TaskId)
  /-- `worker_wake_idle`, before the list of idle threads is popped -/
  | wakeIdle (p : Pid) (h : Option TaskId)
  /-- there was an idle thread; before it gets its handle -/
  | give (v : WorkerId) (h : Option TaskId)
  /-- `worker_wake_internal`, before `new_cpu` is written -/
  | newCpu (v : WorkerId)
  | setPid (v : WorkerId)
  | signal (v : WorkerId)
  /-- `worker_create_local`, before `created` is incremented -/
  | create (h : Option TaskId)
  | spawn (h : Option TaskId)
  /-- `worker_create_remote` -/
  | put (p : Pid) (h : Option TaskId)
  deriving DecidableEq, Repr

/-- Where a thread is in `worker_coordinate_shutdown`. -/
inductive Closing where
  | list
  | pop
  | join
  | check
  | transfer
  deriving DecidableEq, Repr

/-- Where a thread is in `killer_task_run_callback`, after the process has
unregistered. -/
inductive Killer where
  | leader
  | putShutdown
  | setSignal
  | done
  deriving DecidableEq, Repr

inductive Pc where
  | absent
  /-- created, and has not run yet -/
  | starting
  /-- the head of the loop of `worker_start_routine` -/
  | loop
  /-- in that loop, looking for a task -/
  | hunt
  /-- in the body of a task -/
  | body
  /-- `nosv_attach`, before its task is submitted -/
  | attach
  | killer (k : Killer)
  | hand (a : After) (k : Hand)
  | blocked
  | closing (k : Closing)
  /-- about to release the lock of the pid manager -/
  | unlock
  | gone
  deriving DecidableEq, Repr

def After.pc : After → Pc
  | .block => .blocked
  | .detach => .gone
  | .exit => .gone
  | .unlock => .unlock

structure Worker where
  pid : Pid
  /-- attached, not created by the runtime -/
  external : Bool
  pc : Pc
  cpu : Option Cpu
  newCpu : Option Cpu
  /-- of the condition variable of the worker -/
  signaled : Bool
  handle : Option TaskId
  immediateSuccessor : Option TaskId
  /-- the tasks whose bodies the thread is in; the one on top is `handle` -/
  stack : List TaskId
  deriving DecidableEq, Repr

/-- The main thread of a process: in `pidmanager_register`, or past it. -/
inductive MainPc where
  | none
  | popFree
  | create (c : Cpu)
  | spawn (c : Cpu)
  | up
  deriving DecidableEq, Repr

/-- The delegate thread of a process, in `delegate_routine`. -/
inductive DelegatePc where
  | pull
  | create (c : Cpu) (h : Option TaskId)
  | spawn (c : Cpu) (h : Option TaskId)
  | gone
  deriving DecidableEq, Repr

/-- The structures of one process; `threads` is history: the workers that
`worker_create_local` made. -/
structure Process where
  /-- its bit in `pids_alloc` -/
  allocated : Bool
  /-- its bit in `pids`, set as long as its structures can be found -/
  registered : Bool
  main : MainPc
  delegate : DelegatePc
  idleThreads : List WorkerId
  threadCreationQueue : EventQueue
  created : Nat
  shutdownThreads : List WorkerId
  leaderShutdownCpu : Option Cpu
  delegateJoined : Bool
  threadsShutdownSignal : Bool
  /-- the leader has signalled the thread that shuts the process down -/
  finished : Bool
  threads : List WorkerId

inductive LockOwner where
  | main (p : Pid)
  | worker (w : WorkerId)
  deriving DecidableEq, Repr

structure Crew where
  pidsCpus : Cpu → Option Pid
  worker : WorkerId → Worker
  workers : Nat
  job : TaskId → Job
  jobs : Nat
  process : Pid → Process
  lock : Option LockOwner

namespace Crew

def setWorker (s : Crew) (w : WorkerId) (x : Worker) : Crew :=
  { s with worker := Function.update s.worker w x }

def setPc (s : Crew) (w : WorkerId) (pc : Pc) : Crew := s.setWorker w { s.worker w with pc := pc }

def setJob (s : Crew) (t : TaskId) (j : Job) : Crew :=
  { s with job := Function.update s.job t j }

def setProcess (s : Crew) (p : Pid) (x : Process) : Crew :=
  { s with process := Function.update s.process p x }

/-- `cpu_set_pid`, and the writes of `cpu_mark_free` and `cpu_pop_free`. -/
def cpuSetPid (s : Crew) (c : Cpu) (p : Option Pid) : Crew :=
  { s with pidsCpus := Function.update s.pidsCpus c p }

def setLock (s : Crew) (o : Option LockOwner) : Crew := { s with lock := o }

/-! ## Operations of the runtime -/

/-- `scheduler_submit_single` of an ordinary task. -/
def schedulerSubmit (s : Crew) (t : TaskId) : Crew := s.setJob t { s.job t with place := .ready }

/-- What `scheduler_get` does when it returns task `t`. -/
def schedulerGet (s : Crew) (t : TaskId) : Option Crew :=
  let j := s.job t
  if j.parallel then
    if 0 < j.execs then some (s.setJob t { j with execs := j.execs - 1 }) else none
  else if j.place = .ready then some (s.setJob t { j with place := .flight }) else none

/-- `worker_add_to_idle_list` of worker `w`. -/
def workerAddToIdleList (s : Crew) (w : WorkerId) : Crew :=
  let p := (s.worker w).pid
  s.setProcess p { s.process p with idleThreads := w :: (s.process p).idleThreads }

/-- The structure that `worker_create_local` of process `p` fills. -/
def newWorker (p : Pid) (c : Cpu) (h : Option TaskId) : Worker where
  pid := p
  external := false
  pc := .starting
  cpu := some c
  newCpu := none
  signaled := false
  handle := h
  immediateSuccessor := none
  stack := []

/-- The first step of `worker_create_local`. -/
def incCreated (s : Crew) (p : Pid) : Crew :=
  s.setProcess p { s.process p with created := (s.process p).created + 1 }

/-- The rest of `worker_create_local`: there is a new thread for CPU `c`. -/
def workerCreateLocal (s : Crew) (p : Pid) (c : Cpu) (h : Option TaskId) : Crew :=
  { (s.setProcess p { s.process p with threads := s.workers :: (s.process p).threads }).setWorker
      s.workers (newWorker p c h) with workers := s.workers + 1 }

/-- `event_queue_put` to the queue of process `p`, whatever it returns. -/
def putEvent (s : Crew) (p : Pid) (e : CreationEvent) : Crew :=
  s.setProcess p { s.process p with
    threadCreationQueue := (eventQueuePut (s.process p).threadCreationQueue e).2 }

/-- `task_execute` up to the body of the task. -/
def taskExecute (s : Crew) (w : WorkerId) (t : TaskId) : Crew :=
  let j := s.job t
  (s.setJob t (if j.parallel then j else { j with worker := some w, place := .running })).setWorker w
    { s.worker w with handle := some t, stack := t :: (s.worker w).stack, pc := .body }

/-- `worker_yield`: the current task is already where it waits. -/
def workerYield (s : Crew) (w : WorkerId) : Crew :=
  let x := s.worker w
  match x.immediateSuccessor with
  | some u => s.setWorker w
      { x with immediateSuccessor := none, pc := .hand .block (.dispatch u true) }
  | none => s.setPc w (.hand .block (.wakeIdle x.pid none))

/-- The ordinary task that worker `w` is in the body of. -/
def current (s : Crew) (w : WorkerId) : Option TaskId :=
  let x := s.worker w
  match x.stack with
  | t :: _ => if x.pc = .body ∧ (s.job t).parallel = false then some t else none
  | [] => none

/-! ## One step of a thread -/

/-- `worker_execute_or_delegate` for task `t`. An idle worker adds itself
to the list of idle threads before it hands its CPU over. -/
def dispatch (s : Crew) (w : WorkerId) (a : After) (t : TaskId) (busy : Bool) : Crew :=
  let x := s.worker w
  let leave (s : Crew) : Crew := if busy then s else s.workerAddToIdleList w
  match (s.job t).worker with
  | some v =>
      (leave (s.setJob t { s.job t with place := .running })).setPc w (.hand a (.newCpu v))
  | none =>
      if (s.job t).pid ≠ x.pid then
        (leave s).setPc w (.hand a (.transfer (s.job t).pid (some t)))
      else if busy then s.setPc w (.hand a (.wakeIdle x.pid (some t)))
      else s.taskExecute w t

/-- The steps of a thread that hands CPU `c` over. -/
def handStep (s : Crew) (w : WorkerId) (a : After) (c : Cpu) : Hand → Option Crew
  | .submitSelf t =>
      match (s.worker w).stack with
      | u :: _ => some ((s.schedulerSubmit u).setPc w (.hand a (.dispatch t true)))
      | [] => none
  | .dispatch t busy => some (s.dispatch w a t busy)
  | .transfer p h => some ((s.cpuSetPid c (some p)).setPc w (.hand a (.wakeIdle p h)))
  | .wakeIdle p h =>
      if (s.process p).registered then
        match (s.process p).idleThreads with
        | v :: rest => some ((s.setProcess p { s.process p with idleThreads := rest }).setPc w
            (.hand a (.give v h)))
        | [] => some (s.setPc w
            (.hand a (if p = (s.worker w).pid then .create h else .put p h)))
      else none
  | .give v h =>
      some ((s.setWorker v { s.worker v with handle := h }).setPc w (.hand a (.newCpu v)))
  | .newCpu v =>
      some ((s.setWorker v { s.worker v with newCpu := some c }).setPc w (.hand a (.setPid v)))
  | .setPid v =>
      some ((if (s.worker v).pid ≠ (s.worker w).pid then s.cpuSetPid c (some (s.worker v).pid)
        else s).setPc w (.hand a (.signal v)))
  | .signal v =>
      some ((s.setWorker v { s.worker v with signaled := true }).setPc w a.pc)
  | .create h => some ((s.incCreated (s.worker w).pid).setPc w (.hand a (.spawn h)))
  | .spawn h => some ((s.workerCreateLocal (s.worker w).pid c h).setPc w a.pc)
  | .put p h => some ((s.putEvent p (.creation c h)).setPc w a.pc)

/-- The steps of `worker_coordinate_shutdown` on CPU `c`. -/
def closingStep (s : Crew) (w : WorkerId) (c : Cpu) : Closing → Option Crew
  | .list =>
      let p := (s.worker w).pid
      some ((s.setProcess p { s.process p with
        shutdownThreads := w :: (s.process p).shutdownThreads }).setPc w (.closing .pop))
  | .pop =>
      let p := (s.worker w).pid
      match (s.process p).idleThreads with
      | v :: rest => some ((s.setProcess p { s.process p with idleThreads := rest }).setPc w
          (.hand .exit (.newCpu v)))
      | [] => some (s.setPc w (.closing
          (if (s.process p).leaderShutdownCpu = some c then .join else .transfer)))
  | .join =>
      let p := (s.worker w).pid
      let x := s.process p
      let joined := x.delegateJoined || decide (x.delegate = .gone)
      some ((s.setProcess p { x with delegateJoined := joined }).setPc w (.closing .check))
  | .check =>
      let p := (s.worker w).pid
      let x := s.process p
      if x.delegateJoined ∧ x.created = x.shutdownThreads.length then
        some ((s.setProcess p { x with finished := true }).setPc w (.closing .transfer))
      else some (s.setPc w (.closing .pop))
  | .transfer =>
      -- `pidmanager_transfer_to_idle`; the CPU may become free here
      if s.lock = none then
        match bitFfs fun p => (s.process p).registered with
        | some p => some ((s.setLock (some (.worker w))).setPc w
            (.hand .unlock (.transfer p none)))
        | none => some (((s.setLock (some (.worker w))).cpuSetPid c none).setPc w .unlock)
      else none

/-- The steps of `killer_task_run_callback` after `pidmanager_unregister`. -/
def killerStep (s : Crew) (w : WorkerId) : Killer → Option Crew
  | .leader =>
      let p := (s.worker w).pid
      some ((s.setProcess p { s.process p with leaderShutdownCpu := (s.worker w).cpu }).setPc w
        (.killer .putShutdown))
  | .putShutdown => some ((s.putEvent (s.worker w).pid .shutdown).setPc w (.killer .setSignal))
  | .setSignal =>
      let p := (s.worker w).pid
      some ((s.setProcess p { s.process p with threadsShutdownSignal := true }).setPc w
        (.killer .done))
  | .done => none

/-- The next step of the thread of worker `w`, where it has no choice. -/
def go (s : Crew) (w : WorkerId) : Option Crew :=
  let x := s.worker w
  match x.pc with
  | .starting => some (s.setPc w .loop)
  | .loop => some (s.setPc w
      (if (s.process x.pid).threadsShutdownSignal then .closing .list else .hunt))
  | .hunt =>
      match x.handle with
      | some t => some (s.setPc w (.hand .block (.dispatch t false)))
      | none => none
  | .attach =>
      match x.stack with
      | t :: _ => some ((s.schedulerSubmit t).setPc w .blocked)
      | [] => none
  | .blocked =>
      -- the end of `worker_block`
      if x.signaled then
        some (s.setWorker w { x with signaled := false, cpu := x.newCpu,
                                     pc := if x.stack = [] then .loop else .body })
      else none
  | .hand a k => x.cpu.bind fun c => s.handStep w a c k
  | .closing k => x.cpu.bind fun c => s.closingStep w c k
  | .killer k => s.killerStep w k
  | .unlock => some ((s.setLock none).setPc w .gone)
  | .absent | .body | .gone => none

/-! ## Steps -/

/-- The structures of a process that has just got its pid, in
`pidmanager_register`. -/
def newProcess (cpus : Nat) (hcpus : 0 < cpus) : Process where
  allocated := true
  registered := true
  main := .popFree
  delegate := .pull
  idleThreads := []
  threadCreationQueue := eventQueueInit cpus hcpus
  created := 0
  shutdownThreads := []
  leaderShutdownCpu := none
  delegateJoined := false
  threadsShutdownSignal := false
  finished := false
  threads := []

/-- The next step of the main thread of process `p` in
`pidmanager_register`. -/
def mainStep (s : Crew) (cpus : Nat) (p : Pid) : Option Crew :=
  let x := s.process p
  match x.main with
  | .popFree =>
      match (List.range cpus).find? fun c => s.pidsCpus c = none with
      | some c => some ((s.cpuSetPid c (some p)).setProcess p { x with main := .create c })
      | none => some ((s.setProcess p { x with main := .up }).setLock none)
  | .create c => some ((s.incCreated p).setProcess p { (s.incCreated p).process p with
      main := .spawn c })
  | .spawn c =>
      let s := s.workerCreateLocal p c none
      some (s.setProcess p { s.process p with main := .popFree })
  | .none | .up => none

/-- The next step of the delegate of process `p`. -/
def delegateStep (s : Crew) (p : Pid) : Option Crew :=
  let x := s.process p
  match x.delegate with
  | .pull =>
      match eventQueuePull x.threadCreationQueue with
      | some (.creation c h, queue) =>
          some (s.setProcess p { x with threadCreationQueue := queue, delegate := .create c h })
      | some (.shutdown, queue) =>
          some (s.setProcess p { x with threadCreationQueue := queue, delegate := .gone })
      | none => none
  | .create c h => some ((s.incCreated p).setProcess p { (s.incCreated p).process p with
      delegate := .spawn c h })
  | .spawn c h =>
      let s := s.workerCreateLocal p c h
      some (s.setProcess p { s.process p with delegate := .pull })
  | .gone => none

/-- What `nosv_submit` without flags does; `n` is the degree of a parallel
task. -/
def nosvSubmit (s : Crew) (t : TaskId) (n : Nat) : Crew :=
  let j : Job := { s.job t with count := countDown (s.job t).count }
  if j.count = 0 then
    s.setJob t (if j.parallel then { j with execs := j.execs + n } else { j with place := .ready })
  else s.setJob t j

/-- The descriptor after the body of its task. -/
def taskEnds (j : Job) (e : Ending) : Job :=
  let j : Job := { j with worker := none }
  if j.parallel then { j with count := 1 }
  else
    match e with
    | .ends => { j with count := 1, place := .rest }
    | .pauses =>
        { j with count := countUp j.count, place := if countUp j.count ≤ 0 then .ready else .paused }
    | .resubmits => { j with place := .ready }
    | .sleeps => { j with place := .waiting }

end Crew

inductive CrewMove where
  /-- `nosv_create` of a task of process `p` -/
  | create (p : Pid) (parallel : Bool)
  | submit (t : TaskId) (n : Nat)
  | submitImmediate (w : WorkerId) (t : TaskId)
  | submitInline (w : WorkerId) (t : TaskId)
  /-- a task that waits is submitted by the one that resumes it -/
  | resume (t : TaskId)
  /-- `scheduler_get` in the loop of worker `w` -/
  | get (w : WorkerId) (t : Option TaskId)
  /-- worker `w` takes its immediate successor, unless its quantum is over
  and the scheduler has a task for it -/
  | immediate (w : WorkerId) (t : Option TaskId)
  | pause (w : WorkerId)
  /-- `nosv_waitfor` that has to wait -/
  | waitfor (w : WorkerId)
  /-- the task of worker `w` waits for another to resume it -/
  | wait (w : WorkerId)
  /-- `nosv_yield` or `nosv_schedpoint` that gives way to another task -/
  | yield (w : WorkerId) (t : Option TaskId)
  /-- `nosv_mutex_unlock` that gives way to the next owner -/
  | unlockYield (w : WorkerId) (t : TaskId)
  | endBody (w : WorkerId) (e : Ending)
  | attach (p : Pid)
  | detach (w : WorkerId)
  /-- `pidmanager_unregister` in the killer task -/
  | unregister (w : WorkerId)
  | register (p : Pid)
  | main (p : Pid)
  | delegate (p : Pid)
  /-- the end of `pidmanager_shutdown` -/
  | release (p : Pid)
  | go (w : WorkerId)
  deriving DecidableEq, Repr

namespace Crew

/-- Worker `w` looks for a task and was not given one. -/
def Hungry (s : Crew) (w : WorkerId) : Prop :=
  (s.worker w).pc = .hunt ∧ (s.worker w).handle = none

instance (s : Crew) (w : WorkerId) : Decidable (s.Hungry w) := inferInstanceAs (Decidable (_ ∧ _))

/-- User code runs on worker `w`: the body of a task, or the callback of
one that has just completed, when the worker has no task. -/
def InUserCode (s : Crew) (w : WorkerId) : Prop :=
  (s.worker w).pc = .body ∨ ((s.worker w).pc = .loop ∧ (s.worker w).handle = none)

instance (s : Crew) (w : WorkerId) : Decidable (s.InUserCode w) :=
  inferInstanceAs (Decidable (_ ∨ _))

/-- Task `t` may be submitted by user code. -/
def Submittable (s : Crew) (t : TaskId) : Prop := t < s.jobs ∧ (s.job t).place ≠ .dead

instance (s : Crew) (t : TaskId) : Decidable (s.Submittable t) :=
  inferInstanceAs (Decidable (_ ∧ _))

/-- The task on top of `w`, with the ones below, if its body may end: that
of an attached thread ends with `nosv_detach`. -/
def ending (s : Crew) (w : WorkerId) (e : Ending) : Option (TaskId × List TaskId) :=
  let x := s.worker w
  match x.stack with
  | t :: rest =>
      if (x.pc = .body ∨ (x.pc = .killer .done ∧ e = .ends)) ∧ (x.external → rest ≠ []) then
        some (t, rest)
      else none
  | [] => none

def step (cpus : Nat) (hcpus : 0 < cpus) (s : Crew) : CrewMove → Option Crew
  | .create p parallel =>
      some { s.setJob s.jobs ⟨p, parallel, none, 1, .rest, 0⟩ with jobs := s.jobs + 1 }
  | .submit t n => if s.Submittable t then some (s.nosvSubmit t n) else none
  | .submitImmediate w t =>
      let x := s.worker w
      let j : Job := { s.job t with count := countDown (s.job t).count }
      if s.Submittable t ∧ s.InUserCode w ∧ j.parallel = false then
        if j.count = 0 then
          let s := match x.immediateSuccessor with
            | some u => s.schedulerSubmit u
            | none => s
          some ((s.setJob t { j with place := .flight }).setWorker w
            { x with immediateSuccessor := some t })
        else some (s.setJob t j)
      else none
  | .submitInline w t =>
      let j := s.job t
      if s.Submittable t ∧ (s.worker w).pc = .body ∧ j.parallel = false ∧ j.place = .rest then
        some ((s.setJob t { j with count := countDown j.count }).taskExecute w t)
      else none
  | .resume t =>
      if (s.job t).parallel = false ∧ (s.job t).place = .waiting then some (s.schedulerSubmit t)
      else none
  | .get w t =>
      if s.Hungry w ∧ (s.worker w).immediateSuccessor = none then
        match t with
        | some t => (s.schedulerGet t).map (·.setPc w (.hand .block (.dispatch t false)))
        | none => some (s.setPc w .loop)
      else none
  | .immediate w t =>
      if s.Hungry w then
        match (s.worker w).immediateSuccessor, t with
        | some u, none => some (s.setWorker w { s.worker w with
            immediateSuccessor := none, pc := .hand .block (.dispatch u false) })
        | some u, some t => (s.schedulerGet t).map fun s =>
            (s.schedulerSubmit u).setWorker w { s.worker w with
              immediateSuccessor := none, pc := .hand .block (.dispatch t false) }
        | none, _ => none
      else none
  | .pause w =>
      (s.current w).map fun t =>
        let j : Job := { s.job t with count := countUp (s.job t).count }
        if 0 < j.count then (s.setJob t { j with place := .paused }).workerYield w
        else s.setJob t j
  | .waitfor w => (s.current w).map fun t => (s.schedulerSubmit t).workerYield w
  | .wait w =>
      (s.current w).map fun t => (s.setJob t { s.job t with place := .waiting }).workerYield w
  | .yield w t =>
      (s.current w).bind fun _ =>
        match (s.worker w).immediateSuccessor, t with
        | some u, _ => some (s.setWorker w { s.worker w with
            immediateSuccessor := none, pc := .hand .block (.submitSelf u) })
        | none, some t => (s.schedulerGet t).map (·.setPc w (.hand .block (.submitSelf t)))
        | none, none => none
  | .unlockYield w t =>
      (s.current w).bind fun _ =>
        if (s.job t).parallel = false ∧ (s.job t).place = .waiting then
          some ((s.setJob t { s.job t with place := .flight }).setPc w
            (.hand .block (.submitSelf t)))
        else none
  | .endBody w e =>
      (s.ending w e).map fun (t, rest) =>
        (s.setJob t (taskEnds (s.job t) e)).setWorker w { s.worker w with
          stack := rest, handle := rest.head?, pc := if rest = [] then .loop else .body }
  | .attach p =>
      if (s.process p).registered then
        some { (s.setJob s.jobs ⟨p, false, some s.workers, 0, .running, 0⟩).setWorker s.workers
          ⟨p, true, .attach, none, none, false, some s.jobs, none, [s.jobs]⟩ with
          jobs := s.jobs + 1, workers := s.workers + 1 }
      else none
  | .detach w =>
      let x := s.worker w
      match x.stack with
      | [t] =>
          if x.pc = .body ∧ x.external then
            match x.immediateSuccessor with
            | some u => some ((s.schedulerSubmit u).setWorker w
                { x with immediateSuccessor := none })
            | none => some ((s.setJob t { s.job t with worker := none, place := .dead }).setWorker w
                { x with stack := [], handle := none, pc := .hand .detach (.wakeIdle x.pid none) })
          else none
      | _ => none
  | .unregister w =>
      let x := s.worker w
      if x.pc = .body ∧ x.external = false ∧ s.lock = none then
        some ((s.setProcess x.pid { s.process x.pid with registered := false }).setPc w
          (.killer .leader))
      else none
  | .register p =>
      if s.lock = none ∧ bitFfs (fun q => !(s.process q).allocated) = some p then
        some ((s.setProcess p (newProcess cpus hcpus)).setLock (some (.main p)))
      else none
  | .main p => s.mainStep cpus p
  | .delegate p => s.delegateStep p
  | .release p =>
      let x := s.process p
      if x.main = .up ∧ x.finished ∧ x.created = x.shutdownThreads.length
          ∧ (∀ w ∈ x.shutdownThreads, (s.worker w).pc = .gone) ∧ s.lock = none then
        some (s.setProcess p { x with allocated := false, main := .none })
      else none
  | .go w => s.go w

/-- A submission does not wrap the blocking count of an ordinary task
around. -/
def Fitting (s : Crew) : CrewMove → Prop
  | .submit t _ | .submitImmediate _ t | .submitInline _ t =>
      (s.job t).parallel = false → CountFits (s.job t).count
  | _ => True

instance (s : Crew) (m : CrewMove) : Decidable (s.Fitting m) := by
  cases m <;> (dsimp only [Fitting]; infer_instance)

/-- A process that has never been there. -/
def noProcess (cpus : Nat) (hcpus : 0 < cpus) : Process :=
  { newProcess cpus hcpus with
    allocated := false, registered := false, main := .none, delegate := .gone }

/-- Before the first process registers: all CPUs are free. -/
def init (cpus : Nat) (hcpus : 0 < cpus) : Crew where
  pidsCpus := fun _ => none
  worker := fun _ => ⟨0, false, .absent, none, none, false, none, none, []⟩
  workers := 0
  job := fun _ => ⟨0, false, none, 1, .dead, 0⟩
  jobs := 0
  process := fun _ => noProcess cpus hcpus
  lock := none

end Crew

end Nosv
