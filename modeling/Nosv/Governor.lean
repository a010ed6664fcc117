import Nosv.DtLock
import Nosv.Lib.Bitset
import Nosv.Task

/-!
# The governor and its servers

`scheduler_get` over the delegation lock: who gets the lock serves the
others, as far as there are tasks, and puts those that have waited for too
long to sleep. The governor keeps two sets of CPUs for it. When it leaves,
a server wakes one of them up, unless there is somebody in the first queue.
`scheduler_submit` may take the lock as well, to empty the queue of
submitted tasks when it is full.

The tasks themselves are left out: `scheduler_get_internal` returns any task
or none, with its count. A server is in one of the loops of `scheduler_get`,
and its program counter has the local variables. A step of it calls
`dtlock_serve` at most once, and updates the sets with the call.
-/

namespace Nosv

open Bitset

/-- `governor_t` -/
structure Governor where
  waiters : List Word
  sleepers : List Word
  spins : Nat
  cpuSpinCounter : Nat → Nat

namespace Governor

open DtLock

/-- The arguments of a call of `dtlock_serve` -/
structure Call (α : Type) where
  cpu : Nat
  item : Answer α
  scheduledCount : Nat
  signal : SignalKind
  deriving DecidableEq

/-- `cpu_bitset_ffs_at`, or `cpu_bitset_ffs` for zero -/
def ffsFrom (set : List Word) (start : Nat) : Option Nat :=
  match ffsAt set start with
  | 0 => none
  | n + 1 => some n

/-- `governor_init` -/
def init (cpus spins : Nat) : Governor :=
  ⟨zero ((cpus + 63) / 64), zero ((cpus + 63) / 64), spins, fun _ => 0⟩

/-- `governor_served` -/
def served (g : Governor) (cpu : Nat) : Governor × Bool :=
  if isset g.waiters cpu = true then
    ({ g with waiters := clear g.waiters cpu, cpuSpinCounter := Function.update g.cpuSpinCounter cpu 0 }, false)
  else ({ g with sleepers := clear g.sleepers cpu }, true)

section Calls

variable {α : Type}

/-- `governor_sleep_cpu` -/
def sleepCpu (g : Governor) (waiter : Nat) : Governor × Call α :=
  let (g, _) := g.served waiter
  ({ g with sleepers := set g.sleepers waiter }, ⟨waiter, .null, 0, .sleep⟩)

/-- `governor_apply_policy` for one CPU -/
def applyPolicy (g : Governor) (l : Lock α) (cpu : Nat) : Governor × Option (Call α) :=
  if dtlockIsCpuBlockable l cpu = false then ((g.served cpu).1, some ⟨cpu, .null, 0, .default⟩)
  else
    let spins := u64 (g.cpuSpinCounter cpu + 1)
    let g := { g with cpuSpinCounter := Function.update g.cpuSpinCounter cpu spins }
    if g.spins < spins then
      let (g, call) := g.sleepCpu cpu
      (g, some call)
    else (g, none)

/-- `governor_wake_one` -/
def wakeOne (g : Governor) : Governor × Option (Call α) :=
  match ffsFrom g.waiters 0 with
  | some candidate => ((g.served candidate).1, some ⟨candidate, .retry, 0, .default⟩)
  | none =>
      match ffsFrom g.sleepers 0 with
      | some candidate => ((g.served candidate).1, some ⟨candidate, .retry, 0, .wake⟩)
      | none => (g, none)

/-- `scheduler_serve` -/
def serve (g : Governor) (task : α) (scheduledCount cpu : Nat) : Governor × Call α :=
  let (g, sleeping) := g.served cpu
  (g, ⟨cpu, .task task, scheduledCount, if sleeping = true then .wake else .default⟩)

/-- `governor_shutdown_process` for one CPU; `same` says that it is of the
process. -/
def shutdown (g : Governor) (cpu : Nat) (signal : SignalKind) (same : Bool) : Governor × Option (Call α) :=
  if same = true then ((g.served cpu).1, some ⟨cpu, .null, 0, signal⟩) else (g, none)

end Calls

/-! ## Servers -/

/-- The local variables of the loops of `scheduler_get` -/
structure Round where
  served : Nat
  servedCurrent : Nat
  skip : Bool
  pending : Nat
  deriving DecidableEq

/-- Where the holder of the lock is. The request is that of `scheduler_get`;
there is none in `scheduler_submit`. `cpu` is the variable of a loop over a
set. -/
inductive Pc where
  /-- `scheduler_process_ready_tasks` -/
  | ready (r : Option Request)
  | shutdownWaiters (r : Option Request) (cpu : Option Nat)
  | shutdownSleepers (r : Option Request) (cpu : Option Nat)
  /-- `governor_update_cpumasks` -/
  | update (r : Request) (round : Round)
  /-- `scheduler_serve_batch` -/
  | serveWaiters (r : Request) (round : Round) (cpu : Option Nat)
  | serveSleepers (r : Request) (round : Round) (cpu : Option Nat)
  /-- `governor_apply_policy` -/
  | policy (r : Request) (round : Round) (cpu : Option Nat)
  /-- `scheduler_get_internal` for the server itself -/
  | self (r : Request)
  /-- about to see whether the first queue is empty -/
  | leaving
  /-- `governor_wake_one` -/
  | waking
  | unlocking
  deriving DecidableEq

structure Servers (ι α : Type) where
  lock : State ι α
  governor : Governor
  pcs : ι → Pc
  /-- the thread has been told to retry, and has not taken a ticket since -/
  retried : ι → Bool

inductive Act (α : Type) where
  | client (move : Move α)
  /-- There is a process to shut down. -/
  | shutdown
  /-- All submitted tasks have been processed. -/
  | processed
  /-- The loop over the CPUs of a process comes to a CPU; `same` says that it
  is one. -/
  | visit (same : Bool)
  /-- A loop over a set ends. -/
  | done
  | empty
  | front
  | transfer
  | popfront
  /-- `scheduler_get_internal` for the CPU of the loop -/
  | get (task : Option (α × Nat))
  | policy
  | self (task shutdown : Bool)
  | wake
  | unlock
  deriving DecidableEq

section Model

variable {ι α : Type} [DecidableEq ι]

/-- `scheduler_init`, in memory that is zero -/
def initServers (cpus spins : Nat) : Servers ι α where
  lock := DtLock.init (cpus * 2) fun _ => 0
  governor := init cpus spins
  pcs := fun _ => .unlocking
  retried := fun _ => false

/-- Where a thread is in the lock that it gets from this phase -/
def Pc.enter : Phase α → Pc
  | .passed r _ _ => .ready (some r)
  | _ => .ready none

/-- Whether a thread has been told to retry, after a step from this phase -/
def retries (s : Servers ι α) (t : ι) : Phase α → Move α → Bool
  | .answered r, .receive => (s.lock.lock.items r.cpu).item.isRetry
  | .sampled _ _, .take => false
  | _, _ => s.retried t

/-- A step in `dtlock_try_lock` or `dtlock_lock_or_delegate`; nobody calls
`dtlock_lock`. -/
def clientStep (s : Servers ι α) (t : ι) (p : Phase α) : Act α → Option (Servers ι α)
  | .client .lock => none
  | .client m =>
      (DtLock.clientStep s.lock t p m).map fun lock =>
        { s with lock := lock
                 pcs := Function.update s.pcs t (Pc.enter p)
                 retried := Function.update s.retried t (retries s t p m) }
  | _ => none

/-- The holder of the lock goes on. -/
def Servers.goto (s : Servers ι α) (t : ι) (pc : Pc) : Servers ι α := { s with pcs := Function.update s.pcs t pc }

/-- The sets change, there may be a call of `dtlock_serve`, and the holder of
the lock goes on. -/
def Servers.answer (s : Servers ι α) (t : ι) (pc : Governor → Pc) : Governor × Option (Call α) → Option (Servers ι α)
  | (g, none) => some ({ s with governor := g }.goto t (pc g))
  | (g, some call) =>
      (DtLock.step s.lock (t, .serve call.cpu call.item call.scheduledCount call.signal)).map fun lock =>
        { s with lock := lock, governor := g }.goto t (pc g)

/-- A step of the lock that the holder takes in `dtlock_update_waiters` -/
def Servers.lockStep (s : Servers ι α) (t : ι) (m : Move α) : Option (Servers ι α) :=
  (DtLock.step s.lock (t, m)).map fun lock => { s with lock := lock }

/-- The test of the inner loop, after the sets have been updated -/
def afterUpdate (g : Governor) (r : Request) (round : Round) : Pc :=
  let round := { round with
    served := round.served + round.servedCurrent
    servedCurrent := 0
    pending := count g.waiters + count g.sleepers }
  if round.served < 1024 ∧ round.pending ≠ 0 ∧ round.skip = false then .serveWaiters r round (ffsFrom g.waiters 0)
  else .self r

/-- The round after a CPU has been served, or not -/
def Round.next (round : Round) (found : Bool) : Round :=
  if found = true then { round with servedCurrent := round.servedCurrent + 1 } else { round with skip := true }

def serverStep (s : Servers ι α) (t : ι) (seen : Seen) : Pc → Act α → Option (Servers ι α)
  | .ready r, .shutdown => some (s.goto t (.shutdownWaiters r (ffsFrom s.governor.waiters 0)))
  | .ready (some r), .processed => some (s.goto t (.update r ⟨0, 0, false, 0⟩))
  | .ready none, .processed => some (s.goto t .unlocking)
  | .shutdownWaiters r (some cpu), .visit same =>
      s.answer t (fun g => .shutdownWaiters r (ffsFrom g.waiters (cpu + 1)))
        (s.governor.shutdown cpu .default same)
  | .shutdownWaiters r none, .done => some (s.goto t (.shutdownSleepers r (ffsFrom s.governor.sleepers 0)))
  | .shutdownSleepers r (some cpu), .visit same =>
      s.answer t (fun g => .shutdownSleepers r (ffsFrom g.sleepers (cpu + 1)))
        (s.governor.shutdown cpu .wake same)
  | .shutdownSleepers r none, .done => some (s.goto t (.ready r))
  | .update r round, .empty =>
      (s.lockStep t .empty).map fun s' =>
        if dtlockEmpty s.lock.lock = true then s'.goto t (afterUpdate s.governor r round) else s'
  | .update _ _, .front => s.lockStep t .front
  | .update _ _, .transfer => s.lockStep t .transfer
  | .update _ _, .popfront =>
      match seen with
      | .popping cpu =>
          (s.lockStep t .popfront).map fun s' =>
            { s' with governor := { s'.governor with waiters := set s'.governor.waiters cpu } }
      | _ => none
  | .serveWaiters r round (some cpu), .get task =>
      match task with
      | none => some (s.goto t (.serveWaiters r (round.next false) (ffsFrom s.governor.waiters (cpu + 1))))
      | some (task, n) =>
          let (g, call) := s.governor.serve task n cpu
          s.answer t (fun g => .serveWaiters r (round.next true) (ffsFrom g.waiters (cpu + 1))) (g, some call)
  | .serveWaiters r round none, .done => some (s.goto t (.serveSleepers r round (ffsFrom s.governor.sleepers 0)))
  | .serveSleepers r round (some cpu), .get task =>
      match task with
      | none => some (s.goto t (.serveSleepers r (round.next false) (ffsFrom s.governor.sleepers (cpu + 1))))
      | some (task, n) =>
          let (g, call) := s.governor.serve task n cpu
          s.answer t (fun g => .serveSleepers r (round.next true) (ffsFrom g.sleepers (cpu + 1))) (g, some call)
  | .serveSleepers r round none, .done => some (s.goto t (.policy r round (ffsFrom s.governor.waiters 0)))
  | .policy r round (some cpu), .policy =>
      s.answer t (fun g => .policy r round (ffsFrom g.waiters (cpu + 1))) (s.governor.applyPolicy s.lock.lock cpu)
  | .policy r round none, .done => some (s.goto t (.update r round))
  | .self r, .self task shutdown =>
      some (s.goto t (if task = false ∧ r.blocking = true ∧ shutdown = false then .ready (some r) else .leaving))
  | .leaving, .empty =>
      (s.lockStep t .empty).map fun s' =>
        s'.goto t (if dtlockEmpty s.lock.lock = true then .waking else .unlocking)
  | .waking, .wake => s.answer t (fun _ => .unlocking) s.governor.wakeOne
  | .unlocking, .unlock => s.lockStep t .unlock
  | _, _ => none

def step (s : Servers ι α) : ι × Act α → Option (Servers ι α)
  | (t, act) =>
      match s.lock.threads t with
      | .holding _ seen => serverStep s t seen (s.pcs t) act
      | phase => clientStep s t phase act

/-- The request of a call of `scheduler_get` -/
def Act.enters : Act α → Option Request
  | .client (.enter r) => some r
  | _ => none

/-- There is one thread at a time for a CPU. -/
def Promised (cpus : Nat) (s : Servers ι α) : ι × Act α → Prop
  | (_, act) => ∀ r ∈ act.enters, r.cpu < cpus ∧ ∀ t, ∀ r' ∈ (s.lock.threads t).inside, r'.cpu ≠ r.cpu

instance [Fintype ι] (cpus : Nat) (s : Servers ι α) : ∀ a, Decidable (Promised cpus s a)
  | (_, act) => inferInstanceAs (Decidable (∀ r ∈ act.enters, _))

end Model

end Governor

end Nosv
