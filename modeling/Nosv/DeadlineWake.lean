import Mathlib.Data.Finset.Dedup
import Nosv.Lib.Places
import Nosv.Lib.Run
import Nosv.Runtime

/-!
# Early wake-ups of deadline tasks

`nosv_waitfor`, `nosv_submit` with `NOSV_SUBMIT_DEADLINE_WAKE` and the part
of the scheduler that deals with deadlines, with one step for each atomic
operation on `deadline_state` and `deadline_purge`. The waiter, any number
of wakers and the server, the thread that holds the delegation lock, move
in any order; between two of its atomic operations the server may hold a
task that is in no container (`Server`).

The ready queues are one list here, and the in-queue and the ready queues
are served in any order. Tasks are submitted with `task->yield = 0`.

A wake-up is not lost because the woken tasks in the trees are counted:
each is covered by a purge request, or by a waker that has yet to make
its request (`Waits.Inv.counted`). The requests do not say which task they
are for, so a purge may spend the request for one task on another one
that was woken later.
-/

namespace Nosv

open Run RBTree Places

/-! ## The operations on the descriptor -/

namespace Task

/-- `set_task_deadline` up to its compare-exchange, with its result. -/
def casDeadline (k : Task) (startTime timeout : Nat) : Bool × Task :=
  let k := { k with deadline := u64 (startTime + timeout) }
  if k.deadlineState = .none then (true, { k with deadlineState := .pending }) else (false, k)

/-- The exchange of `nosv_submit` with `NOSV_SUBMIT_DEADLINE_WAKE`. -/
def exchangeReady (k : Task) : Task := { k with deadlineState := .ready }

/-- Without interruption, `set_task_deadline` is its compare-exchange
followed by the store that a failure leads to. -/
theorem setTaskDeadline_eq (k : Task) (startTime timeout : Nat) :
    setTaskDeadline k startTime timeout
      = match k.casDeadline startTime timeout with
        | (true, k') => (true, k')
        | (false, k') => (false, deadlineTaskWakeUp k') := by
  unfold setTaskDeadline casDeadline
  by_cases h : k.deadlineState = .none
  · simp [h]
  · simp [h, deadlineTaskWakeUp]

end Task

/-! ## States -/

inductive WaitPlace where
  | idle
  | running
  /-- in `set_task_deadline`, after the compare-exchange has failed -/
  | lapsing
  /-- in `nosv_waitfor`, before the task is submitted -/
  | submitting
  | queued
  /-- held by the server between two containers -/
  | held
  /-- in the deadline tree of its process -/
  | stored
  | ready
  deriving DecidableEq

/-- What the server is doing. -/
inductive Server where
  | idle
  /-- about to insert a task into its tree -/
  | inserting (t : TaskId)
  /-- about to enqueue a task that was woken before it got there -/
  | lapsed (t : TaskId)
  /-- about to wake up a task whose deadline has expired -/
  | expiring (t : TaskId)
  /-- in the loop of `scheduler_deadline_purge_internal`: the tasks still to
  visit, `to_purge` and `count` -/
  | walking (todo : List TaskId) (left count : Nat)
  /-- in that loop, about to wake up a task it has removed -/
  | removing (t : TaskId) (todo : List TaskId) (left count : Nat)
  /-- about to subtract `count` from `deadline_purge` -/
  | purged (count : Nat)
  deriving DecidableEq

/-- The task that is in no container. -/
def Server.held : Server → Option TaskId
  | .inserting t | .lapsed t | .expiring t | .removing t _ _ _ => some t
  | _ => none

structure Waits where
  task : TaskId → Task
  place : TaskId → WaitPlace
  /-- `deadline_tasks` of each process -/
  tree : Nat → RB TaskId
  /-- the processes that have a scheduler -/
  queues : List Nat
  ready : List TaskId
  /-- `scheduler->tasks` -/
  tasks : Nat
  /-- `scheduler->deadline_purge` -/
  purge : Nat
  server : Server
  /-- the tasks of the wakers between their exchange and their request -/
  transit : List TaskId
  /-- woken while in `NOSV_DEADLINE_NONE` or `NOSV_DEADLINE_PENDING`, and not
  yet taken notice of -/
  early : TaskId → Bool
  /-- the tasks whose wake had completed when the last purge began -/
  due : List TaskId
  /-- no waker has been in transit since the last purge began -/
  calm : Bool

inductive WaitMove where
  | submit (t : TaskId)
  | finish (t : TaskId)
  | waitfor (t : TaskId) (startTime timeout : Nat)
  | storeNone (t : TaskId)
  | push (t : TaskId)
  | wake (t : TaskId)
  | request (t : TaskId)
  | insert (t : TaskId)
  | insertTree
  | insertLapsed
  | expire (p now : Nat)
  | expireStore
  | get (t : TaskId)
  | load (logicPid : Nat)
  | visit
  | purgeStore
  | subtract

namespace Waits

/-- Task `t` gets descriptor `k` and goes to `place`; `early` tells whether
an early wake-up is pending. -/
def put (s : Waits) (t : TaskId) (k : Task) (place : WaitPlace) (early : Bool) : Waits :=
  { s with task := Function.update s.task t k, place := Function.update s.place t place,
           early := Function.update s.early t early }

def pid (s : Waits) (t : TaskId) : Nat := (s.task t).pid

def state (s : Waits) (t : TaskId) : DeadlineState := (s.task t).deadlineState

/-- `task_deadline_compare` -/
def compareDeadline (s : Waits) (a b : TaskId) : Ordering :=
  compare (s.task a).deadline (s.task b).deadline

/-- The loop `while (RB_INSERT(...)) task->deadline++`. -/
def insertDeadline (s : Waits) (t : TaskId) : Nat → Option Waits
  | 0 => none
  | n + 1 =>
      match RBTree.insert (s.compareDeadline) t (s.tree (s.pid t)) with
      | some tree => some { s with tree := Function.update s.tree (s.pid t) tree }
      | none =>
          let k := { s.task t with deadline := u64 ((s.task t).deadline + 1) }
          insertDeadline { s with task := Function.update s.task t k } t n

/-- `RB_REMOVE` from the tree of its process. -/
def removeDeadline (s : Waits) (t : TaskId) : Waits :=
  { s with tree := Function.update s.tree (s.pid t) (remove t (s.tree (s.pid t))) }

/-- The order in which `scheduler_deadline_purge_internal` visits the
tasks in the trees. -/
def visits (s : Waits) (logicPid : Nat) : List TaskId :=
  let start := if logicPid ∈ s.queues then logicPid else s.queues.headD logicPid
  (circularFrom s.queues start).flatMap fun p => inorder (s.tree p)

/-- `scheduler_init_pid` when the process has no scheduler yet. -/
def ensurePid (s : Waits) (p : Nat) : Waits :=
  if p ∈ s.queues then s else { s with queues := s.queues ++ [p] }

/-- `scheduler_deadline_purge` up to the loop. -/
def load (s : Waits) (logicPid : Nat) : Waits :=
  { s with
    server := if s.purge = 0 ∨ s.tasks = 0 then .purged s.purge
      else .walking (s.visits logicPid) s.purge s.purge
    due := (s.visits logicPid).filter fun t => s.state t = .ready ∧ t ∉ s.transit
    calm := s.transit.isEmpty }

/-- `deadline_task_wake_up` of a task that the server holds, and its way to
a ready queue. -/
def wakeUp (s : Waits) (t : TaskId) (early : Bool) (server : Server) : Waits :=
  { s.put t (deadlineTaskWakeUp (s.task t)) .ready early with
    ready := t :: s.ready, server := server }

/-- The exchange of a waker. -/
def wake (s : Waits) (t : TaskId) : Waits :=
  let early := s.early t || s.state t == .none || s.state t == .pending
  { s.put t (s.task t).exchangeReady (s.place t) early with
    transit := if s.state t = .waiting then t :: s.transit else s.transit
    calm := s.calm && s.state t != .waiting }

/-- `scheduler_request_deadline_purge` by a waker of `t`. -/
def request (s : Waits) (t : TaskId) : Waits :=
  { s with transit := s.transit.erase t, purge := s.purge + 1 }

def step (s : Waits) : WaitMove → Option Waits
  | .submit t =>
      if s.place t = .idle then some (s.put t (s.task t) .queued (s.early t)) else none
  | .finish t =>
      if s.place t = .running then some (s.put t (s.task t) .idle (s.early t)) else none
  | .waitfor t startTime timeout =>
      let (res, k) := (s.task t).casDeadline startTime timeout
      if s.place t = .running then
        some (s.put t k (if res then .submitting else .lapsing) (s.early t))
      else none
  | .storeNone t =>
      if s.place t = .lapsing then
        some (s.put t (deadlineTaskWakeUp (s.task t)) .running false)
      else none
  | .push t =>
      if s.place t = .submitting then some (s.put t (s.task t) .queued (s.early t)) else none
  | .wake t => some (s.wake t)
  | .request t =>
      if t ∈ s.transit then some (s.request t) else none
  | .insert t =>
      let k := s.task t
      if s.server = .idle ∧ s.place t = .queued then
        let s := s.ensurePid k.pid
        if k.deadline = 0 then
          some { s.put t k .ready (s.early t) with ready := t :: s.ready, tasks := s.tasks + 1 }
        else if k.deadlineState = .pending then
          some { s.put t { k with deadlineState := .waiting } .held (s.early t) with
            server := .inserting t }
        else some { s.put t k .held (s.early t) with server := .lapsed t }
      else none
  | .insertTree =>
      match s.server with
      | .inserting t =>
          match s.insertDeadline t (size (s.tree (s.pid t)) + 1) with
          | some s =>
              some { s.put t (s.task t) .stored (s.early t) with
                tasks := s.tasks + 1, server := .idle }
          | none => none
      | _ => none
  | .insertLapsed =>
      match s.server with
      | .lapsed t => some { s.wakeUp t false .idle with tasks := s.tasks + 1 }
      | _ => none
  | .expire p now =>
      match min? (s.tree p) with
      | some t =>
          if s.server = .idle ∧ (s.task t).deadline < now then
            some { (s.removeDeadline t).put t (s.task t) .held (s.early t) with
              server := .expiring t }
          else none
      | none => none
  | .expireStore =>
      match s.server with
      | .expiring t => some (s.wakeUp t (s.early t) .idle)
      | _ => none
  | .get t =>
      if s.server = .idle ∧ t ∈ s.ready then
        some { s.put t (s.task t) .running (s.early t) with
          ready := s.ready.erase t, tasks := s.tasks - 1 }
      else none
  | .load logicPid => if s.server = .idle then some (s.load logicPid) else none
  | .visit =>
      match s.server with
      | .walking [] _ count => some { s with server := .purged count }
      | .walking (t :: todo) left count =>
          if s.state t = .ready then
            some { (s.removeDeadline t).put t (s.task t) .held (s.early t) with
              server := .removing t todo left count }
          else some { s with server := .walking todo left count }
      | _ => none
  | .purgeStore =>
      match s.server with
      | .removing t todo left count =>
          some (s.wakeUp t (s.early t)
            (if left - 1 = 0 then .purged count else .walking todo (left - 1) count))
      | _ => none
  | .subtract =>
      match s.server with
      | .purged count => some { s with purge := s.purge - count, server := .idle }
      | _ => none

/-- Fresh tasks of given processes. -/
def init (pid : TaskId → Nat) : Waits where
  task := fun t => nosvCreateInternal (pid t) ⟨.none, .preferred, 0⟩
  place := fun _ => .idle
  tree := fun _ => .nil
  queues := []
  ready := []
  tasks := 0
  purge := 0
  server := .idle
  transit := []
  early := fun _ => false
  due := []
  calm := true

/-- The tasks in the trees. -/
def stored (s : Waits) (p : Nat) : Multiset TaskId := ↑(inorder (s.tree p))

/-- The number of tasks in the trees that satisfy `P`. -/
def countStored (s : Waits) (P : TaskId → Prop) [DecidablePred P] : Int :=
  weight (fun t => if P t then 1 else 0) s.queues.toFinset s.stored

/-- The woken tasks in the trees. -/
def readyStored (s : Waits) : Int := s.countStored fun t => s.state t = .ready

end Waits

/-- What is claimed of every state, for the purges that `P` allows. -/
structure WakesFollow (P : Waits → Prop) (s : Waits) : Prop where
  counted : s.readyStored ≤ s.purge + s.transit.length
  purged : ∀ count, s.server = .purged count → P s → ∀ t ∈ s.due, ∀ p, t ∉ inorder (s.tree p)
  early : ∀ t, s.early t = true → ∀ p, t ∉ inorder (s.tree p)

/-- The assertions `expected == NOSV_DEADLINE_READY`. -/
def WaitAsserts (s : Waits) : WaitMove → Prop
  | .waitfor t _ _ => s.place t = .running → s.state t ≠ .none → s.state t = .ready
  | .insert t => s.place t = .queued → (s.task t).deadline ≠ 0 → s.state t ≠ .pending →
      s.state t = .ready
  | _ => True

/-- The clock is positive and the deadlines do not wrap around. -/
def DeadlinesFit (_ : Waits) : WaitMove → Prop
  | .waitfor _ startTime timeout =>
      0 < startTime ∧ startTime + timeout < 18446744073709551616
  | _ => True

instance (s : Waits) (m : WaitMove) : Decidable (DeadlinesFit s m) := by
  cases m <;> (dsimp only [DeadlinesFit]; infer_instance)

/-- What `set_task_deadline` stores is not zero, which stands for no
deadline. -/
def DeadlinesCount (_ : Waits) : WaitMove → Prop
  | .waitfor _ startTime timeout => u64 (startTime + timeout) ≠ 0
  | _ => True

theorem DeadlinesFit.count {s : Waits} {m : WaitMove} (h : DeadlinesFit s m) :
    DeadlinesCount s m := by
  cases m with
  | waitfor t startTime timeout =>
      show u64 (startTime + timeout) ≠ 0
      rw [u64, Nat.mod_eq_of_lt h.2]
      exact Nat.ne_of_gt (Nat.add_pos_left h.1 timeout)
  | _ => trivial

end Nosv
