import Nosv.DeadlineWake
import Nosv.Lib.Ring
import Nosv.PauseSubmit

/-!
# Condition variables

`nosv_cond_wait`, `nosv_cond_timedwait`, `nosv_cond_signal` and
`nosv_cond_broadcast` on one condition variable, by any number of tasks
that are not parallel and any number of callers, with one step for each
section under the spinlock that nobody else can look into, and one for
each atomic operation.

A waiter registers, unlocks the mutex (`unlock`), and only then blocks:
in `nosv_pause` without a time, in `nosv_waitfor` with one (`sleep`). An
untimed waiter is woken by a plain `nosv_submit`, after the spinlock has
been left; a timed one by the exchange of its `deadline_state`, under it.
A timed waiter takes itself off its list when nobody else has (`leave`).
A broadcast moves the list of the untimed waiters to a head of its own.

What the scheduler does with a single task is `Sleeper`: the steps of
`DeadlineWake` on its descriptor, with the ready queues, the trees and the
requests to purge them left out. An expired task may be found at any time,
and so may a woken one.

Nothing here depends on who holds the mutex: it is unlocked and locked
again at any time.
-/

namespace Nosv

open Run Ring

/-! ## One task and the scheduler -/

inductive SleepPlace where
  /-- blocked in `nosv_pause`, or not submitted yet -/
  | idle
  | running
  /-- in `set_task_deadline`, after the compare-exchange has failed -/
  | lapsing
  /-- in `nosv_waitfor`, before the task is submitted -/
  | submitting
  | queued
  /-- about to be inserted into the deadline tree -/
  | inserting
  /-- about to be enqueued, since it was woken before it got there -/
  | lapsed
  /-- in the deadline tree -/
  | stored
  /-- out of the tree, about to be woken up since its deadline has expired -/
  | expiring
  /-- out of the tree, about to be woken up by a purge -/
  | purging
  | ready
  deriving DecidableEq

structure Sleeper where
  task : Task
  place : SleepPlace
  deriving DecidableEq

inductive SleepMove where
  | storeNone
  | push
  | insert
  | insertTree (collisions : Nat)
  | insertLapsed
  | expire (now : Nat)
  | expireStore
  | purge
  | purgeStore
  | get
  deriving DecidableEq

namespace Sleeper

def init : Sleeper := ⟨nosvCreateInternal 0 ⟨.none, .preferred, 0⟩, .idle⟩

def state (k : Sleeper) : DeadlineState := k.task.deadlineState

def count (k : Sleeper) : Int := k.task.blockingCount

/-- The plain path of `nosv_submit`. -/
def submit (k : Sleeper) : Option Sleeper :=
  match k.task.submit with
  | (task, false) => some { k with task := task }
  -- the counter was one, so the task is blocked
  | (task, true) => if k.place = .idle then some ⟨task, .queued⟩ else none

/-- `nosv_pause` -/
def pause (k : Sleeper) : Option Sleeper :=
  if k.place = .running then
    some ⟨k.task.pause.1, if k.task.pause.2 then .idle else .running⟩
  else none

/-- `nosv_waitfor`, up to the compare-exchange of `set_task_deadline`. -/
def waitfor (k : Sleeper) (startTime timeout : Nat) : Option Sleeper :=
  if k.place = .running then
    some ⟨(k.task.casDeadline startTime timeout).2,
      if (k.task.casDeadline startTime timeout).1 then .submitting else .lapsing⟩
  else none

/-- The exchange of `nosv_submit` with `NOSV_SUBMIT_DEADLINE_WAKE`. -/
def exchange (k : Sleeper) : Sleeper := { k with task := k.task.exchangeReady }

/-- What else happens to the task, in `nosv_waitfor` and in the scheduler. -/
def step (k : Sleeper) : SleepMove → Option Sleeper
  | .storeNone =>
      if k.place = .lapsing then some ⟨deadlineTaskWakeUp k.task, .running⟩ else none
  | .push => if k.place = .submitting then some { k with place := .queued } else none
  | .insert =>
      if k.place = .queued then
        if k.task.deadline = 0 then some { k with place := .ready }
        else if k.state = .pending then
          some ⟨{ k.task with deadlineState := .waiting }, .inserting⟩
        else some { k with place := .lapsed }
      else none
  | .insertTree collisions =>
      if k.place = .inserting then
        some ⟨{ k.task with deadline := u64 (k.task.deadline + collisions) }, .stored⟩
      else none
  | .insertLapsed =>
      if k.place = .lapsed then some ⟨deadlineTaskWakeUp k.task, .ready⟩ else none
  | .expire now =>
      if k.place = .stored ∧ k.task.deadline < now then some { k with place := .expiring } else none
  | .expireStore =>
      if k.place = .expiring then some ⟨deadlineTaskWakeUp k.task, .ready⟩ else none
  | .purge =>
      if k.place = .stored ∧ k.state = .ready then some { k with place := .purging } else none
  | .purgeStore =>
      if k.place = .purging then some ⟨deadlineTaskWakeUp k.task, .ready⟩ else none
  | .get => if k.place = .ready then some { k with place := .running } else none

end Sleeper

/-! ## The condition variable -/

inductive CondHook where
  /-- `cond->list` -/
  | list
  /-- `cond->list_timed` -/
  | listTimed
  /-- `non_timed` of the broadcast by caller `c` -/
  | nonTimed (c : Nat)
  /-- `task->list_hook_cond` -/
  | task (t : TaskId)
  deriving DecidableEq

/-- Where a task is in `nosv_cond_timedwait`; `waitNs` is `none` for
`nosv_cond_wait`. -/
inductive CondPhase where
  | outside
  /-- registered, before the mutex is unlocked -/
  | listed (waitNs : Option Nat)
  | unlocked (waitNs : Option Nat)
  /-- in `nosv_pause` or `nosv_waitfor` -/
  | asleep (waitNs : Option Nat)
  /-- timed, before the section that takes it off its list -/
  | leaving
  | relocking
  deriving DecidableEq

/-- What a caller of `nosv_cond_signal` or `nosv_cond_broadcast` is doing;
`all` tells a broadcast. -/
inductive CondCaller where
  | idle
  /-- about to submit an untimed waiter -/
  | submitting (t : TaskId)
  /-- about to exchange the state of a timed waiter, under the spinlock -/
  | waking (t : TaskId) (all : Bool)
  /-- about to request a purge, under the spinlock -/
  | requesting (all : Bool)
  /-- in the loop over the timed waiters, under the spinlock -/
  | sweeping
  /-- in the loop over the untimed waiters -/
  | spreading
  deriving DecidableEq

structure Cond where
  links : Links CondHook
  /-- the caller that has the spinlock between two steps -/
  lock : Option Nat
  sleeper : TaskId → Sleeper
  phase : TaskId → CondPhase
  caller : Nat → CondCaller
  /-- the tasks that have been added to a list and not been taken off it, in
  order -/
  members : CondHook → List TaskId
  /-- the tasks that the last signal or broadcast of a caller is meant to
  wake -/
  target : Nat → List TaskId
  /-- the tasks it has woken -/
  woke : Nat → List TaskId
  /-- how often a task has been added to `cond->list` -/
  added : TaskId → Nat
  /-- how often a signal or a broadcast has taken it off again -/
  taken : TaskId → Nat

inductive CondMove where
  /-- with the time and the deadline of a timed wait -/
  | wait (t : TaskId) (time : Option (Nat × Nat))
  | unlock (t : TaskId)
  | sleep (t : TaskId) (startTime : Nat)
  | resume (t : TaskId)
  | leave (t : TaskId)
  | relock (t : TaskId)
  | signal (c : Nat)
  | broadcast (c : Nat)
  | act (c : Nat)
  | task (t : TaskId) (m : SleepMove)
  /-- a `nosv_submit` that has nothing to do with the condition variable -/
  | submit (t : TaskId)
  | pause (t : TaskId)
  | waitfor (t : TaskId) (startTime timeout : Nat)
  deriving DecidableEq

namespace Cond

/-- `nosv_cond_init`, and tasks that have just been created. -/
def init : Cond where
  links := .unlinked
  lock := none
  sleeper := fun _ => .init
  phase := fun _ => .outside
  caller := fun _ => .idle
  members := fun _ => []
  target := fun _ => []
  woke := fun _ => []
  added := fun _ => 0
  taken := fun _ => 0

def setPhase (s : Cond) (t : TaskId) (p : CondPhase) : Cond :=
  { s with phase := Function.update s.phase t p }

def setSleeper (s : Cond) (t : TaskId) (k : Sleeper) : Cond :=
  { s with sleeper := Function.update s.sleeper t k }

def setCaller (s : Cond) (c : Nat) (q : CondCaller) : Cond :=
  { s with caller := Function.update s.caller c q }

def setMembers (s : Cond) (h : CondHook) (l : List TaskId) (links : Links CondHook) : Cond :=
  { s with links := links, members := Function.update s.members h l }

/-- The task is added to the list with head `h`. -/
def register (s : Cond) (t : TaskId) (h : CondHook) (waitNs : Option Nat) : Cond :=
  (s.setMembers h (s.members h ++ [t]) (s.links.addTail h (.task t))).setPhase t (.listed waitNs)

/-- The spinlock section of `nosv_cond_timedwait`. -/
def wait (s : Cond) (t : TaskId) : Option (Nat × Nat) → Cond
  | none => { s.register t .list none with added := Function.update s.added t (s.added t + 1) }
  | some (now, abstime) =>
      if abstime < now then s else s.register t .listTimed (some (abstime - now))

/-- `list_pop_front` -/
def pop (s : Cond) (h : CondHook) : Option TaskId × Cond :=
  match s.links.popFront h with
  | (some (.task u), links) => (some u, s.setMembers h ((s.members h).erase u) links)
  | (_, links) => (none, { s with links := links })

/-- Caller `c` has woken task `u`. -/
def wakes (s : Cond) (c : Nat) (u : TaskId) (k : Sleeper) : Cond :=
  { s.setSleeper u k with woke := Function.update s.woke c (s.woke c ++ [u]) }

/-- A signal or a broadcast by caller `c` begins. -/
def begins (s : Cond) (c : Nat) (targets : List TaskId) : Cond :=
  { s with target := Function.update s.target c targets, woke := Function.update s.woke c [] }

/-- `nosv_cond_signal`, up to the wake-up. -/
def signal (s : Cond) (c : Nat) : Cond :=
  let s := s.begins c ((s.members .list ++ s.members .listTimed).take 1)
  match s.pop .list with
  | (some u, s) =>
      { s.setCaller c (.submitting u) with taken := Function.update s.taken u (s.taken u + 1) }
  | (none, s) =>
      match s.pop .listTimed with
      | (some u, s) => { s.setCaller c (.waking u false) with lock := some c }
      | (none, s) => s

/-- `nosv_cond_broadcast`, up to the loop over the timed waiters. -/
def broadcast (s : Cond) (c : Nat) : Cond :=
  let s := s.begins c (s.members .listTimed ++ s.members .list)
  { s.setCaller c .sweeping with
    lock := some c
    links := s.links.moveHead .list (.nonTimed c)
    members := Function.update (Function.update s.members (.nonTimed c) (s.members .list)) .list []
    taken := fun t => if t ∈ s.members .list then s.taken t + 1 else s.taken t }

/-- The caller is done with a timed waiter. -/
def next (s : Cond) (c : Nat) : Bool → Cond
  | true => s.setCaller c .sweeping
  | false => { s.setCaller c .idle with lock := none }

/-- The next step of a signal or a broadcast. -/
def act (s : Cond) (c : Nat) : Option Cond :=
  match s.caller c with
  | .idle => none
  | .submitting u => (s.sleeper u).submit.map fun k => (s.wakes c u k).setCaller c .idle
  | .waking u all =>
      let s' := s.wakes c u (s.sleeper u).exchange
      if (s.sleeper u).state = .waiting then some (s'.setCaller c (.requesting all))
      else some (s'.next c all)
  | .requesting all => some (s.next c all)
  | .sweeping =>
      match s.pop .listTimed with
      | (some u, s) => some (s.setCaller c (.waking u true))
      | (none, s) => some { s.setCaller c .spreading with lock := none }
  | .spreading =>
      match s.pop (.nonTimed c) with
      | (some u, s) => (s.sleeper u).submit.map fun k => s.wakes c u k
      | (none, s) => some (s.setCaller c .idle)

/-- The section in which a timed waiter takes itself off its list. -/
def leave (s : Cond) (t : TaskId) : Cond :=
  if s.links.inserted (.task t) then
    (s.setMembers .listTimed ((s.members .listTimed).erase t) (s.links.remove (.task t))).setPhase t
      .relocking
  else s.setPhase t .relocking

def step (s : Cond) : CondMove → Option Cond
  | .wait t time =>
      if s.lock = none ∧ s.phase t = .outside ∧ (s.sleeper t).place = .running then
        some (s.wait t time)
      else none
  | .unlock t =>
      match s.phase t with
      | .listed waitNs => some (s.setPhase t (.unlocked waitNs))
      | _ => none
  | .sleep t startTime =>
      match s.phase t with
      | .unlocked none =>
          (s.sleeper t).pause.map fun k => (s.setSleeper t k).setPhase t (.asleep none)
      | .unlocked (some ns) =>
          ((s.sleeper t).waitfor startTime ns).map fun k =>
            (s.setSleeper t k).setPhase t (.asleep (some ns))
      | _ => none
  | .resume t =>
      if (s.sleeper t).place = .running then
        match s.phase t with
        | .asleep none => some (s.setPhase t .relocking)
        | .asleep (some _) => some (s.setPhase t .leaving)
        | _ => none
      else none
  | .leave t => if s.lock = none ∧ s.phase t = .leaving then some (s.leave t) else none
  | .relock t => if s.phase t = .relocking then some (s.setPhase t .outside) else none
  | .signal c => if s.lock = none ∧ s.caller c = .idle then some (s.signal c) else none
  | .broadcast c => if s.lock = none ∧ s.caller c = .idle then some (s.broadcast c) else none
  | .act c => s.act c
  | .task t m => ((s.sleeper t).step m).map (s.setSleeper t)
  | .submit t => (s.sleeper t).submit.map (s.setSleeper t)
  | .pause t => if s.phase t = .outside then (s.sleeper t).pause.map (s.setSleeper t) else none
  | .waitfor t startTime timeout =>
      if s.phase t = .outside then ((s.sleeper t).waitfor startTime timeout).map (s.setSleeper t)
      else none

/-- The task is in one of the two lists. -/
def Registered (s : Cond) (t : TaskId) : Prop :=
  t ∈ s.members .list ∨ t ∈ s.members .listTimed

instance (s : Cond) (t : TaskId) : Decidable (s.Registered t) := inferInstanceAs (Decidable (_ ∨ _))

/-- Caller `c` has taken the task off its list, or is going to do so before
it leaves the spinlock, and has not woken it yet. -/
def ToWake (s : Cond) (c : Nat) (t : TaskId) : Prop := t ∈ (s.target c).drop (s.woke c).length

/-- The call that a waiter is about to make does not block it. -/
def WontBlock (s : Cond) (t : TaskId) : Option Nat → Prop
  | none => (s.sleeper t).task.pause.2 = false
  | some ns => ∀ startTime, ((s.sleeper t).task.casDeadline startTime ns).1 = false

/-- The task can be made to run without any new call. -/
def Resumes (s : Cond) (t : TaskId) : Prop :=
  ∃ moves s', (∀ m ∈ moves, (∃ c, m = .act c) ∨ ∃ u a, m = .task u a)
    ∧ run step s moves = some s' ∧ (s'.sleeper t).place = .running ∧ s'.phase t = s.phase t

/-- The task is in `nosv_cond_wait` and nobody has woken it since it was
added to the list. -/
def Unwoken (s : Cond) (t : TaskId) : Prop :=
  ((s.phase t = .listed none ∨ s.phase t = .unlocked none) ∧ (s.sleeper t).count = 0) ∨
    (s.phase t = .asleep none ∧ (s.sleeper t).count = 1)

instance (s : Cond) (t : TaskId) : Decidable (s.Unwoken t) := inferInstanceAs (Decidable (_ ∨ _))

/-- The task is inside `nosv_cond_wait` or `nosv_cond_timedwait`, before it
locks the mutex again. -/
def InWait (s : Cond) (t : TaskId) : Prop := s.phase t ≠ .outside ∧ s.phase t ≠ .relocking

/-- The task that the next step of caller `c` wakes. -/
def wakesNext (s : Cond) (c : Nat) : Option TaskId :=
  match s.caller c with
  | .submitting u | .waking u _ => some u
  | .spreading => (s.pop (.nonTimed c)).1
  | _ => none

theorem next_phase (s : Cond) (c : Nat) (all : Bool) : (s.next c all).phase = s.phase := by
  cases all <;> rfl

end Cond

/-- What is claimed of every state. -/
structure CondFollows (s : Cond) : Prop where
  list : IsRing s.links .list ((s.members .list).map .task)
  listTimed : IsRing s.links .listTimed ((s.members .listTimed).map .task)
  calls : ∀ c, s.woke c <+: s.target c ∧ (s.caller c = .idle → s.woke c = s.target c)
  early : ∀ t waitNs, s.phase t = .listed waitNs ∨ s.phase t = .unlocked waitNs →
    s.Registered t ∨ (∃ c, s.ToWake c t) ∨ s.WontBlock t waitNs
  asleep : ∀ t waitNs, s.phase t = .asleep waitNs → ¬ s.Registered t → s.Resumes t
  taken : ∀ t, s.added t = s.taken t + if t ∈ s.members .list then 1 else 0
  returns : ∀ t, s.phase t = .outside ∨ s.phase t = .relocking
    ∨ (s.phase t = .asleep none ∧ (s.sleeper t).place = .running) → s.taken t = s.added t

/-- What is claimed of the steps of a signal and of a broadcast. -/
def CondCalls (s : Cond) : CondMove → Prop
  | .signal c => s.lock = none → s.caller c = .idle →
      (s.signal c).members .list ++ (s.signal c).members .listTimed
          = (s.members .list ++ s.members .listTimed).drop 1
        ∧ (s.signal c).sleeper = s.sleeper
  | .broadcast c => (s.broadcast c).sleeper = s.sleeper
  | .act c => ∀ s', s.act c = some s' →
      (∀ t, s'.sleeper t ≠ s.sleeper t → s'.woke c = s.woke c ++ [t])
        ∧ (s.caller c = .sweeping → s'.caller c = .spreading →
          s.members .list = [] ∧ s.members .listTimed = [])
  | _ => True

/-- No submission that has nothing to do with the condition variable wakes
a task out of `nosv_cond_wait`, or is left over when it is called. -/
def Undisturbed (s : Cond) : CondMove → Prop
  | .submit t => ¬ s.Unwoken t ∧ CountFits (s.sleeper t).count
  | .wait t none => (s.sleeper t).count = 0
  | _ => True

instance (s : Cond) (m : CondMove) : Decidable (Undisturbed s m) := by
  unfold Undisturbed
  split <;> infer_instance

/-- A wait that has returned has left the lists. -/
def CondClean (s : Cond) : Prop :=
  IsRing s.links .list ((s.members .list).map .task)
    ∧ IsRing s.links .listTimed ((s.members .listTimed).map .task)
    ∧ ∀ t, s.phase t = .outside ∨ s.phase t = .relocking → ¬ s.Registered t

/-- Only tasks that wait are woken, and only hooks that are in no list are
added to one. -/
def CondTidy (s : Cond) : CondMove → Prop
  | .wait t _ => s.phase t = .outside → s.links.inserted (.task t) = false
  | .act c => ∀ u, s.wakesNext c = some u → s.InWait u
  | _ => True

/-- The timed waiter that the caller is about to wake. -/
def CondCaller.wakesTimed : CondCaller → Option TaskId
  | .waking u _ => some u
  | _ => none

/-- The waiter has yet to call `nosv_pause` or `nosv_waitfor`. -/
def CondPhase.beforeSleep : CondPhase → Bool
  | .listed _ | .unlocked _ => true
  | _ => false

/-- The time for which a timed waiter is about to block. -/
def CondPhase.sleepNs : CondPhase → Option Nat
  | .unlocked waitNs => waitNs
  | _ => none

/-- No timed waiter is woken after it has woken up by itself, and no
deadline is zero. -/
def Timely (s : Cond) : CondMove → Prop
  | .act c => ∀ u ∈ (s.caller c).wakesTimed,
      (s.sleeper u).state = .none → (s.phase u).beforeSleep = true
  | .sleep t startTime => ∀ ns ∈ (s.phase t).sleepNs, u64 (startTime + ns) ≠ 0
  | .waitfor _ startTime timeout => u64 (startTime + timeout) ≠ 0
  | _ => True

instance (s : Cond) (m : CondMove) : Decidable (Timely s m) := by
  unfold Timely
  split <;> infer_instance

/-- A task that nobody has woken is not cut short. -/
def NotCutShort (s : Cond) : CondMove → Prop
  | .waitfor t startTime timeout => s.phase t = .outside → (s.sleeper t).place = .running →
      ((s.sleeper t).task.casDeadline startTime timeout).1 = true
  | .sleep t startTime => ∀ ns, s.phase t = .unlocked (some ns) → t ∈ s.members .listTimed →
      ((s.sleeper t).task.casDeadline startTime ns).1 = true
  | _ => True

/-- No wake-up is left over when a wait returns. -/
def CondSpent (s : Cond) : Prop :=
  ∀ t, s.phase t = .relocking ∨ (s.phase t = .outside ∧ (s.sleeper t).place = .running) →
    (s.sleeper t).state = .none ∧ (s.sleeper t).task.deadline = 0

end Nosv
