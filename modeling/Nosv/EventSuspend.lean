import Nosv.ParallelTask

/-!
# Suspensions that wait for events

The life of one submission of a task that is not parallel and suspends
with `NOSV_SUSPEND_MODE_EVENT_SUBMIT`, with one step for each atomic
operation on `event_count`. The counter is one for the task plus one for
every event; a suspension sets the flag `TASK_WAITING_FOR_EVENTS` beside
it. Either the suspending worker finds the counter at one, or the
decrease that brings it to one finds the flag: exactly one of them clears
the flag and submits the task, and no event can be registered before it
has.

As for parallel tasks the counter, with the one of the task in it, must
stay below the flag.
-/

namespace Nosv

open Run

/-- `task_suspend` of a task in event mode, up to the `atomic_fetch_or`;
the second component tells whether the worker submits the task. -/
def Task.suspendEvents (k : Task) : Task × Bool :=
  let res := k.eventCount % taskWaitingForEvents
  ({ k with word := 0, suspendMode := .none, suspend := false,
            eventCount := res + taskWaitingForEvents }, res == 1)

/-! ## Steps -/

inductive EventPlace where
  /-- submitted, not executed yet -/
  | fresh
  | running
  | suspended
  /-- a body has ended without suspending -/
  | ended
  deriving DecidableEq

structure EventTask where
  task : Task
  place : EventPlace
  /-- how often the task is in the scheduler -/
  queued : Nat
  /-- events registered and not yet taken back -/
  events : Nat
  /-- all the events ever registered -/
  registered : Nat
  /-- suspensions so far -/
  suspensions : Nat
  /-- submissions of a suspended task so far -/
  pushed : Nat
  /-- calls that are about to clear the flag and submit the task -/
  clearing : Nat
  /-- calls that are about to run `task_complete` -/
  completing : Nat
  /-- calls of `task_complete` -/
  completed : Nat

inductive EventMove where
  | get
  | increase (n : Nat)
  | decrease (n : Nat)
  | suspend
  | clearWaiting
  | endExecution
  | complete

namespace EventTask

/-- A task that has been submitted. -/
def init : EventTask where
  task := nosvCreateInternal 0 ⟨.none, .preferred, 0⟩
  place := .fresh
  queued := 1
  events := 0
  registered := 0
  suspensions := 0
  pushed := 0
  clearing := 0
  completing := 0
  completed := 0

def step (s : EventTask) : EventMove → Option EventTask
  | .get =>
      let (k, popped) := s.task.handOut (taskGetDegree s.task)
      -- the second condition is an assertion of `scheduler_get_from_queue`
      if 0 < s.queued ∧ 0 < k.scheduledCount then
        some { s with task := k, place := .running,
                      queued := if popped then s.queued - 1 else s.queued }
      else none
  | .increase n =>
      if s.place = .running ∧ 0 < n then
        some { s with task := s.task.increaseEvents n, events := s.events + n,
                      registered := s.registered + n }
      else none
  | .decrease n =>
      let (k, submits, completes) := s.task.decreaseEvents n
      if 0 < n ∧ n ≤ s.events then
        some { s with
          task := k, events := s.events - n
          clearing := if submits then s.clearing + 1 else s.clearing
          completing := if completes then s.completing + 1 else s.completing }
      else none
  | .suspend =>
      let (k, submits) := s.task.suspendEvents
      if s.place = .running then
        some { s with
          task := k, place := .suspended, suspensions := s.suspensions + 1
          clearing := if submits then s.clearing + 1 else s.clearing }
      else none
  | .clearWaiting =>
      if 0 < s.clearing then
        some { s with task := s.task.clearWaiting, clearing := s.clearing - 1,
                      pushed := s.pushed + 1, queued := s.queued + 1 }
      else none
  | .endExecution =>
      let (k, completes) := s.task.endExecution
      if s.place = .running then
        some { s with task := k, place := .ended,
                      completing := if completes then s.completing + 1 else s.completing }
      else none
  | .complete =>
      if 0 < s.completing then
        some { s with task := taskComplete s.task, completing := s.completing - 1,
                      completed := s.completed + 1 }
      else none

/-- The task is suspended and has not been submitted since. -/
def Sleeps (s : EventTask) : Prop := s.place = .suspended ∧ s.queued = 0

/-- The task has ended and its events have been taken back. -/
def Over (s : EventTask) : Prop := s.place = .ended ∧ s.events = 0

instance (s : EventTask) : Decidable s.Sleeps := inferInstanceAs (Decidable (_ ∧ _))

instance (s : EventTask) : Decidable s.Over := inferInstanceAs (Decidable (_ ∧ _))

end EventTask

/-- What is claimed of every state. -/
structure EventsFollow (s : EventTask) : Prop where
  /-- every suspension but the one in progress has submitted the task once -/
  resubmits : s.pushed + (if s.Sleeps then 1 else 0) = s.suspensions
  /-- without events, somebody is about to submit a suspended task -/
  woken : s.Sleeps → s.events = 0 → s.clearing = 1
  flag : s.place = .running ∨ 0 < s.queued → s.task.eventCount < taskWaitingForEvents
  once : s.completed ≤ 1
  after : 0 < s.completed → s.Over
  completes : s.Over → s.completing + s.completed = 1

/-- A step that submits the task finds it suspended, outside the scheduler
and without events. -/
def PushesAsleep (s : EventTask) (m : EventMove) : Prop :=
  ∀ s' ∈ s.step m, s.pushed < s'.pushed → s.Sleeps ∧ s.events = 0

/-- The pending events fit `event_count` beside the one of the task. -/
def PendingFit (s : EventTask) : EventMove → Prop
  | .increase n => s.events + n + 1 < taskWaitingForEvents
  | _ => True

instance (s : EventTask) (m : EventMove) : Decidable (PendingFit s m) := by
  cases m <;> (dsimp only [PendingFit]; infer_instance)

/-! ## The invariant -/

/-- What the place of the task says about the counters. -/
def EventTask.PlaceOk (s : EventTask) : Prop :=
  match s.place with
  | .fresh | .running =>
      s.queued = (if s.place = .fresh then 1 else 0) ∧ s.task.eventCount = s.events + 1 ∧
        s.clearing = 0 ∧ s.pushed = s.suspensions ∧ s.completing + s.completed = 0
  | .suspended =>
      s.completing + s.completed = 0 ∧
        ((s.queued = 1 ∧ s.task.eventCount = s.events + 1 ∧ s.clearing = 0 ∧
            s.pushed = s.suspensions) ∨
          (s.queued = 0 ∧ s.task.eventCount = s.events + 1 + taskWaitingForEvents ∧
            s.clearing = (if s.events = 0 then 1 else 0) ∧ s.pushed + 1 = s.suspensions))
  | .ended =>
      s.queued = 0 ∧ s.clearing = 0 ∧ s.pushed = s.suspensions ∧
        (s.completed = 0 → s.task.eventCount = s.events) ∧
        s.completing + s.completed = if s.events = 0 then 1 else 0

structure EventTask.Inv (s : EventTask) : Prop where
  degree : s.task.degree = 1
  fit : s.events + 1 < taskWaitingForEvents
  place : s.PlaceOk

namespace EventTask

variable {s s' : EventTask}

theorem inv_init : init.Inv := by
  refine ⟨rfl, by decide, ?_⟩
  simp [PlaceOk, init, nosvCreateInternal]

/-- A task that is not parallel leaves the queue when it is handed out. -/
theorem handOut_single {k : Task} (hdegree : k.degree = 1)
    (hpos : 0 < (k.handOut (taskGetDegree k)).1.scheduledCount) :
    k.handOut (taskGetDegree k)
      = ({ k with scheduledCount := u32 (k.scheduledCount + 1) }, true) := by
  refine Task.handOut_pops (Or.inr ?_)
  have hcount : (k.handOut (taskGetDegree k)).1.scheduledCount = u32 (k.scheduledCount + 1) := by
    simp only [Task.handOut]
    split <;> rfl
  rw [hcount] at hpos
  rw [taskGetDegree, hdegree]
  omega

theorem Inv.get (h : s.Inv) (hq : 0 < s.queued)
    (hpos : 0 < (s.task.handOut (taskGetDegree s.task)).1.scheduledCount) :
    Inv { s with
      task := (s.task.handOut (taskGetDegree s.task)).1, place := .running
      queued := if (s.task.handOut (taskGetDegree s.task)).2 then s.queued - 1 else s.queued } := by
  rw [handOut_single h.degree hpos]
  refine ⟨h.degree, h.fit, ?_⟩
  have hplace := h.place
  unfold PlaceOk at hplace ⊢
  cases hp : s.place with
  | fresh =>
      simp only [hp, if_true] at hplace
      simp only [if_true, reduceCtorEq, if_false]
      omega
  | running =>
      simp only [hp, reduceCtorEq, if_false] at hplace
      omega
  | suspended =>
      simp only [hp] at hplace
      simp only [if_true, reduceCtorEq, if_false]
      omega
  | ended =>
      simp only [hp] at hplace
      omega

theorem Inv.increase {n : Nat} (h : s.Inv) (hp : s.place = .running)
    (hfit : s.events + n + 1 < taskWaitingForEvents) :
    Inv { s with task := s.task.increaseEvents n, events := s.events + n,
                 registered := s.registered + n } := by
  have hplace := h.place
  unfold PlaceOk at hplace
  simp only [hp] at hplace
  have hadd : u32 (s.task.eventCount + n) = s.events + n + 1 := by
    rw [u32_of_lt (by unfold taskWaitingForEvents at hfit; omega)]
    omega
  refine ⟨h.degree, hfit, ?_⟩
  simp only [PlaceOk, hp, Task.increaseEvents, hadd, true_and]
  exact ⟨hplace.1, hplace.2.2⟩

/-- What is left of the counter when `n` of the events are taken back. -/
theorem sub_events {n b : Nat} (hle : n ≤ s.events) (hcount : s.task.eventCount = s.events + b)
    (hlt : s.events + b < 4294967296) :
    u32Sub s.task.eventCount n = s.events - n + b := by
  rw [hcount, u32Sub_of_le (by omega) hlt]
  omega

/-- A decrease outside a suspension and before the end of the body only
counts. -/
theorem decreaseEvents_counts {k : Task} {n m : Nat} (hval : u32Sub k.eventCount n = m + 1)
    (hlt : m + 1 < taskWaitingForEvents) :
    k.decreaseEvents n = ({ k with eventCount := m + 1 }, false, false) := by
  simp only [Task.decreaseEvents, hval, Prod.mk.injEq, true_and, Bool.and_eq_false_iff,
    decide_eq_false_iff_not, not_le, beq_eq_false_iff_ne]
  exact ⟨Or.inl hlt, by omega⟩

/-- A decrease during a suspension submits the task if no event is left. -/
theorem decreaseEvents_wakes {k : Task} {n m : Nat}
    (hval : u32Sub k.eventCount n = m + 1 + taskWaitingForEvents)
    (hlt : m + 1 < taskWaitingForEvents) :
    k.decreaseEvents n
      = ({ k with eventCount := m + 1 + taskWaitingForEvents }, decide (m = 0), false) := by
  have hmod : (m + 1 + taskWaitingForEvents) % taskWaitingForEvents = m + 1 := by
    rw [Nat.add_mod_right, Nat.mod_eq_of_lt hlt]
  have hne : m + 1 + taskWaitingForEvents ≠ 0 := by omega
  simp only [Task.decreaseEvents, hval, hmod, Prod.mk.injEq, true_and, beq_eq_false_iff_ne]
  refine ⟨?_, hne⟩
  rw [Bool.eq_iff_iff]
  simp only [Bool.and_eq_true, decide_eq_true_eq, beq_iff_eq]
  omega

/-- A decrease after the end of the body completes the task if no event is
left. -/
theorem decreaseEvents_completes {k : Task} {n m : Nat} (hval : u32Sub k.eventCount n = m)
    (hlt : m < taskWaitingForEvents) :
    k.decreaseEvents n = ({ k with eventCount := m }, false, decide (m = 0)) := by
  simp only [Task.decreaseEvents, hval, Prod.mk.injEq, true_and, Bool.and_eq_false_iff,
    decide_eq_false_iff_not, not_le]
  refine ⟨Or.inl hlt, ?_⟩
  rw [Bool.eq_iff_iff, beq_iff_eq, decide_eq_true_eq]

theorem Inv.decrease {n : Nat} (h : s.Inv) (hn : 0 < n) (hle : n ≤ s.events) :
    Inv { s with
      task := (s.task.decreaseEvents n).1, events := s.events - n
      clearing := if (s.task.decreaseEvents n).2.1 then s.clearing + 1 else s.clearing
      completing := if (s.task.decreaseEvents n).2.2 then s.completing + 1
        else s.completing } := by
  have hplace := h.place
  have hfit := h.fit
  have hword : taskWaitingForEvents = 2147483648 := rfl
  unfold PlaceOk at hplace
  cases hp : s.place with
  | fresh | running =>
      simp only [hp] at hplace
      rw [decreaseEvents_counts (sub_events hle hplace.2.1 (by omega)) (by omega)]
      refine ⟨h.degree, by simp only; omega, ?_⟩
      simp only [PlaceOk, Bool.false_eq_true, if_false, true_and]
      exact ⟨hplace.1, hplace.2.2⟩
  | suspended =>
      simp only [hp] at hplace
      obtain ⟨hnone, ⟨hq, hcount, hrest⟩ | ⟨hq, hcount, hclear, hrest⟩⟩ := hplace
      · rw [decreaseEvents_counts (sub_events hle hcount (by omega)) (by omega)]
        refine ⟨h.degree, by simp only; omega, ?_⟩
        simp only [PlaceOk, Bool.false_eq_true, if_false, true_and]
        exact ⟨hnone, Or.inl ⟨hq, hrest⟩⟩
      · -- an event was left, so nobody is about to submit the task
        rw [if_neg (by omega)] at hclear
        rw [decreaseEvents_wakes (m := s.events - n)
          (by rw [sub_events hle (by rw [hcount, Nat.add_assoc]) (by omega)]; omega) (by omega)]
        refine ⟨h.degree, by simp only; omega, ?_⟩
        simp only [PlaceOk, Bool.false_eq_true, if_false, decide_eq_true_eq, hclear]
        exact ⟨hnone, Or.inr ⟨hq, trivial, trivial, hrest⟩⟩
  | ended =>
      simp only [hp] at hplace
      obtain ⟨hq, hclear, hpushed, hcount, hnone⟩ := hplace
      rw [if_neg (by omega)] at hnone
      have hsub : u32Sub s.task.eventCount n = s.events - n :=
        sub_events (b := 0) hle (hcount (by omega)) (by omega)
      rw [decreaseEvents_completes hsub (by omega)]
      refine ⟨h.degree, by simp only; omega, ?_⟩
      simp only [PlaceOk, Bool.false_eq_true, if_false, decide_eq_true_eq]
      refine ⟨hq, hclear, hpushed, fun _ => trivial, ?_⟩
      split <;> omega

theorem Inv.suspend (h : s.Inv) (hp : s.place = .running) :
    Inv { s with
      task := s.task.suspendEvents.1, place := .suspended, suspensions := s.suspensions + 1
      clearing := if s.task.suspendEvents.2 then s.clearing + 1 else s.clearing } := by
  have hplace := h.place
  unfold PlaceOk at hplace
  simp only [hp, reduceCtorEq, if_false] at hplace
  obtain ⟨hq, hcount, hclear, hpushed, hnone⟩ := hplace
  have hmod : s.task.eventCount % taskWaitingForEvents = s.events + 1 := by
    rw [hcount, Nat.mod_eq_of_lt h.fit]
  refine ⟨h.degree, h.fit, hnone, Or.inr ⟨hq, ?_, ?_, ?_⟩⟩
  · simp only [Task.suspendEvents, hmod]
  · simp only [Task.suspendEvents, hmod, hclear, beq_iff_eq, Nat.add_eq_right]
  · simp only [hpushed]

theorem Inv.clearWaiting (h : s.Inv) (hc : 0 < s.clearing) :
    Inv { s with task := s.task.clearWaiting, clearing := s.clearing - 1,
                 pushed := s.pushed + 1, queued := s.queued + 1 } ∧ s.Sleeps ∧ s.events = 0 := by
  have hplace := h.place
  have hfit := h.fit
  unfold PlaceOk at hplace
  cases hp : s.place with
  | fresh | running | ended =>
      simp only [hp] at hplace
      omega
  | suspended =>
      simp only [hp] at hplace
      obtain ⟨hnone, ⟨-, -, hzero, -⟩ | ⟨hq, hcount, hclear, hpushed⟩⟩ := hplace
      · omega
      · have hev : s.events = 0 := by
          by_contra hne
          rw [if_neg hne] at hclear
          omega
        rw [if_pos hev] at hclear
        have hmod : s.task.eventCount % taskWaitingForEvents = s.events + 1 := by
          rw [hcount, Nat.add_mod_right, Nat.mod_eq_of_lt hfit]
        refine ⟨⟨h.degree, hfit, ?_⟩, ⟨hp, hq⟩, hev⟩
        simp only [PlaceOk]
        refine ⟨hnone, Or.inl ⟨?_, hmod, ?_, hpushed⟩⟩
        · omega
        · omega

theorem Inv.endExecution (h : s.Inv) (hp : s.place = .running) :
    Inv { s with task := s.task.endExecution.1, place := .ended,
                 completing := if s.task.endExecution.2 then s.completing + 1
                   else s.completing } := by
  have hplace := h.place
  have hfit := h.fit
  have hword : taskWaitingForEvents = 2147483648 := rfl
  unfold PlaceOk at hplace
  simp only [hp, reduceCtorEq, if_false] at hplace
  obtain ⟨hq, hcount, hclear, hpushed, hnone⟩ := hplace
  have hsub : u32Sub s.task.eventCount 1 = s.events := by
    rw [hcount, u32Sub_of_le (by omega) (by omega)]
    omega
  refine ⟨h.degree, hfit, hq, hclear, hpushed, fun _ => hsub, ?_⟩
  simp only [Task.endExecution, hsub, beq_iff_eq]
  split <;> omega

theorem Inv.complete (h : s.Inv) (hc : 0 < s.completing) :
    Inv { s with task := taskComplete s.task, completing := s.completing - 1,
                 completed := s.completed + 1 } := by
  have hplace := h.place
  unfold PlaceOk at hplace
  cases hp : s.place with
  | fresh | running | suspended =>
      simp only [hp] at hplace
      omega
  | ended =>
      simp only [hp] at hplace
      obtain ⟨hq, hclear, hpushed, -, hone⟩ := hplace
      refine ⟨h.degree, h.fit, ?_⟩
      simp only [PlaceOk]
      refine ⟨hq, hclear, hpushed, fun hz => ?_, ?_⟩
      · omega
      · omega

theorem inv_step {m : EventMove} (hfit : PendingFit s m) (hstep : s.step m = some s') (h : s.Inv) :
    s'.Inv := by
  cases m with
  | get =>
      obtain ⟨⟨hq, hpos⟩, heq⟩ := Option.ite_none_right_eq_some.mp hstep
      obtain rfl := Option.some.inj heq
      exact h.get hq hpos
  | increase n =>
      obtain ⟨⟨hp, -⟩, heq⟩ := Option.ite_none_right_eq_some.mp hstep
      obtain rfl := Option.some.inj heq
      exact h.increase hp hfit
  | decrease n =>
      obtain ⟨⟨hn, hle⟩, heq⟩ := Option.ite_none_right_eq_some.mp hstep
      obtain rfl := Option.some.inj heq
      exact h.decrease hn hle
  | suspend =>
      obtain ⟨hp, heq⟩ := Option.ite_none_right_eq_some.mp hstep
      obtain rfl := Option.some.inj heq
      exact h.suspend hp
  | clearWaiting =>
      obtain ⟨hc, heq⟩ := Option.ite_none_right_eq_some.mp hstep
      obtain rfl := Option.some.inj heq
      exact (h.clearWaiting hc).1
  | endExecution =>
      obtain ⟨hp, heq⟩ := Option.ite_none_right_eq_some.mp hstep
      obtain rfl := Option.some.inj heq
      exact h.endExecution hp
  | complete =>
      obtain ⟨hc, heq⟩ := Option.ite_none_right_eq_some.mp hstep
      obtain rfl := Option.some.inj heq
      exact h.complete hc

/-! ## What follows from the invariant -/

theorem Inv.follow (h : s.Inv) : EventsFollow s := by
  have hplace := h.place
  have hfit := h.fit
  unfold PlaceOk at hplace
  cases hp : s.place with
  | fresh | running =>
      simp only [hp] at hplace
      have hsleeps : ¬ s.Sleeps := by simp [Sleeps, hp]
      have hover : ¬ s.Over := by simp [Over, hp]
      refine ⟨?_, fun hs => absurd hs hsleeps, fun _ => by omega, by omega, fun hpos => by omega,
        fun ho => absurd ho hover⟩
      rw [if_neg hsleeps]
      omega
  | suspended =>
      simp only [hp] at hplace
      have hover : ¬ s.Over := by simp [Over, hp]
      obtain ⟨hnone, ⟨hq, hcount, hclear, hpushed⟩ | ⟨hq, hcount, hclear, hpushed⟩⟩ := hplace
      · have hsleeps : ¬ s.Sleeps := by simp [Sleeps, hq]
        refine ⟨?_, fun hs => absurd hs hsleeps, fun _ => by omega, by omega, fun hpos => by omega,
          fun ho => absurd ho hover⟩
        rw [if_neg hsleeps]
        omega
      · have hsleeps : s.Sleeps := ⟨hp, hq⟩
        refine ⟨?_, fun _ hev => ?_, ?_, by omega, fun hpos => by omega, fun ho => absurd ho hover⟩
        · rw [if_pos hsleeps]
          exact hpushed
        · rw [hclear, if_pos hev]
        · rintro (hrun | hpos)
          · rw [hp] at hrun
            cases hrun
          · omega
  | ended =>
      simp only [hp] at hplace
      obtain ⟨hq, hclear, hpushed, hcount, hone⟩ := hplace
      have hsleeps : ¬ s.Sleeps := by simp [Sleeps, hp]
      refine ⟨?_, fun hs => absurd hs hsleeps, ?_, ?_, fun hpos => ⟨hp, ?_⟩, fun ho => ?_⟩
      · rw [if_neg hsleeps]
        omega
      · rintro (hrun | hpos)
        · rw [hp] at hrun
          cases hrun
        · omega
      · split at hone <;> omega
      · by_contra hev
        rw [if_neg hev] at hone
        omega
      · rw [hone, if_pos ho.2]

theorem Inv.pushesAsleep (h : s.Inv) (m : EventMove) : PushesAsleep s m := by
  intro s' hs' hlt
  cases m with
  | clearWaiting =>
      obtain ⟨hc, -⟩ := Option.ite_none_right_eq_some.mp hs'
      exact (h.clearWaiting hc).2
  | get | increase n | decrease n | suspend | endExecution | complete =>
      -- no other step submits the task
      obtain ⟨-, heq⟩ := Option.ite_none_right_eq_some.mp hs'
      obtain rfl := Option.some.inj heq
      exact absurd hlt (Nat.lt_irrefl _)

end EventTask

/-- A task that suspends until its events are over is submitted once for
each suspension, with no event pending, and completes once, after a body
that did not suspend. -/
theorem events_follow (moves : List EventMove) (s : EventTask)
    (hrun : run EventTask.step .init moves = some s)
    (hfit : Along EventTask.step PendingFit .init moves) :
    EventsFollow s ∧ Along EventTask.step PushesAsleep .init moves := by
  have hkeep : ∀ s m s', PendingFit s m → EventTask.step s m = some s' → s.Inv → s'.Inv :=
    fun _ _ _ hC hstep hinv => EventTask.inv_step hC hstep hinv
  exact ⟨(invariant_along hkeep hfit hrun EventTask.inv_init).follow,
    along_of_invariant hkeep (fun _ m _ hinv => hinv.pushesAsleep m) hfit EventTask.inv_init⟩

/-- Two events, a suspension that one of them outlives, one that finds no
event, and the end. -/
theorem events_follow_twice :
    ∃ s, run EventTask.step .init [.get, .increase 2, .decrease 1, .suspend, .decrease 1,
        .clearWaiting, .get, .suspend, .clearWaiting, .get, .increase 1, .endExecution, .decrease 1,
        .complete] = some s
      ∧ EventsFollow s ∧ s.completed = 1 := by
  have heval : (run EventTask.step .init [.get, .increase 2, .decrease 1, .suspend, .decrease 1,
      .clearWaiting, .get, .suspend, .clearWaiting, .get, .increase 1, .endExecution, .decrease 1,
      .complete]).map (·.completed) = some 1 := by
    decide +kernel
  obtain ⟨s, hrun, hval⟩ := Option.map_eq_some_iff.mp heval
  exact ⟨s, hrun, (events_follow _ s hrun (by decide +kernel)).1, hval⟩

/-- All events together stay below `2 ^ 31`. -/
def RegisteredFit (s : EventTask) : EventMove → Prop
  | .increase n => s.registered + n < taskWaitingForEvents
  | _ => True

instance (s : EventTask) (m : EventMove) : Decidable (RegisteredFit s m) := by
  cases m <;> (dsimp only [RegisteredFit]; infer_instance)

/-- `2 ^ 31 - 1` events and the one that `event_count` holds for the task
set the flag while the task is running. -/
theorem many_events_set_flag :
    ¬ ∀ (moves : List EventMove) (s : EventTask), run EventTask.step .init moves = some s →
      Along EventTask.step RegisteredFit .init moves →
      EventsFollow s ∧ Along EventTask.step PushesAsleep .init moves := by
  intro hall
  have heval : (run EventTask.step .init [.get, .increase 2147483647]).map
      (fun s => (s.place, s.task.eventCount)) = some (.running, 2147483648) := by
    decide +kernel
  obtain ⟨s, hrun, hval⟩ := Option.map_eq_some_iff.mp heval
  obtain ⟨hplace, hcount⟩ := Prod.mk.injEq .. |>.mp hval
  have hflag := (hall _ s hrun (by decide +kernel)).1.flag (Or.inl hplace)
  rw [hcount] at hflag
  exact absurd hflag (by decide)

end Nosv
