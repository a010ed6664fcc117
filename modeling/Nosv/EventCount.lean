import Nosv.EventSuspend

/-!
# What `event_count` counts

One task of any degree, over any number of submissions, with one step for
each atomic operation on `event_count`: hand-outs by the scheduler, events
registered and taken back in any amounts, executions that end, that suspend
until the events are over or in another mode, and `task_complete`.

`event_count` holds one for the queue, one for every execution in progress
or suspended, one for every event, and the flag `TASK_WAITING_FOR_EVENTS`
in its top bit, all in 32 bits. The calls take 64-bit amounts and check
only that they are not zero.

Which of the executions of a parallel task suspends is left open here, since
they share the flags that say so.
-/

namespace Nosv

open Run

structure EventCount where
  task : Task
  /-- created, or completed: not submitted since -/
  idle : Bool
  /-- the task is in a queue of the scheduler -/
  queued : Bool
  /-- the degree that a `scheduler_get_from_queue` in progress has read -/
  loaded : Option Int
  /-- executions in progress -/
  live : Nat
  /-- executions that are suspended until the events are over -/
  suspended : Nat
  /-- executions that are suspended in another mode -/
  parked : Nat
  /-- events registered and not yet taken back -/
  events : Nat
  /-- calls that are about to clear the flag and submit the task -/
  clearing : Nat
  /-- calls that are about to run `task_complete` -/
  completing : Nat
  deriving DecidableEq

inductive CountMove where
  | setDegree (degree : Int)
  | submit
  | submitInline
  | readDegree
  | handOut
  | cancel
  | increase (n : Nat)
  | decrease (n : Nat)
  /-- an execution ends and suspends in event mode -/
  | suspend
  /-- an execution ends and suspends in another mode -/
  | park
  | resubmit
  | clearWaiting
  | endExecution
  | complete
  deriving DecidableEq

namespace EventCount

def init : EventCount where
  task := nosvCreateInternal 0 ⟨.none, .preferred, 0⟩
  idle := true
  queued := false
  loaded := none
  live := 0
  suspended := 0
  parked := 0
  events := 0
  clearing := 0
  completing := 0

def step (s : EventCount) : CountMove → Option EventCount
  | .setDegree degree =>
      if s.idle = true ∧ 0 < degree then some { s with task := { s.task with degree := degree } }
      else none
  | .submit => if s.idle = true then some { s with idle := false, queued := true } else none
  | .submitInline =>
      if s.idle = true ∧ taskIsParallel s.task = false then
        some { s with idle := false, live := 1 }
      else none
  | .readDegree =>
      if s.queued = true ∧ s.loaded = none then
        some { s with loaded := some (taskGetDegree s.task) }
      else none
  | .handOut =>
      match s.loaded with
      | none => none
      | some degree =>
          let (k, popped) := s.task.handOut degree
          some { s with task := k, loaded := none, queued := !popped, live := s.live + 1 }
  | .cancel =>
      if 0 < s.live then
        match nosvCancel s.task with
        | none => some s
        | some k => some { s with task := k }
      else none
  | .increase n =>
      if 0 < s.live then
        -- `NOSV_ERR_INVALID_PARAMETER`
        if n = 0 then some s
        else some { s with task := s.task.increaseEvents n, events := s.events + n }
      else none
  | .decrease n =>
      let (k, submits, completes) := s.task.decreaseEvents n
      if n ≤ s.events then
        -- `NOSV_ERR_INVALID_PARAMETER`
        if n = 0 then some s
        else some { s with
          task := k, events := s.events - n
          clearing := if submits then s.clearing + 1 else s.clearing
          completing := if completes then s.completing + 1 else s.completing }
      else none
  | .suspend =>
      let (k, submits) := s.task.suspendEvents
      if 0 < s.live then
        some { s with
          task := k, live := s.live - 1, suspended := s.suspended + 1
          clearing := if submits then s.clearing + 1 else s.clearing }
      else none
  | .park =>
      if 0 < s.live then some { s with live := s.live - 1, parked := s.parked + 1 } else none
  | .resubmit =>
      if 0 < s.parked ∧ s.queued = false then
        some { s with parked := s.parked - 1, queued := true }
      else none
  | .clearWaiting =>
      if 0 < s.clearing then
        some { s with task := s.task.clearWaiting, clearing := s.clearing - 1,
                      suspended := s.suspended - 1, queued := true }
      else none
  | .endExecution =>
      let (k, completes) := s.task.endExecution
      if 0 < s.live then
        some { s with task := k, live := s.live - 1,
                      completing := if completes then s.completing + 1 else s.completing }
      else none
  | .complete =>
      if 0 < s.completing then
        some { s with task := taskComplete s.task, idle := true, completing := s.completing - 1 }
      else none

/-- What `event_count` is to hold, besides the flag. -/
def total (s : EventCount) : Nat :=
  (if s.queued then 1 else 0) + s.live + s.suspended + s.parked + s.events

/-- The task has been submitted, its executions have ended and its events
have been taken back. -/
def Over (s : EventCount) : Prop := s.idle = false ∧ s.total = 0

instance (s : EventCount) : Decidable s.Over := inferInstanceAs (Decidable (_ ∧ _))

/-- While the task is submitted, the counter holds what it is to hold, its
flag is set while an execution waits for the events, and somebody is about
to complete the task when all is over, and not before. -/
structure Counted (s : EventCount) : Prop where
  idle : s.idle = true → s.task.eventCount = 1 ∧ s.completing = 0
  count : s.idle = false → s.task.eventCount % taskWaitingForEvents = s.total
  flag : taskWaitingForEvents ≤ s.task.eventCount ↔ 0 < s.suspended
  completing : s.idle = false → s.completing = if s.Over then 1 else 0

/-- A call with zero changes nothing, any other is accounted in the counter,
and only a task that is over is completed. -/
def Outcome (s s' : EventCount) : CountMove → Prop
  | .increase n =>
      if n = 0 then s' = s
      else s'.task.eventCount = s.task.eventCount + n ∧ s'.events = s.events + n
  | .decrease n =>
      if n = 0 then s' = s
      else s'.task.eventCount + n = s.task.eventCount ∧ s'.events + n = s.events
  | .complete => s.Over
  | _ => True

/-- Every step keeps the counter exact. -/
def Exact (s : EventCount) (m : CountMove) : Prop :=
  ∀ s' ∈ s.step m, s'.Counted ∧ s.Outcome s' m

/-- What is added leaves the flag alone: the events of a call, and the one of
an execution that is handed out while the task stays in its queue. -/
def Room (s : EventCount) (m : CountMove) : Prop :=
  (s.step m).isSome →
    match m with
    | .increase n => s.total + n < taskWaitingForEvents
    | .handOut => ∀ degree ∈ s.loaded, (s.task.handOut degree).2 = false →
        s.total + 1 < taskWaitingForEvents
    | _ => True

instance (s : EventCount) : ∀ m, Decidable (s.Room m)
  | .increase _ => inferInstanceAs (Decidable (_ → _))
  | .handOut => by dsimp only [Room]; infer_instance
  | .setDegree _ | .submit | .submitInline | .readDegree | .cancel | .decrease _ | .suspend | .park
  | .resubmit | .clearWaiting | .endExecution | .complete => isTrue fun _ => trivial

/-! ## The invariant -/

structure Inv (s : EventCount) : Prop where
  idle : s.idle = true → s.total = 0 ∧ s.task.eventCount = 1 ∧ s.clearing = 0 ∧ s.completing = 0
  count : s.idle = false →
    s.task.eventCount = s.total + if 0 < s.suspended then taskWaitingForEvents else 0
  fit : s.total < taskWaitingForEvents
  completing : s.idle = false → s.completing = if s.total = 0 then 1 else 0
  clearing : s.clearing = 0 ∨ (s.clearing = 1 ∧ s.suspended = 1 ∧ s.total = 1)
  loaded : s.loaded ≠ none → s.queued = true

variable {s s' : EventCount}

theorem inv_init : init.Inv :=
  ⟨fun _ => ⟨rfl, rfl, rfl, rfl⟩, fun h => (by cases h), by decide, fun h => (by cases h), .inl rfl,
    fun h => absurd rfl h⟩

theorem Inv.counted (h : s.Inv) : s.Counted := by
  have hfit := h.fit
  unfold taskWaitingForEvents at hfit
  refine ⟨fun hi => ?_, fun hi => ?_, ?_, fun hi => ?_⟩
  · obtain ⟨-, hcount, -, hcomp⟩ := h.idle hi
    exact ⟨hcount, hcomp⟩
  · rw [h.count hi]
    unfold taskWaitingForEvents
    split <;> omega
  · cases hi : s.idle with
    | true =>
        obtain ⟨htotal, hcount, -, -⟩ := h.idle hi
        have hsusp : s.suspended = 0 := by
          unfold total at htotal
          omega
        rw [hcount, hsusp]
        decide
    | false =>
        rw [h.count hi]
        unfold taskWaitingForEvents
        split <;> omega
  · rw [h.completing hi]
    exact if_congr (by simp [Over, hi]) rfl rfl

/-- Something is in progress, so the task is not idle. -/
theorem Inv.busy (h : s.Inv) (hpos : 0 < s.total) : s.idle = false := by
  cases hi : s.idle with
  | false => rfl
  | true =>
      have hzero := (h.idle hi).1
      omega

/-- While something is about to clear the flag, nothing else happens. -/
theorem Inv.not_clearing (h : s.Inv)
    (hpos : 0 < s.live ∨ 0 < s.events ∨ 0 < s.parked ∨ s.queued = true) : s.clearing = 0 := by
  rcases h.clearing with hzero | ⟨-, hsusp, htotal⟩
  · exact hzero
  · unfold total at htotal
    rcases hpos with hpos | hpos | hpos | hpos
    · omega
    · omega
    · omega
    · rw [hpos] at htotal
      simp only [if_true] at htotal
      omega

/-- The counter goes up. -/
theorem add_counted {k : Task} {c n : Nat} (hcount : k.eventCount = c + if 0 < s.suspended then
    taskWaitingForEvents else 0) (hfit : c + n < taskWaitingForEvents) :
    u32 (k.eventCount + n) = c + n + if 0 < s.suspended then taskWaitingForEvents else 0 := by
  unfold taskWaitingForEvents at *
  rw [hcount]
  split <;> (unfold u32; omega)

/-- The counter goes down. -/
theorem sub_counted {k : Task} {c n : Nat} (hcount : k.eventCount = c + n + if 0 < s.suspended then
    taskWaitingForEvents else 0) (hfit : c + n < taskWaitingForEvents) :
    u32Sub k.eventCount n = c + if 0 < s.suspended then taskWaitingForEvents else 0 := by
  unfold taskWaitingForEvents at *
  rw [u32Sub_of_le (by omega) (by split at hcount <;> omega), hcount]
  omega

theorem Inv.eventCount (h : s.Inv) (hpos : 0 < s.total) :
    s.task.eventCount = s.total + if 0 < s.suspended then taskWaitingForEvents else 0 :=
  h.count (h.busy hpos)

theorem Inv.not_completing (h : s.Inv) (hpos : 0 < s.total) : s.completing = 0 := by
  rw [h.completing (h.busy hpos), if_neg (by omega)]

theorem Inv.submit (h : s.Inv) (hi : s.idle = true) : Inv { s with idle := false, queued := true } := by
  obtain ⟨htotal, hcount, hclear, hcomp⟩ := h.idle hi
  have hnew : total { s with idle := false, queued := true } = 1 ∧ s.suspended = 0 := by
    unfold total at htotal ⊢
    simp only [if_true]
    split at htotal <;> omega
  refine ⟨fun hf => (by cases hf), fun _ => ?_, ?_, fun _ => ?_, .inl hclear, fun _ => rfl⟩
  · rw [hnew.1]
    simpa only [hnew.2, Nat.lt_irrefl, if_false] using hcount
  · rw [hnew.1]
    decide
  · rw [hnew.1]
    exact hcomp

theorem Inv.submitInline (h : s.Inv) (hi : s.idle = true) : Inv { s with idle := false, live := 1 } := by
  obtain ⟨htotal, hcount, hclear, hcomp⟩ := h.idle hi
  have hnew : total { s with idle := false, live := 1 } = 1 ∧ s.suspended = 0 := by
    unfold total at htotal ⊢
    simp only
    omega
  refine ⟨fun hf => (by cases hf), fun _ => ?_, ?_, fun _ => ?_, .inl hclear, h.loaded⟩
  · rw [hnew.1]
    simpa only [hnew.2, Nat.lt_irrefl, if_false] using hcount
  · rw [hnew.1]
    decide
  · rw [hnew.1]
    exact hcomp

/-- A step that moves the task about: nothing is added to the counter. -/
theorem Inv.moved (h : s.Inv) (hpos : 0 < s.total) (htotal : s'.total = s.total)
    (htask : s'.task.eventCount = s.task.eventCount) (hidle : s'.idle = s.idle)
    (hsusp : s'.suspended = s.suspended) (hclear : s'.clearing = s.clearing)
    (hcomp : s'.completing = s.completing) (hloaded : s'.loaded ≠ none → s'.queued = true) : s'.Inv := by
  have hbusy := h.busy hpos
  refine ⟨fun hi => ?_, fun _ => ?_, ?_, fun _ => ?_, ?_, hloaded⟩
  · rw [hidle, hbusy] at hi
    cases hi
  · rw [htask, htotal, hsusp]
    exact h.count hbusy
  · rw [htotal]
    exact h.fit
  · rw [hcomp, htotal]
    exact h.completing hbusy
  · rw [hclear, hsusp, htotal]
    exact h.clearing

/-- Something is added to the counter. -/
theorem Inv.added {n : Nat} (h : s.Inv) (hpos : 0 < s.total) (hclear : s.clearing = 0)
    (hroom : s.total + n < taskWaitingForEvents) (htotal : s'.total = s.total + n)
    (htask : s'.task.eventCount = u32 (s.task.eventCount + n)) (hidle : s'.idle = s.idle)
    (hsusp : s'.suspended = s.suspended) (hclear' : s'.clearing = s.clearing)
    (hcomp : s'.completing = s.completing) (hloaded : s'.loaded ≠ none → s'.queued = true) : s'.Inv := by
  have hbusy := h.busy hpos
  refine ⟨fun hi => ?_, fun _ => ?_, ?_, fun _ => ?_, .inl (hclear'.trans hclear), hloaded⟩
  · rw [hidle, hbusy] at hi
    cases hi
  · rw [htask, htotal, hsusp]
    exact add_counted (h.count hbusy) hroom
  · rwa [htotal]
  · rw [hcomp, h.not_completing hpos, htotal, if_neg (by omega)]

/-- Something is taken off the counter: whoever reaches zero completes the
task, and the decrease that leaves only a suspended execution wakes it. -/
theorem Inv.removed {n : Nat} {submits : Bool} (h : s.Inv) (hn : 0 < n) (hclear : s.clearing = 0)
    (htotal : s.total = s'.total + n)
    (htask : s'.task.eventCount = u32Sub s.task.eventCount n) (hidle : s'.idle = s.idle)
    (hsusp : s'.suspended = s.suspended)
    (hclear' : s'.clearing = if submits then s.clearing + 1 else s.clearing)
    (hsubmits : submits = true → taskWaitingForEvents ≤ s'.task.eventCount
      ∧ s'.task.eventCount % taskWaitingForEvents = 1)
    (hcomp : s'.completing = if s'.task.eventCount = 0 then s.completing + 1 else s.completing)
    (hloaded : s'.loaded ≠ none → s'.queued = true) :
    s'.Inv ∧ s'.task.eventCount + n = s.task.eventCount := by
  have hpos : 0 < s.total := by omega
  have hbusy := h.busy hpos
  have hfit := h.fit
  have hcount := h.count hbusy
  rw [htotal] at hcount
  have hval : s'.task.eventCount = s'.total + if 0 < s.suspended then taskWaitingForEvents else 0 := by
    rw [htask]
    exact sub_counted hcount (by rwa [← htotal])
  have hle : s.suspended ≤ s'.total := by
    rw [← hsusp]
    unfold total
    omega
  refine ⟨⟨fun hi => ?_, fun _ => ?_, ?_, fun _ => ?_, ?_, hloaded⟩, ?_⟩
  · rw [hidle, hbusy] at hi
    cases hi
  · rw [hval, hsusp]
  · omega
  · have hzero : s'.task.eventCount = 0 ↔ s'.total = 0 := by
      rw [hval]
      split <;> omega
    rw [hcomp, h.not_completing hpos]
    exact if_congr hzero rfl rfl
  · cases hsub : submits with
    | false =>
        rw [hclear', hsub, hclear]
        exact .inl rfl
    | true =>
        obtain ⟨hflag, hone⟩ := hsubmits hsub
        have hsuspended : 0 < s.suspended := by
          by_contra hnone
          rw [hval, if_neg hnone] at hflag
          omega
        rw [hval, if_pos hsuspended] at hone
        unfold taskWaitingForEvents at hone hfit
        rw [hclear', hsub, hclear, hsusp]
        exact .inr ⟨rfl, by omega, by omega⟩
  · omega

theorem Inv.suspend (h : s.Inv) (hlive : 0 < s.live) :
    Inv { s with task := s.task.suspendEvents.1, live := s.live - 1, suspended := s.suspended + 1
                 clearing := if s.task.suspendEvents.2 then s.clearing + 1 else s.clearing } := by
  have hpos : 0 < s.total := by unfold total; omega
  have hbusy := h.busy hpos
  have hfit := h.fit
  have hclear := h.not_clearing (.inl hlive)
  have hmod : s.task.eventCount % taskWaitingForEvents = s.total := h.counted.count hbusy
  have htotal : total { s with
      task := s.task.suspendEvents.1, live := s.live - 1, suspended := s.suspended + 1
      clearing := if s.task.suspendEvents.2 then s.clearing + 1 else s.clearing } = s.total := by
    unfold total
    simp only
    omega
  refine ⟨fun hi => ?_, fun _ => ?_, ?_, fun _ => ?_, ?_, h.loaded⟩
  · rw [hbusy] at hi
    cases hi
  · rw [htotal]
    simp only [Task.suspendEvents, hmod, Nat.succ_pos, if_true]
  · rwa [htotal]
  · rw [htotal]
    exact h.completing hbusy
  · rw [htotal]
    simp only [Task.suspendEvents, hmod, hclear, beq_iff_eq]
    split
    · rename_i hone
      refine .inr ⟨rfl, ?_, hone⟩
      unfold total at hone
      omega
    · exact .inl rfl

theorem Inv.clearWaiting (h : s.Inv) (hc : 0 < s.clearing) :
    Inv { s with task := s.task.clearWaiting, clearing := s.clearing - 1,
                 suspended := s.suspended - 1, queued := true } := by
  obtain ⟨hone, hsusp, htotal⟩ := h.clearing.resolve_left (by omega)
  have hbusy := h.busy (by omega)
  have hmod : s.task.eventCount % taskWaitingForEvents = s.total := h.counted.count hbusy
  have hnew : total { s with task := s.task.clearWaiting, clearing := s.clearing - 1,
                             suspended := s.suspended - 1, queued := true } = 1 := by
    unfold total at htotal ⊢
    simp only [if_true]
    split at htotal <;> omega
  refine ⟨fun hi => ?_, fun _ => ?_, ?_, fun _ => ?_, .inl ?_, fun _ => rfl⟩
  · rw [hbusy] at hi
    cases hi
  · rw [hnew]
    simp only [Task.clearWaiting, hmod, htotal, hsusp, Nat.sub_self, Nat.lt_irrefl, if_false]
  · rw [hnew]
    decide
  · rw [hnew]
    exact h.not_completing (by omega)
  · simp only [hone]

theorem Inv.complete (h : s.Inv) (hc : 0 < s.completing) :
    s.Over ∧ Inv { s with task := taskComplete s.task, idle := true, completing := s.completing - 1 } := by
  have hbusy : s.idle = false := by
    cases hi : s.idle with
    | false => rfl
    | true =>
        have hzero := (h.idle hi).2.2.2
        omega
  have hcomp := h.completing hbusy
  have htotal : s.total = 0 := by
    by_contra hne
    rw [if_neg hne] at hcomp
    omega
  rw [if_pos htotal] at hcomp
  have hclear : s.clearing = 0 := h.clearing.resolve_right fun hr => by omega
  have hnew : total { s with task := taskComplete s.task, idle := true,
                             completing := s.completing - 1 } = 0 := htotal
  refine ⟨⟨hbusy, htotal⟩, ⟨fun _ => ⟨hnew, rfl, hclear, ?_⟩, fun hi => (by cases hi), ?_,
    fun hi => (by cases hi), .inl hclear, h.loaded⟩⟩
  · simp only [hcomp]
  · rw [hnew]
    decide

/-! ## Steps -/

theorem Inv.handOut {degree : Int} (h : s.Inv) (hl : s.loaded = some degree)
    (hroom : (s.task.handOut degree).2 = false → s.total + 1 < taskWaitingForEvents) :
    Inv { s with task := (s.task.handOut degree).1, loaded := none
                 queued := !(s.task.handOut degree).2, live := s.live + 1 } := by
  have hq : s.queued = true := h.loaded (by rw [hl]; exact Option.some_ne_none _)
  have hpos : 0 < s.total := by
    unfold total
    rw [hq]
    simp only [if_true]
    omega
  by_cases hlast : degree < 0 ∨ degree ≤ u32 (s.task.scheduledCount + 1)
  · -- what the queue counted for is now an execution
    rw [Task.handOut_pops hlast]
    refine h.moved hpos ?_ rfl rfl rfl rfl rfl fun hn => absurd rfl hn
    unfold total
    simp only [hq, Bool.not_true, Bool.false_eq_true, if_false, if_true]
    omega
  · rw [Task.handOut_stays hlast] at hroom ⊢
    refine h.added hpos (h.not_clearing (.inr (.inr (.inr hq)))) (hroom rfl) ?_ rfl rfl rfl rfl rfl
      fun hn => absurd rfl hn
    unfold total
    simp only [hq, Bool.not_false, if_true]
    omega

theorem Inv.increase {n : Nat} (h : s.Inv) (hlive : 0 < s.live)
    (hroom : s.total + n < taskWaitingForEvents) :
    Inv { s with task := s.task.increaseEvents n, events := s.events + n }
    ∧ (s.task.increaseEvents n).eventCount = s.task.eventCount + n := by
  have hpos : 0 < s.total := by unfold total; omega
  have hclear := h.not_clearing (.inl hlive)
  refine ⟨h.added hpos hclear hroom ?_ rfl rfl rfl rfl rfl h.loaded, ?_⟩
  · unfold total
    simp only
    omega
  · have hcount := h.eventCount hpos
    simp only [Task.increaseEvents, add_counted hcount hroom]
    omega

theorem Inv.decrease {n : Nat} (h : s.Inv) (hn : n ≠ 0) (hle : n ≤ s.events) :
    Inv { s with
      task := (s.task.decreaseEvents n).1, events := s.events - n
      clearing := if (s.task.decreaseEvents n).2.1 then s.clearing + 1 else s.clearing
      completing := if (s.task.decreaseEvents n).2.2 then s.completing + 1 else s.completing }
    ∧ (s.task.decreaseEvents n).1.eventCount + n = s.task.eventCount := by
  refine h.removed (Nat.pos_of_ne_zero hn) (h.not_clearing (.inr (.inl (by omega)))) ?_ rfl rfl rfl rfl
    (fun hsub => ?_) ?_ h.loaded
  · unfold total
    simp only
    omega
  · simpa [Task.decreaseEvents] using hsub
  · exact if_congr (by simp [Task.decreaseEvents]) rfl rfl

theorem Inv.endExecution (h : s.Inv) (hlive : 0 < s.live) :
    Inv { s with task := s.task.endExecution.1, live := s.live - 1
                 completing := if s.task.endExecution.2 then s.completing + 1 else s.completing } := by
  have hremoved : Inv { s with
      task := s.task.endExecution.1, live := s.live - 1
      completing := if s.task.endExecution.2 then s.completing + 1 else s.completing }
      ∧ s.task.endExecution.1.eventCount + 1 = s.task.eventCount := by
    refine h.removed Nat.one_pos (h.not_clearing (.inl hlive)) ?_ rfl rfl rfl
      (if_neg Bool.false_ne_true).symm (fun hsub => absurd hsub Bool.false_ne_true) ?_ h.loaded
    · unfold total
      simp only
      omega
    · exact if_congr (by simp [Task.endExecution]) rfl rfl
  exact hremoved.1

theorem inv_step {m : CountMove} (hroom : s.Room m) (hstep : s.step m = some s') (h : s.Inv) :
    s'.Inv ∧ s.Outcome s' m := by
  have hroom := hroom (by rw [hstep]; rfl)
  cases m with
  | setDegree degree =>
      obtain ⟨-, heq⟩ := Option.ite_none_right_eq_some.mp hstep
      obtain rfl := Option.some.inj heq
      exact ⟨⟨h.idle, h.count, h.fit, h.completing, h.clearing, h.loaded⟩, trivial⟩
  | submit =>
      obtain ⟨hi, heq⟩ := Option.ite_none_right_eq_some.mp hstep
      obtain rfl := Option.some.inj heq
      exact ⟨h.submit hi, trivial⟩
  | submitInline =>
      obtain ⟨⟨hi, -⟩, heq⟩ := Option.ite_none_right_eq_some.mp hstep
      obtain rfl := Option.some.inj heq
      exact ⟨h.submitInline hi, trivial⟩
  | readDegree =>
      obtain ⟨⟨hq, -⟩, heq⟩ := Option.ite_none_right_eq_some.mp hstep
      obtain rfl := Option.some.inj heq
      exact ⟨⟨h.idle, h.count, h.fit, h.completing, h.clearing, fun _ => hq⟩, trivial⟩
  | handOut =>
      simp only [step] at hstep
      cases hl : s.loaded with
      | none =>
          rw [hl] at hstep
          cases hstep
      | some degree =>
          rw [hl] at hstep
          obtain rfl := Option.some.inj hstep
          exact ⟨h.handOut hl (hroom degree hl), trivial⟩
  | cancel =>
      obtain ⟨-, hstep⟩ := Option.ite_none_right_eq_some.mp hstep
      split at hstep
      · obtain rfl := Option.some.inj hstep
        exact ⟨h, trivial⟩
      · rename_i k hk
        obtain rfl := Option.some.inj hstep
        obtain ⟨-, heq⟩ := Option.ite_none_left_eq_some.mp hk
        obtain rfl := Option.some.inj heq
        exact ⟨⟨h.idle, h.count, h.fit, h.completing, h.clearing, h.loaded⟩, trivial⟩
  | increase n =>
      obtain ⟨hlive, hstep⟩ := Option.ite_none_right_eq_some.mp hstep
      split at hstep
      · rename_i hn
        obtain rfl := Option.some.inj hstep
        exact ⟨h, by simp only [Outcome, if_pos hn]⟩
      · rename_i hn
        obtain rfl := Option.some.inj hstep
        obtain ⟨hinv, hcount⟩ := h.increase hlive hroom
        exact ⟨hinv, by simpa only [Outcome, if_neg hn] using ⟨hcount, trivial⟩⟩
  | decrease n =>
      obtain ⟨hle, hstep⟩ := Option.ite_none_right_eq_some.mp hstep
      split at hstep
      · rename_i hn
        obtain rfl := Option.some.inj hstep
        exact ⟨h, by simp only [Outcome, if_pos hn]⟩
      · rename_i hn
        obtain rfl := Option.some.inj hstep
        obtain ⟨hinv, hcount⟩ := h.decrease hn hle
        exact ⟨hinv, by simpa only [Outcome, if_neg hn] using ⟨hcount, Nat.sub_add_cancel hle⟩⟩
  | suspend =>
      obtain ⟨hlive, heq⟩ := Option.ite_none_right_eq_some.mp hstep
      obtain rfl := Option.some.inj heq
      exact ⟨h.suspend hlive, trivial⟩
  | park =>
      obtain ⟨hlive, heq⟩ := Option.ite_none_right_eq_some.mp hstep
      obtain rfl := Option.some.inj heq
      have hpos : 0 < s.total := by unfold total; omega
      refine ⟨h.moved hpos ?_ rfl rfl rfl rfl rfl h.loaded, trivial⟩
      unfold total
      simp only
      omega
  | resubmit =>
      obtain ⟨⟨hparked, hq⟩, heq⟩ := Option.ite_none_right_eq_some.mp hstep
      obtain rfl := Option.some.inj heq
      have hpos : 0 < s.total := by unfold total; omega
      refine ⟨h.moved hpos ?_ rfl rfl rfl rfl rfl fun _ => rfl, trivial⟩
      unfold total
      simp only [hq, Bool.false_eq_true, if_true, if_false]
      omega
  | clearWaiting =>
      obtain ⟨hc, heq⟩ := Option.ite_none_right_eq_some.mp hstep
      obtain rfl := Option.some.inj heq
      exact ⟨h.clearWaiting hc, trivial⟩
  | endExecution =>
      obtain ⟨hlive, heq⟩ := Option.ite_none_right_eq_some.mp hstep
      obtain rfl := Option.some.inj heq
      exact ⟨h.endExecution hlive, trivial⟩
  | complete =>
      obtain ⟨hc, heq⟩ := Option.ite_none_right_eq_some.mp hstep
      obtain rfl := Option.some.inj heq
      exact (h.complete hc).symm

/-- A counter that is still exact has had room. -/
theorem Inv.room_of_exact {m : CountMove} (h : s.Inv) (hexact : s.Exact m) : s.Room m := by
  intro hsome
  obtain ⟨s', hstep⟩ := Option.isSome_iff_exists.mp hsome
  obtain ⟨hcounted, -⟩ := hexact s' hstep
  have hlt : s'.idle = false → s'.total < taskWaitingForEvents := by
    intro hi
    rw [← hcounted.count hi]
    exact Nat.mod_lt _ (by decide)
  cases m with
  | increase n =>
      obtain ⟨hlive, hstep⟩ := Option.ite_none_right_eq_some.mp hstep
      have hfit := h.fit
      split at hstep
      · rename_i hn
        rwa [hn]
      · obtain rfl := Option.some.inj hstep
        have hbusy := h.busy (by unfold total; omega)
        have hnew := hlt hbusy
        unfold total at hnew ⊢
        simp only at hnew
        omega
  | handOut =>
      intro degree hl hstays
      have hq : s.queued = true := h.loaded (by rw [hl]; exact Option.some_ne_none _)
      simp only [step] at hstep
      rw [hl] at hstep
      obtain rfl := Option.some.inj hstep
      have hbusy : s.idle = false := h.busy (by unfold total; rw [hq]; simp only [if_true]; omega)
      have hnew := hlt hbusy
      unfold total at hnew ⊢
      simp only [hstays, hq, Bool.not_false, if_true] at hnew ⊢
      omega
  | _ => trivial

/-- In every run the counter is exact, and the task is completed when it is
over and not before, exactly as long as no event and no execution that is
added reaches the flag. -/
theorem counts_exact (moves : List CountMove) :
    Along step Exact init moves ↔ Along step Room init moves := by
  refine along_iff_of_invariant (R := fun _ _ => True) (I := Inv) (fun s m s' _ hroom hstep h =>
    (inv_step hroom hstep h).1) (fun s m _ h => ⟨h.room_of_exact, fun hroom s' hstep => ?_⟩)
    (along_of_forall_mem fun _ _ _ => trivial) inv_init
  obtain ⟨hinv, hout⟩ := inv_step hroom hstep h
  exact ⟨hinv.counted, hout⟩

/-- An increase by `2 ^ 32` is not seen by the counter: the task is completed
when its body ends, with all the events pending. -/
theorem increase_lost :
    ¬ ∀ moves, Along step Exact init moves := by
  intro hall
  have halong := hall ([.submit, .readDegree, .handOut, .increase 4294967296, .endExecution]
    ++ [.complete])
  have heval : (run step init [.submit, .readDegree, .handOut, .increase 4294967296,
      .endExecution]).map (fun s => (s.events, (s.step .complete).isSome)) = some (4294967296, true) := by
    decide +kernel
  obtain ⟨s, hrun, hval⟩ := Option.map_eq_some_iff.mp heval
  obtain ⟨hevents, hsome⟩ := Prod.mk.injEq .. |>.mp hval
  obtain ⟨s', hstep⟩ := Option.isSome_iff_exists.mp hsome
  have hover : s.total = 0 := (along_last hrun halong s' hstep).2.2
  unfold total at hover
  omega

end EventCount

end Nosv
