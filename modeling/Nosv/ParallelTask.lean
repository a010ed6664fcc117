import Nosv.Lib.Run
import Nosv.Runtime

/-!
# One parallel task

The life of one submission of a task of degree `d`, as an interleaving of
the atomic operations on its descriptor. The server of the scheduler hands
out executions while the task is in a queue: it reads the degree once
(`readDegree`), and what it does next depends on that value only
(`handOut`). The executions cancel the task, register events and end; any
thread takes events back. Whoever brings `event_count` to zero calls
`task_complete`.

`event_count` is one for the queue, one for every execution in progress
and one for every event, so it can only be zero when all are over. That
reading needs the counter to stay below the bit `TASK_WAITING_FOR_EVENTS`:
the degree and the events together, not the events alone, must stay below
`2 ^ 31`.
-/

namespace Nosv

open Run

/-- The value of a `uint32_t` of value `m` after subtracting `n`. -/
def u32Sub (m n : Nat) : Nat :=
  let n := u32 n
  if n ≤ m then m - n else m + 4294967296 - n

/-- `TASK_WAITING_FOR_EVENTS` -/
def taskWaitingForEvents : Nat := 2147483648

/-! ## The operations on the descriptor -/

namespace Task

/-- `scheduler_get_from_queue` on the task at the head of a queue, after it
has read `degree`; the second component tells whether the task is popped. -/
def handOut (k : Task) (degree : Int) : Task × Bool :=
  let k := { k with scheduledCount := u32 (k.scheduledCount + 1) }
  if degree < 0 ∨ degree ≤ k.scheduledCount then (k, true)
  else ({ k with eventCount := u32 (k.eventCount + 1) }, false)

/-- The end of `task_execute` for a task that does not suspend; the second
component tells whether `task_complete` is called. -/
def endExecution (k : Task) : Task × Bool :=
  let count := u32Sub k.eventCount 1
  ({ k with blockingCount := 1, eventCount := count }, count == 0)

/-- `nosv_increase_event_counter` -/
def increaseEvents (k : Task) (n : Nat) : Task := { k with eventCount := u32 (k.eventCount + n) }

/-- The subtraction of `nosv_decrease_event_counter`; the other components
tell whether the task is submitted and whether `task_complete` is called. -/
def decreaseEvents (k : Task) (n : Nat) : Task × Bool × Bool :=
  let r := u32Sub k.eventCount n
  ({ k with eventCount := r }, taskWaitingForEvents ≤ r && r % taskWaitingForEvents == 1, r == 0)

/-- The flag of `event_count` is cleared before the task is submitted. -/
def clearWaiting (k : Task) : Task :=
  { k with eventCount := k.eventCount % taskWaitingForEvents }

end Task

namespace Task

theorem handOut_pops {k : Task} {degree : Int}
    (h : degree < 0 ∨ degree ≤ u32 (k.scheduledCount + 1)) :
    k.handOut degree = ({ k with scheduledCount := u32 (k.scheduledCount + 1) }, true) :=
  if_pos h

theorem handOut_stays {k : Task} {degree : Int}
    (h : ¬ (degree < 0 ∨ degree ≤ u32 (k.scheduledCount + 1))) :
    k.handOut degree = ({ k with scheduledCount := u32 (k.scheduledCount + 1)
                                 eventCount := u32 (k.eventCount + 1) }, false) :=
  if_neg h

end Task

/-- The scheduler of the whole model treats the task at the head of a queue
the same way. -/
theorem schedulerGetFromQueue_handOut {s s' : Scheduler} {p : Nat} {i : QueueId} {t : TaskId}
    {removed : Int} (h : schedulerGetFromQueue s p i = (some (t, removed), s')) :
    schedulerFindInQueue ((s.proc p).queues i) = some t ∧
      match (s.task t).handOut (taskGetDegree (s.task t)) with
      | (k, true) => s' = popQueue (s.modTask t fun _ => k) p i t
      | (k, false) => s' = s.modTask t fun _ => k := by
  unfold schedulerGetFromQueue at h
  split at h
  · cases h
  · rename_i u hfind
    have hcount : ((schedule s u).task u).scheduledCount = u32 ((s.task u).scheduledCount + 1) := by
      simp [schedule, Scheduler.modTask]
    have hschedule : schedule s u = s.modTask u fun _ =>
        { s.task u with scheduledCount := u32 ((s.task u).scheduledCount + 1) } := by
      simp [schedule, Scheduler.modTask]
    simp only [hcount] at h
    by_cases hlast : (s.task u).degree < 0
        ∨ (s.task u).degree ≤ u32 ((s.task u).scheduledCount + 1)
    · rw [if_pos hlast] at h
      obtain ⟨ht, rfl⟩ := Prod.mk.injEq .. |>.mp h
      obtain ⟨rfl, -⟩ := Prod.mk.injEq .. |>.mp (Option.some.inj ht)
      refine ⟨hfind, ?_⟩
      rw [taskGetDegree, Task.handOut_pops hlast, hschedule]
    · rw [if_neg hlast] at h
      obtain ⟨ht, rfl⟩ := Prod.mk.injEq .. |>.mp h
      obtain ⟨rfl, -⟩ := Prod.mk.injEq .. |>.mp (Option.some.inj ht)
      refine ⟨hfind, ?_⟩
      rw [taskGetDegree, Task.handOut_stays hlast, hschedule]
      simp [Scheduler.modTask]

/-! ## Steps -/

structure Parallel where
  task : Task
  /-- the task is in a queue of the scheduler -/
  queued : Bool
  /-- the degree that a `scheduler_get_from_queue` in progress has read -/
  loaded : Option Int
  /-- the executions in progress -/
  live : List Nat
  /-- events registered and not yet taken back -/
  events : Nat
  /-- calls that are about to clear the flag and submit the task -/
  clearing : Nat
  /-- calls that are about to run `task_complete` -/
  completing : Nat
  /-- calls of `scheduler_submit_single` -/
  pushed : Nat
  /-- calls of `task_complete` -/
  completed : Nat
  /-- the executions handed out -/
  handed : List Nat
  /-- a `nosv_cancel` has succeeded -/
  cancelled : Bool
  /-- executions handed out by a get that came after that -/
  late : Nat
  /-- all the events ever registered -/
  registered : Nat

inductive Move where
  | readDegree
  | handOut
  | endExecution (id : Nat)
  | cancel (id : Nat)
  | increase (id n : Nat)
  | decrease (n : Nat)
  | clearWaiting
  | complete

namespace Parallel

/-- A task of degree `d` that has been submitted. -/
def init (d : Nat) : Parallel where
  task := { nosvCreateInternal 0 ⟨.none, .preferred, 0⟩ with degree := d }
  queued := true
  loaded := none
  live := []
  events := 0
  clearing := 0
  completing := 0
  pushed := 0
  completed := 0
  handed := []
  cancelled := false
  late := 0
  registered := 0

def step (s : Parallel) : Move → Option Parallel
  | .readDegree =>
      if s.queued = true ∧ s.loaded = none then
        some { s with loaded := some (taskGetDegree s.task),
                      late := if s.cancelled then s.late + 1 else s.late }
      else none
  | .handOut =>
      match s.loaded with
      | none => none
      | some degree =>
          let (k, popped) := s.task.handOut degree
          some { s with
            task := k, loaded := none, queued := !popped
            live := k.scheduledCount :: s.live
            handed := s.handed ++ [k.scheduledCount] }
  | .endExecution id =>
      let (k, completes) := s.task.endExecution
      if id ∈ s.live then
        some { s with task := k, live := s.live.erase id,
                      completing := if completes then s.completing + 1 else s.completing }
      else none
  | .cancel id =>
      if id ∈ s.live then
        match nosvCancel s.task with
        | none => some s
        | some k => some { s with task := k, cancelled := true }
      else none
  | .increase id n =>
      if id ∈ s.live ∧ 0 < n then
        some { s with task := s.task.increaseEvents n, events := s.events + n,
                      registered := s.registered + n }
      else none
  | .decrease n =>
      let (k, submits, completes) := s.task.decreaseEvents n
      if 0 < n ∧ n ≤ s.events then
        some { s with
          task := k, events := s.events - n
          clearing := if submits then s.clearing + 1 else s.clearing
          completing := if completes then s.completing + 1 else s.completing }
      else none
  | .clearWaiting =>
      if 0 < s.clearing then
        some { s with task := s.task.clearWaiting, clearing := s.clearing - 1,
                      pushed := s.pushed + 1 }
      else none
  | .complete =>
      if 0 < s.completing then
        some { s with task := taskComplete s.task, completing := s.completing - 1,
                      completed := s.completed + 1 }
      else none

/-- The task has left the queues, its executions have ended and its events
have been taken back. -/
def Over (s : Parallel) : Prop := s.queued = false ∧ s.live = [] ∧ s.events = 0

instance (s : Parallel) : Decidable s.Over := inferInstanceAs (Decidable (_ ∧ _ ∧ _))

end Parallel

/-- What is claimed of a task of degree `d`. -/
structure Follows (d : Nat) (s : Parallel) : Prop where
  ids : s.handed = List.range' 1 s.handed.length
  most : s.handed.length ≤ d
  all : s.queued = false → s.cancelled = false → s.handed.length = d
  late : s.late ≤ 1
  once : s.completed ≤ 1
  after : 0 < s.completed → s.Over
  completes : s.Over → s.completing + s.completed = 1
  submitted : s.pushed = 0

/-- The degree and the pending events fit `event_count`. -/
def EventsFit (d : Nat) (s : Parallel) : Move → Prop
  | .increase _ n => d + s.events + n < taskWaitingForEvents
  | _ => True

instance (d : Nat) (s : Parallel) (m : Move) : Decidable (EventsFit d s m) := by
  cases m <;> (dsimp only [EventsFit]; infer_instance)

/-! ## The invariant -/

structure Parallel.Inv (d : Nat) (s : Parallel) : Prop where
  degree : s.task.degree = if s.cancelled then -(d : Int) else d
  ids : s.handed = List.range' 1 s.handed.length
  count : s.completed = 0 → s.task.scheduledCount = s.handed.length
  room : s.queued = true → s.handed.length < d
  left : s.queued = false → s.handed.length ≤ d ∧ (s.cancelled = false → s.handed.length = d)
  loaded : ∀ δ ∈ s.loaded, s.queued = true ∧ (δ = d ∨ (δ = -(d : Int) ∧ s.cancelled = true))
  early : s.cancelled = false → s.late = 0
  late : s.late ≤ 1
  lateLoaded : s.queued = true → 0 < s.late → s.loaded = some (-(d : Int))
  live : s.live.length ≤ s.handed.length
  fit : d + s.events < taskWaitingForEvents
  events : s.completing + s.completed = 0 →
    s.task.eventCount = (if s.queued then 1 else 0) + s.live.length + s.events
  once : s.completing + s.completed ≤ 1
  ended : 0 < s.completing + s.completed ↔ s.Over
  quiet : s.clearing = 0 ∧ s.pushed = 0

theorem u32Sub_of_le {m n : Nat} (hle : n ≤ m) (hm : m < 4294967296) : u32Sub m n = m - n := by
  unfold u32Sub
  rw [u32_of_lt (by omega)]
  exact if_pos hle

namespace Parallel

variable {d : Nat} {s s' : Parallel}

/-- While the task is not over, `event_count` is below the flag. -/
theorem Inv.eventCount_lt (h : s.Inv d) (hrun : s.completing + s.completed = 0) :
    s.task.eventCount < taskWaitingForEvents := by
  have hev := h.events hrun
  have hfit := h.fit
  have hlive := h.live
  cases hq : s.queued with
  | true =>
      have hroom := h.room hq
      rw [hq] at hev
      simp only [if_true] at hev
      omega
  | false =>
      have hleft := (h.left hq).1
      rw [hq] at hev
      simp only [Bool.false_eq_true, if_false] at hev
      omega

theorem Inv.running (h : s.Inv d) (hover : ¬ s.Over) : s.completing + s.completed = 0 := by
  by_contra hne
  exact hover (h.ended.mp (by omega))

theorem Inv.readDegree (h : s.Inv d) (hq : s.queued = true) (hnone : s.loaded = none) :
    Inv d { s with loaded := some (taskGetDegree s.task),
                   late := if s.cancelled then s.late + 1 else s.late } := by
  have hzero : s.late = 0 := by
    by_contra hne
    have := h.lateLoaded hq (Nat.pos_of_ne_zero hne)
    rw [hnone] at this
    cases this
  have hdegree := h.degree
  refine ⟨h.degree, h.ids, h.count, h.room, h.left, fun δ hδ => ?_, fun hc => ?_, ?_,
    fun _ hpos => ?_, h.live, h.fit, h.events, h.once, h.ended, h.quiet⟩
  · obtain rfl := Option.some.inj hδ
    refine ⟨hq, ?_⟩
    unfold taskGetDegree
    rw [hdegree]
    cases hc : s.cancelled with
    | true => exact Or.inr ⟨rfl, rfl⟩
    | false => exact Or.inl rfl
  · simp only at hc
    simp [hc, hzero]
  · simp only [hzero]
    split <;> omega
  · simp only [hzero] at hpos ⊢
    split at hpos
    · rename_i hc
      simp only [taskGetDegree, hdegree, if_pos hc]
    · omega

theorem Inv.unfinished (h : s.Inv d) (hq : s.queued = true) : s.completing + s.completed = 0 :=
  h.running fun ho => by simp [Over, hq] at ho

/-- The identifier of the next execution. -/
theorem Inv.next (h : s.Inv d) (hq : s.queued = true) :
    u32 (s.task.scheduledCount + 1) = s.handed.length + 1 := by
  have hroom := h.room hq
  have hfit := h.fit
  have hrun := h.unfinished hq
  rw [h.count (by omega)]
  refine u32_of_lt ?_
  unfold taskWaitingForEvents at hfit
  omega

theorem Inv.ids_next (h : s.Inv d) :
    s.handed ++ [s.handed.length + 1]
      = List.range' 1 (s.handed ++ [s.handed.length + 1]).length := by
  rw [List.length_append, List.length_singleton, List.range'_concat, ← h.ids]
  simp [Nat.add_comm]

/-- The last hand-out: the task leaves the queue. -/
theorem Inv.handOut_last {degree : Int} (h : s.Inv d) (hl : s.loaded = some degree)
    (hlast : degree < 0 ∨ degree ≤ (s.handed.length + 1 : Nat)) :
    Inv d { s with
      task := { s.task with scheduledCount := s.handed.length + 1 }, loaded := none
      queued := false, live := (s.handed.length + 1) :: s.live
      handed := s.handed ++ [s.handed.length + 1] } := by
  obtain ⟨hq, hδ⟩ := h.loaded degree hl
  have hroom := h.room hq
  have hrun := h.unfinished hq
  have hev := h.events hrun
  rw [hq] at hev
  refine ⟨h.degree, h.ids_next, fun _ => ?_, fun hq' => ?_, fun _ => ⟨?_, fun hc => ?_⟩,
    fun δ hδ' => ?_, h.early, h.late, fun hq' => ?_, ?_, h.fit, fun _ => ?_, h.once, ?_, h.quiet⟩
  · simp
  · cases hq'
  · simp only [List.length_append, List.length_singleton]
    omega
  · -- not cancelled, so the degree that was read is `d`
    simp only at hc
    simp only [hc, Bool.false_eq_true, and_false, or_false] at hδ
    simp only [List.length_append, List.length_singleton]
    omega
  · cases hδ'
  · cases hq'
  · have := h.live
    simp only [List.length_append, List.length_cons, List.length_nil]
    omega
  · simp only [if_true] at hev
    simp only [hev, Bool.false_eq_true, if_false, List.length_cons]
    omega
  · simp only [Over, hrun, reduceCtorEq, false_and, and_false, Nat.lt_irrefl]

/-- Any other hand-out: `event_count` counts one execution more. -/
theorem Inv.handOut_more {degree : Int} (h : s.Inv d) (hl : s.loaded = some degree)
    (hmore : ¬ (degree < 0 ∨ degree ≤ (s.handed.length + 1 : Nat))) :
    Inv d { s with
      task := { s.task with scheduledCount := s.handed.length + 1
                            eventCount := s.task.eventCount + 1 }
      loaded := none, live := (s.handed.length + 1) :: s.live
      handed := s.handed ++ [s.handed.length + 1] } := by
  obtain ⟨hq, hδ⟩ := h.loaded degree hl
  have hrun := h.unfinished hq
  have hev := h.events hrun
  rw [not_or, not_lt, not_le] at hmore
  have hdeg : degree = d := by
    rcases hδ with heq | ⟨heq, -⟩ <;> omega
  have hlate : s.late = 0 := by
    by_contra hne
    have hsome := h.lateLoaded hq (Nat.pos_of_ne_zero hne)
    rw [hl] at hsome
    have := Option.some.inj hsome
    omega
  refine ⟨h.degree, h.ids_next, fun _ => ?_, fun _ => ?_, fun hq' => ?_, fun δ hδ' => ?_,
    h.early, h.late, fun _ hpos => ?_, ?_, h.fit, fun _ => ?_, h.once, ?_, h.quiet⟩
  · simp
  · simp only [List.length_append, List.length_singleton]
    omega
  · simp only [hq, Bool.true_eq_false] at hq'
  · cases hδ'
  · simp only [hlate, Nat.lt_irrefl] at hpos
  · have := h.live
    simp only [List.length_append, List.length_cons, List.length_nil]
    omega
  · simp only [hev, List.length_cons]
    omega
  · simp only [Over, hrun, hq, reduceCtorEq, false_and, and_false, Nat.lt_irrefl]

theorem Inv.handOut {degree : Int} (h : s.Inv d) (hl : s.loaded = some degree) :
    Inv d { s with
      task := (s.task.handOut degree).1, loaded := none, queued := !(s.task.handOut degree).2
      live := (s.task.handOut degree).1.scheduledCount :: s.live
      handed := s.handed ++ [(s.task.handOut degree).1.scheduledCount] } := by
  obtain ⟨hq, -⟩ := h.loaded degree hl
  have hnext := h.next hq
  by_cases hlast : degree < 0 ∨ degree ≤ (s.handed.length + 1 : Nat)
  · simp only [Task.handOut, hnext, if_pos hlast, Bool.not_true]
    exact h.handOut_last hl hlast
  · have hlt := h.eventCount_lt (h.unfinished hq)
    have hadd : u32 (s.task.eventCount + 1) = s.task.eventCount + 1 := by
      refine u32_of_lt ?_
      unfold taskWaitingForEvents at hlt
      omega
    simp only [Task.handOut, hnext, hadd, if_neg hlast, Bool.not_false]
    have hmore := h.handOut_more hl hlast
    rw [hq] at hmore
    exact hmore

/-- The counter goes down by `n`, for executions that end or events that
are taken back; whoever reaches zero completes the task. -/
theorem Inv.subtract {live : List Nat} {events n : Nat} {k : Task} {completes : Bool} (h : s.Inv d)
    (hover : ¬ s.Over) (hn : 0 < n)
    (hsum : live.length + events + n = s.live.length + s.events)
    (hlive : live.length ≤ s.live.length) (hevents : events ≤ s.events)
    (hdegree : k.degree = s.task.degree) (hcount : k.scheduledCount = s.task.scheduledCount)
    (hev : k.eventCount = u32Sub s.task.eventCount n)
    (hcompletes : completes = true ↔ k.eventCount = 0) :
    k.eventCount < taskWaitingForEvents ∧
    Inv d { s with task := k, live := live, events := events,
                   completing := if completes then s.completing + 1 else s.completing } := by
  have hrun := h.running hover
  have hsum₀ := h.events hrun
  have hlt := h.eventCount_lt hrun
  have hval : k.eventCount = (if s.queued then 1 else 0) + live.length + events := by
    rw [hev, u32Sub_of_le (by omega) (by unfold taskWaitingForEvents at hlt; omega), hsum₀]
    omega
  have hzero : k.eventCount = 0 ↔ s.queued = false ∧ live = [] ∧ events = 0 := by
    rw [hval, ← List.length_eq_zero_iff]
    cases s.queued <;> simp
  refine ⟨by rw [hval]; omega, ?_⟩
  have hfit := h.fit
  have hl := h.live
  refine ⟨hdegree.trans h.degree, h.ids, fun hc => hcount.trans (h.count hc), h.room, h.left, h.loaded,
    h.early, h.late, h.lateLoaded, by simp only; omega, by simp only; omega, fun _ => hval, ?_, ?_,
    h.quiet⟩
  · simp only
    split <;> omega
  · simp only [Over]
    rw [← hzero, ← hcompletes]
    cases completes
    · simp only [Bool.false_eq_true, if_false, iff_false]
      omega
    · simp only [if_true, iff_true]
      omega

theorem Inv.endExecution {id : Nat} (h : s.Inv d) (hid : id ∈ s.live) :
    Inv d { s with task := s.task.endExecution.1, live := s.live.erase id,
                   completing := if s.task.endExecution.2 then s.completing + 1
                     else s.completing } := by
  have hlen := List.length_erase_of_mem hid
  have hpos := List.length_pos_of_mem hid
  have hover : ¬ s.Over := fun ho => by
    rw [ho.2.1] at hid
    cases hid
  have hev : s.task.endExecution.1.eventCount = u32Sub s.task.eventCount 1 := by
    simp only [Task.endExecution]
  have hiff : s.task.endExecution.2 = true ↔ s.task.endExecution.1.eventCount = 0 := by
    simp only [Task.endExecution, beq_iff_eq]
  refine (h.subtract hover Nat.one_pos ?_ ?_ (le_refl _) ?_ ?_ hev hiff).2
  · omega
  · omega
  · simp only [Task.endExecution]
  · simp only [Task.endExecution]

theorem Inv.decrease {n : Nat} (h : s.Inv d) (hn : 0 < n) (hle : n ≤ s.events) :
    Inv d { s with
      task := (s.task.decreaseEvents n).1, events := s.events - n
      clearing := if (s.task.decreaseEvents n).2.1 then s.clearing + 1 else s.clearing
      completing := if (s.task.decreaseEvents n).2.2 then s.completing + 1
        else s.completing } := by
  have hover : ¬ s.Over := fun ho => by
    have := ho.2.2
    omega
  have hsub : (s.task.decreaseEvents n).1.eventCount < taskWaitingForEvents ∧
      Inv d { s with
        task := (s.task.decreaseEvents n).1, events := s.events - n
        completing := if (s.task.decreaseEvents n).2.2 then s.completing + 1
          else s.completing } := by
    refine h.subtract hover hn ?_ (le_refl _) ?_ ?_ ?_ ?_ ?_
    · omega
    · omega
    all_goals simp only [Task.decreaseEvents, beq_iff_eq]
  have hflag : (s.task.decreaseEvents n).2.1 = false := by
    have hlt := hsub.1
    simp only [Task.decreaseEvents, Bool.and_eq_false_iff, decide_eq_false_iff_not, not_le] at hlt ⊢
    exact Or.inl hlt
  rw [hflag]
  exact hsub.2

theorem Inv.increase {id n : Nat} (h : s.Inv d) (hid : id ∈ s.live)
    (hfit : d + s.events + n < taskWaitingForEvents) :
    Inv d { s with task := s.task.increaseEvents n, events := s.events + n,
                   registered := s.registered + n } := by
  have hover : ¬ s.Over := fun ho => by
    rw [ho.2.1] at hid
    cases hid
  have hrun := h.running hover
  have hev := h.events hrun
  have hlt := h.eventCount_lt hrun
  have hadd : u32 (s.task.eventCount + n) = s.task.eventCount + n := by
    refine u32_of_lt ?_
    unfold taskWaitingForEvents at *
    omega
  have hbound := h.fit
  refine ⟨h.degree, h.ids, h.count, h.room, h.left, h.loaded, h.early, h.late, h.lateLoaded, h.live,
    ?_, fun _ => ?_, h.once, ?_, h.quiet⟩
  · simp only
    omega
  · simp only [Task.increaseEvents]
    rw [hadd, hev]
    omega
  · have hnil : s.live ≠ [] := List.ne_nil_of_mem hid
    simp [Over, hrun, hnil]

theorem Inv.cancel (h : s.Inv d) (hd : 0 < d) {k : Task} (hk : nosvCancel s.task = some k) :
    Inv d { s with task := k, cancelled := true } := by
  unfold nosvCancel at hk
  split at hk
  · cases hk
  · rename_i hdegree
    obtain rfl := Option.some.inj hk
    have hneg := h.degree
    have hnot : s.cancelled = false := by
      by_contra hne
      rw [if_pos (by simpa using hne)] at hneg
      omega
    rw [hnot] at hneg
    refine ⟨?_, h.ids, h.count, h.room, fun hq => ⟨(h.left hq).1, fun hc => ?_⟩, fun δ hδ => ?_,
      fun hc => ?_, h.late, h.lateLoaded, h.live, h.fit, h.events, h.once, h.ended, h.quiet⟩
    · simpa using hneg
    · cases hc
    · obtain ⟨hq, hd | ⟨-, hc⟩⟩ := h.loaded δ hδ
      · exact ⟨hq, Or.inl hd⟩
      · rw [hnot] at hc
        cases hc
    · cases hc

theorem Inv.complete (h : s.Inv d) (hc : 0 < s.completing) :
    Inv d { s with task := taskComplete s.task, completing := s.completing - 1,
                   completed := s.completed + 1 } := by
  have hover := h.ended.mp (by omega)
  have honce := h.once
  refine ⟨h.degree, h.ids, fun hz => ?_, h.room, h.left, h.loaded, h.early, h.late, h.lateLoaded,
    h.live, h.fit, fun hz => ?_, ?_, ?_, h.quiet⟩
  · cases hz
  · simp only at hz
    omega
  · simp only
    omega
  · simp only [Over] at hover ⊢
    exact ⟨fun _ => hover, fun _ => by omega⟩

theorem inv_step {m : Move} (hd : 0 < d) (hfit : EventsFit d s m) (hstep : s.step m = some s')
    (h : s.Inv d) : s'.Inv d := by
  cases m with
  | readDegree =>
      simp only [step] at hstep
      split at hstep
      · rename_i hg
        obtain rfl := Option.some.inj hstep
        exact h.readDegree hg.1 hg.2
      · cases hstep
  | handOut =>
      simp only [step] at hstep
      split at hstep
      · cases hstep
      · rename_i degree hl
        obtain rfl := Option.some.inj hstep
        exact h.handOut hl
  | endExecution id =>
      simp only [step] at hstep
      split at hstep
      · rename_i hid
        obtain rfl := Option.some.inj hstep
        exact h.endExecution hid
      · cases hstep
  | cancel id =>
      simp only [step] at hstep
      split at hstep
      · split at hstep
        · obtain rfl := Option.some.inj hstep
          exact h
        · rename_i k hk
          obtain rfl := Option.some.inj hstep
          exact h.cancel hd hk
      · cases hstep
  | increase id n =>
      simp only [step] at hstep
      split at hstep
      · rename_i hg
        obtain rfl := Option.some.inj hstep
        exact h.increase hg.1 hfit
      · cases hstep
  | decrease n =>
      simp only [step] at hstep
      split at hstep
      · rename_i hg
        obtain rfl := Option.some.inj hstep
        exact h.decrease hg.1 hg.2
      · cases hstep
  | clearWaiting =>
      simp only [step] at hstep
      split at hstep
      · rename_i hg
        have := h.quiet.1
        omega
      · cases hstep
  | complete =>
      simp only [step] at hstep
      split at hstep
      · rename_i hg
        obtain rfl := Option.some.inj hstep
        exact h.complete hg
      · cases hstep

theorem inv_init (hd : 0 < d) (hfit : d < taskWaitingForEvents) : (init d).Inv d := by
  refine ⟨rfl, rfl, fun _ => rfl, fun _ => hd, fun hq => ?_, fun δ hδ => ?_, fun _ => rfl, ?_,
    fun _ hpos => ?_, le_refl _, hfit, fun _ => rfl, Nat.zero_le 1, ?_, ⟨rfl, rfl⟩⟩
  · cases hq
  · cases hδ
  · exact Nat.zero_le 1
  · cases hpos
  · simp [init, Over]

theorem Inv.follows (h : s.Inv d) : Follows d s := by
  have honce := h.once
  refine ⟨h.ids, ?_, fun hq hc => (h.left hq).2 hc, h.late, by omega, fun hpos => ?_, fun ho => ?_,
    h.quiet.2⟩
  · cases hq : s.queued with
    | true => exact le_of_lt (h.room hq)
    | false => exact (h.left hq).1
  · exact h.ended.mp (by omega)
  · have := h.ended.mpr ho
    omega

end Parallel

/-- A task of degree `d` hands out the executions `1` to `k`, all of them if
it is not cancelled and at most one after it is, and completes once, when
everything is over. -/
theorem parallel_follows (d : Nat) (hd : 0 < d) (hfit : d < taskWaitingForEvents)
    (moves : List Move) (s : Parallel) (hrun : run Parallel.step (.init d) moves = some s)
    (hC : Along Parallel.step (EventsFit d) (.init d) moves) : Follows d s := by
  have h : s.Inv d := invariant_along
    (fun _ _ _ hfit' hstep hinv => Parallel.inv_step hd hfit' hstep hinv) hC hrun
    (Parallel.inv_init hd hfit)
  exact h.follows

/-- A task of degree three that is cancelled by its first execution, with
two events. -/
theorem parallel_follows_cancelled :
    ∃ s, run Parallel.step (.init 3) [.readDegree, .handOut, .increase 1 2, .cancel 1, .readDegree,
        .handOut, .endExecution 1, .decrease 2, .endExecution 2, .complete] = some s
      ∧ Follows 3 s ∧ s.completed = 1 := by
  have heval : (run Parallel.step (.init 3) [.readDegree, .handOut, .increase 1 2, .cancel 1,
      .readDegree, .handOut, .endExecution 1, .decrease 2, .endExecution 2, .complete]).map
        (·.completed) = some 1 := by
    decide +kernel
  obtain ⟨s, hrun, hval⟩ := Option.map_eq_some_iff.mp heval
  exact ⟨s, hrun, parallel_follows 3 (by decide) (by decide) _ s hrun (by decide +kernel), hval⟩

/-- All events together fit `event_count`, whatever the degree is. -/
def TotalFits (s : Parallel) : Move → Prop
  | .increase _ n => s.registered + n < taskWaitingForEvents
  | _ => True

instance (s : Parallel) (m : Move) : Decidable (TotalFits s m) := by
  cases m <;> (dsimp only [TotalFits]; infer_instance)

/-- With `2 ^ 31 - 1` events on a task of degree three the counter reaches
the flag: one event less looks like a task that waited for its last event,
the flag is cleared, and the end of the first execution completes the task
while another one is in progress. -/
theorem many_events_complete_early :
    ¬ ∀ (moves : List Move) (s : Parallel), run Parallel.step (.init 3) moves = some s →
      Along Parallel.step TotalFits (.init 3) moves → Follows 3 s := by
  intro hall
  have heval : (run Parallel.step (.init 3) [.readDegree, .handOut, .readDegree, .handOut,
      .increase 1 2147483647, .decrease 1, .clearWaiting, .endExecution 1, .complete]).map
        (fun s => (s.completed, s.live)) = some (1, [2]) := by
    decide +kernel
  obtain ⟨s, hrun, hval⟩ := Option.map_eq_some_iff.mp heval
  obtain ⟨hcompleted, hlive⟩ := Prod.mk.injEq .. |>.mp hval
  have hover := (hall _ s hrun (by decide +kernel)).after (by omega)
  rw [hover.2.1] at hlive
  cases hlive

end Nosv
