import Nosv.RuntimeSteps

/-!
# Where a task is

The invariant behind everything that is proved of whole runs: a task that
is submitted is in the in-queue or stored by the scheduler, once; a task
that executes is in neither, unless it is parallel and the scheduler still
has executions of it; and the blocking count of an ordinary task tells
whether the next `nosv_submit` pushes it.

`TaskOk` is the part of it that concerns one task, so that a call is
checked on the descriptor it writes (`Placed.put`, `Placed.put_running`).
-/

namespace Nosv

open RBTree Relation Places

structure TaskOk (topo : Topology) (k : Task) (i : TaskInfo) : Prop where
  valid : k.affinity.Valid topo
  live : 0 < i.live → i.phase = .running ∨ (i.phase = .queued ∧ taskIsParallel k = true)
  single : taskIsParallel k = false → i.live ≤ 1
  parallel : taskIsParallel k = true →
    i.phase = .idle ∨ i.phase = .queued ∨ i.phase = .running ∨ i.phase = .ended
  rest : i.phase = .idle ∨ i.phase = .paused ∨ i.phase = .ended → k.blockingCount = 1
  busy : taskIsParallel k = false → i.phase ≠ .idle → i.phase ≠ .paused → i.phase ≠ .ended →
    CountTaken k.blockingCount
  suspend : k.suspend = true →
    taskIsParallel k = false ∧ i.phase ≠ .idle ∧ i.phase ≠ .ended

structure Placed (topo : Topology) (r : Runtime) : Prop where
  base : Base topo r.sched
  tasks : ∀ t, TaskOk topo (r.task t) (r.info t)
  pushed : ∀ e ∈ r.inQueue, (r.info e.1).phase = .queued ∧ (r.info e.1).live = 0
    ∧ Absent r.sched.places e.1
  nodup : (r.inQueue.map Prod.fst).Nodup
  stored : ∀ x t, t ∈ r.sched.places x → (r.info t).phase = .queued

variable {topo : Topology} {r r' : Runtime} {t : TaskId}

/-! ## Writes to one task -/

theorem Placed.absent (h : Placed topo r) (hph : (r.info t).phase ≠ .queued) :
    Absent r.sched.places t := fun x hx => hph (h.stored x t hx)

theorem Placed.not_pushed (h : Placed topo r)
    (ht : (r.info t).phase ≠ .queued ∨ 0 < (r.info t).live) :
    ∀ e ∈ r.inQueue, e.1 ≠ t := by
  rintro e he rfl
  obtain ⟨hph, hlive, -⟩ := h.pushed e he
  rcases ht with hne | hpos
  · exact hne hph
  · omega

/-- What `Runtime.put` leaves to check once the base and the stored tasks
are known. -/
theorem Placed.put_of {k : Task} {i : TaskInfo} {push : Option Origin} (h : Placed topo r)
    (hbase : Base topo (r.put t k i push).sched) (hok : TaskOk topo k i)
    (hout : ∀ e ∈ r.inQueue, e.1 ≠ t)
    (hpush : push.isSome = true → i.phase = .queued ∧ i.live = 0 ∧ Absent r.sched.places t)
    (hstored : (∃ x, t ∈ r.sched.places x) → i.phase = .queued) :
    Placed topo (r.put t k i push) := by
  have hplaces : (r.put t k i push).sched.places = r.sched.places := rfl
  refine ⟨hbase, fun u => ?_, fun e he => ?_, ?_, fun x u hu => ?_⟩
  · by_cases hu : u = t
    · subst hu
      rw [Runtime.put_task_self, Runtime.put_info_self]
      exact hok
    · rw [Runtime.put_task_ne r k i push hu, Runtime.put_info_ne r k i push hu]
      exact h.tasks u
  · rw [hplaces]
    rcases (Runtime.mem_put r k i push).mp he with he | ⟨o, ho, rfl⟩
    · rw [Runtime.put_info_ne r k i push (hout e he)]
      exact h.pushed e he
    · rw [Runtime.put_info_self]
      exact hpush (Option.isSome_iff_exists.mpr ⟨o, ho⟩)
  · cases push with
    | none => exact h.nodup
    | some o =>
        simp only [Runtime.put, List.map_append, List.map_cons, List.map_nil]
        rw [List.nodup_append]
        refine ⟨h.nodup, List.nodup_singleton t, fun a ha b hb => ?_⟩
        obtain ⟨e, he, rfl⟩ := List.mem_map.mp ha
        rw [List.mem_singleton.mp hb]
        exact hout e he
  · by_cases hut : u = t
    · subst hut
      rw [Runtime.put_info_self]
      exact hstored ⟨x, hu⟩
    · rw [Runtime.put_info_ne r k i push hut]
      exact h.stored x u hu

/-- A write to a task that is not submitted; it may be pushed by it. -/
theorem Placed.put {k : Task} {i : TaskInfo} {push : Option Origin} (h : Placed topo r)
    (hph : (r.info t).phase ≠ .queued) (hok : TaskOk topo k i)
    (hpush : push.isSome = true → i.phase = .queued ∧ i.live = 0) :
    Placed topo (r.put t k i push) := by
  have habs := h.absent hph
  refine h.put_of (h.base.modTask (f := fun _ => k) (Or.inl habs)) hok
    (h.not_pushed (Or.inl hph)) (fun hp => ?_) ?_
  · exact ⟨(hpush hp).1, (hpush hp).2, habs⟩
  · rintro ⟨x, hx⟩
    exact absurd hx (habs x)

/-- A write to a task that executes, stored or not. -/
theorem Placed.put_running {k : Task} {i : TaskInfo} (h : Placed topo r)
    (hlive : 0 < (r.info t).live) (hpid : k.pid = (r.task t).pid)
    (hprio : k.priority = (r.task t).priority) (haff : k.affinity = (r.task t).affinity)
    (hstay : (r.info t).phase = .queued → i.phase = .queued) (hok : TaskOk topo k i) :
    Placed topo (r.put t k i none) := by
  refine h.put_of (h.base.modTask (f := fun _ => k) (Or.inr ⟨hpid, hprio, haff⟩)) hok
    (h.not_pushed (Or.inr hlive)) (fun hp => by cases hp) ?_
  rintro ⟨x, hx⟩
  exact hstay (h.stored x t hx)

/-! ## Steps of the scheduler -/

/-- A change of nothing that the invariant reads. -/
theorem TaskOk.congr {k k' : Task} {i i' : TaskInfo} (h : TaskOk topo k i)
    (haff : k'.affinity = k.affinity) (hpar : taskIsParallel k' = taskIsParallel k)
    (hcount : k'.blockingCount = k.blockingCount) (hsuspend : k'.suspend = k.suspend)
    (hphase : i'.phase = i.phase) (hlive : i'.live = i.live) : TaskOk topo k' i' := by
  refine ⟨?_, ?_, ?_, ?_, ?_, ?_, ?_⟩
  · rw [haff]
    exact h.valid
  · rw [hlive, hphase, hpar]
    exact h.live
  · rw [hlive, hpar]
    exact h.single
  · rw [hphase, hpar]
    exact h.parallel
  · rw [hphase, hcount]
    exact h.rest
  · rw [hphase, hpar, hcount]
    exact h.busy
  · rw [hphase, hpar, hsuspend]
    exact h.suspend

theorem taskIsParallel_congr {k k' : Task} (h : k'.degree = k.degree) :
    taskIsParallel k' = taskIsParallel k := by
  simp only [taskIsParallel, h]

theorem TaskOk.same {k k' : Task} {i : TaskInfo} (h : TaskOk topo k i) (hk : SameTask k k') :
    TaskOk topo k' i :=
  h.congr hk.affinity (taskIsParallel_congr hk.degree) hk.blockingCount hk.suspend rfl rfl

/-- The scheduler changes nothing but its containers: the same tasks are
stored, and they are the same for everybody else. -/
structure Keeps (s s' : Scheduler) : Prop where
  task : ∀ u, SameTask (s.task u) (s'.task u)
  stored : ∀ u, Absent s'.places u ↔ Absent s.places u

theorem Keeps.refl (s : Scheduler) : Keeps s s := ⟨fun _ => .refl _, fun _ => Iff.rfl⟩

theorem Keeps.trans {s₁ s₂ s₃ : Scheduler} (h : Keeps s₁ s₂) (h' : Keeps s₂ s₃) :
    Keeps s₁ s₃ :=
  ⟨fun u => (h.task u).trans (h'.task u), fun u => (h'.stored u).trans (h.stored u)⟩

theorem Idles.keeps {s s' : Scheduler} (h : Idles s s') : Keeps s s' := by
  refine ⟨h.frame.task, fun u => ?_⟩
  rw [h.places]

theorem absent_add {f : Place → Multiset TaskId} {x : Place} {t u : TaskId} :
    Absent (add f x t) u ↔ u ≠ t ∧ Absent f u := by
  constructor
  · intro h
    refine ⟨?_, fun y hy => h y (mem_add.mpr (Or.inr hy))⟩
    rintro rfl
    exact h x (mem_add.mpr (Or.inl ⟨rfl, rfl⟩))
  · rintro ⟨hne, h⟩ y hy
    rcases mem_add.mp hy with ⟨-, heq⟩ | hy
    · exact hne heq
    · exact h y hy

theorem Reroute.keeps {s s' : Scheduler} (hl : Linked s) (h : Reroute topo s s') : Keeps s s' := by
  rcases h.effect hl with hi | ⟨p, c, t, -, hm⟩
  · exact hi.keeps
  · obtain ⟨g, hs, hs'⟩ := hm.places
    refine ⟨hm.frame.task, fun u => ?_⟩
    rw [hs, hs', absent_add, absent_add]

theorem reroutes_keeps {s s' : Scheduler} (hb : Base topo s)
    (h : ReflTransGen (Reroute topo) s s') : Keeps s s' := by
  induction h with
  | refl => exact .refl s
  | tail hrest hstep ih => exact ih.trans (hstep.keeps (hb.reroutes hrest).linked)

theorem purge_keeps {s : Scheduler} (hb : Base topo s) (logicPid : Nat) :
    Keeps s (schedulerDeadlinePurge s logicPid) := by
  obtain ⟨s₁, hp, hb₁, hidle⟩ := purge_cases hb logicPid
  refine Keeps.trans ?_ hidle.keeps
  clear hidle hb₁
  have hboth : Base topo s₁ ∧ Keeps s s₁ := by
    induction hp with
    | refl => exact ⟨hb, .refl s⟩
    | tail _ hstep ih =>
        obtain ⟨p, t, s₂, hd, ha⟩ := PurgeStep.effect ih.1.linked hstep
        refine ⟨ih.1.purgeStep hstep, ih.2.trans ⟨(hd.frame.trans ha.frame).task, fun u => ?_⟩⟩
        rw [ha.places, hd.places, absent_add, absent_add]
  exact hboth.2

/-- What a successful search does to the tasks. -/
structure HandsOut (s s' : Scheduler) (t : TaskId) : Prop where
  was : ¬ Absent s.places t
  other : ∀ u, u ≠ t → SameTask (s.task u) (s'.task u) ∧ (Absent s'.places u ↔ Absent s.places u)
  self : SameTask { s.task t with scheduledCount := (s.task t).nextCount } (s'.task t)
  last : (s.task t).IsLast → Absent s'.places t

theorem isLast_of_ordinary {k : Task} (hp : taskIsParallel k = false) (hn : k.nextCount ≠ 0) :
    k.IsLast := by
  have hone := taskIsParallel_iff.not.mp (by rw [hp]; decide)
  unfold Task.IsLast
  omega

theorem SameTask.next {k k' : Task} (h : SameTask k k') :
    SameTask { k with scheduledCount := k.nextCount } { k' with scheduledCount := k'.nextCount } := by
  refine ⟨h.pid, h.priority, h.affinity, h.degree, ?_, h.blockingCount, h.suspend,
    h.suspendMode⟩
  simp only [Task.nextCount, h.scheduledCount]

theorem get_handsOut {s s' : Scheduler} {cpu pid ts : Nat} {external : Bool} (hb : Base topo s)
    (hget : schedulerGetInternal topo s cpu pid external ts = (some t, s')) :
    HandsOut s s' t := by
  obtain ⟨s₁, hr, hb₁, p, -, c, removed, rest, s₂, s₃, -, ht, hs, hi⟩ := get_cases hb hget
  have hk := reroutes_keeps hb hr
  have hplaces : s'.places = s₂.places := hi.places.trans hs.places
  have htask (u : TaskId) : SameTask (s₂.task u) (s'.task u) := by
    have := hi.frame.task u
    rw [hs.task] at this
    exact this
  have habs := ht.absent hb₁.linked
  refine ⟨fun h => (hk.stored t).mpr h _ ht.mem, fun u hu => ⟨?_, ?_⟩, ?_, fun hl => ?_⟩
  · exact ((hk.task u).trans (ht.other u hu)).trans (htask u)
  · rw [← hk.stored u, hplaces]
    rcases ht.after with ⟨-, -, hafter⟩ | ⟨-, -, hafter⟩
    · rw [hafter, ht.before, absent_add]
      exact ⟨fun h => ⟨hu, h⟩, fun h => h.2⟩
    · rw [hafter]
      split
      · rw [ht.before, absent_add]
        exact ⟨fun h => ⟨hu, h⟩, fun h => h.2⟩
      · exact Iff.rfl
  · exact (((hk.task t).next).trans ht.self).trans (htask t)
  · rw [hplaces]
    have hlast : (s₁.task t).IsLast := by
      simpa only [Task.IsLast, Task.nextCount, (hk.task t).degree, (hk.task t).scheduledCount]
        using hl
    rcases ht.after with ⟨-, -, hafter⟩ | ⟨-, -, hafter⟩
    · rw [hafter]
      exact habs
    · rw [hafter, if_pos hlast]
      exact habs

/-! ## Calls -/

/-- What is asked of a run: `nosv_suspend` is for ordinary tasks, a
submission does not wrap the blocking count around, and neither does the
counter of executions of an ordinary task wrap; events fit their counter,
so that a decrease completes a task that has ended, and pushes one that
sleeps for them. -/
def Regular (topo : Topology) (r : Runtime) : Call → Prop
  | .suspend t => taskIsParallel (r.task t) = false
  | .submit t | .submitImmediate t => CountFits (r.task t).blockingCount
  | .complete t => (r.info t).phase = .ended
  | .eventsOver t => (r.info t).phase = .sleeping
  | .get .. => ∀ p ∈ r.sched.queues, ∀ c ∈ containers topo, ∀ t ∈ r.sched.places (p, c),
      taskIsParallel (r.task t) = false → (r.task t).nextCount ≠ 0
  | _ => True

instance (topo : Topology) (r : Runtime) (c : Call) : Decidable (Regular topo r c) := by
  cases c <;> (dsimp only [Regular]; infer_instance)

theorem TaskOk.running {k : Task} {i : TaskInfo} (h : TaskOk topo k i) (hlive : 0 < i.live)
    (hpar : taskIsParallel k = false) : i.phase = .running ∧ i.live = 1 := by
  have hone := h.single hpar
  refine ⟨?_, by omega⟩
  rcases h.live hlive with hrun | ⟨-, hpar'⟩
  · exact hrun
  · rw [hpar] at hpar'
    cases hpar'

/-- A task that is neither submitted nor running has no execution. -/
theorem TaskOk.resting {k : Task} {i : TaskInfo} (h : TaskOk topo k i)
    (hqueued : i.phase ≠ .queued) (hrunning : i.phase ≠ .running) : i.live = 0 := by
  by_contra hne
  rcases h.live (Nat.pos_of_ne_zero hne) with hrun | ⟨hq, -⟩
  · exact hrunning hrun
  · exact hqueued hq

/-- A `nosv_submit` that pushes finds the task idle or paused. -/
theorem TaskOk.rested (h : TaskOk topo (r.task t) (r.info t)) (hmay : r.MaySubmit t)
    (hcount : r.submitCount t = 0) :
    (r.info t).phase = .idle ∨ (r.info t).phase = .paused := by
  by_contra hne
  rw [not_or] at hne
  by_cases hpar : taskIsParallel (r.task t) = true
  · exact hne.1 (hmay.2 hpar)
  · exact (h.busy (by simpa using hpar) hne.1 hne.2 hmay.1).down_ne hcount

theorem setTaskDeadline_same (k : Task) (now timeout : Nat) :
    SameTask k (setTaskDeadline k now timeout).2 := by
  unfold setTaskDeadline
  split <;> exact ⟨rfl, rfl, rfl, rfl, rfl, rfl, rfl, rfl⟩

theorem nosvSetSuspendMode_cases (k : Task) (mode : Option SuspendMode) (args : Nat) :
    nosvSetSuspendMode k mode args = (false, { k with suspendMode := .none })
      ∨ ∃ m, mode = some m ∧ (m = .submit → args ≤ 1)
        ∧ nosvSetSuspendMode k mode args = (true, { k with suspendMode := m, word := args }) := by
  unfold nosvSetSuspendMode
  rcases mode with - | m
  · exact Or.inl rfl
  · cases m with
    | submit =>
        by_cases hargs : args ≠ 1 ∧ args ≠ 0
        · exact Or.inl (by simp only [if_pos hargs])
        · exact Or.inr ⟨.submit, rfl, (fun _ => by omega), by simp only [if_neg hargs]⟩
    | none => exact Or.inr ⟨.none, rfl, (fun h => by cases h), rfl⟩
    | timeout => exact Or.inr ⟨.timeout, rfl, (fun h => by cases h), rfl⟩
    | event => exact Or.inr ⟨.event, rfl, (fun h => by cases h), rfl⟩

/-- What a suspension leaves as it was, and where it leads. -/
structure Suspends (k k' : Task) (phase : Phase) (pushed : Bool) : Prop where
  pid : k'.pid = k.pid
  priority : k'.priority = k.priority
  affinity : k'.affinity = k.affinity
  degree : k'.degree = k.degree
  scheduledCount : k'.scheduledCount = k.scheduledCount
  suspend : k'.suspend = false
  leads : (phase = .queued ∧ pushed = true ∧ (k'.blockingCount = k.blockingCount
        ∨ (k'.blockingCount = countUp k.blockingCount ∧ k'.blockingCount ≤ 0)))
      ∨ (phase = .paused ∧ pushed = false ∧ k'.blockingCount = countUp k.blockingCount
        ∧ 0 < k'.blockingCount)
      ∨ (phase = .sleeping ∧ pushed = false ∧ k'.blockingCount = k.blockingCount)

theorem taskSuspend_suspends (k : Task) (now : Nat) (events : Bool) :
    Suspends k (taskSuspend k now events).1 (taskSuspend k now events).2.1
      (taskSuspend k now events).2.2 := by
  unfold taskSuspend
  cases hmode : k.suspendMode with
  | none =>
      simp only
      split
      · rename_i hcount
        exact ⟨rfl, rfl, rfl, rfl, rfl, rfl, Or.inl ⟨rfl, rfl, Or.inr ⟨rfl, hcount⟩⟩⟩
      · rename_i hcount
        have hpos : 0 < countUp k.blockingCount := by omega
        exact ⟨rfl, rfl, rfl, rfl, rfl, rfl, Or.inr (Or.inl ⟨rfl, rfl, rfl, hpos⟩)⟩
  | timeout =>
      have hset := setTaskDeadline_same
        { k with word := 0, suspendMode := .none, suspend := false } now k.suspendArgs
      exact ⟨hset.pid, hset.priority, hset.affinity, hset.degree, hset.scheduledCount,
        hset.suspend, Or.inl ⟨rfl, rfl, Or.inl hset.blockingCount⟩⟩
  | submit => exact ⟨rfl, rfl, rfl, rfl, rfl, rfl, Or.inl ⟨rfl, rfl, Or.inl rfl⟩⟩
  | event =>
      cases events
      · exact ⟨rfl, rfl, rfl, rfl, rfl, rfl, Or.inl ⟨rfl, rfl, Or.inl rfl⟩⟩
      · exact ⟨rfl, rfl, rfl, rfl, rfl, rfl, Or.inr (Or.inr ⟨rfl, rfl, rfl⟩)⟩

/-- The invariant of an ordinary task. -/
theorem TaskOk.ordinary {k : Task} {i : TaskInfo} (hvalid : k.affinity.Valid topo)
    (hpar : taskIsParallel k = false) (hlive : i.live = 0 ∨ (i.phase = .running ∧ i.live = 1))
    (hrest : i.phase = .idle ∨ i.phase = .paused ∨ i.phase = .ended → k.blockingCount = 1)
    (hbusy : i.phase ≠ .idle → i.phase ≠ .paused → i.phase ≠ .ended → CountTaken k.blockingCount)
    (hsuspend : k.suspend = true → i.phase ≠ .idle ∧ i.phase ≠ .ended) : TaskOk topo k i := by
  refine ⟨hvalid, fun hpos => ?_, fun _ => ?_, fun hp => ?_, hrest, fun _ => hbusy,
    fun hs => ⟨hpar, hsuspend hs⟩⟩
  · rcases hlive with hzero | ⟨hrun, -⟩
    · omega
    · exact Or.inl hrun
  · omega
  · rw [hpar] at hp
    cases hp

/-- An ordinary task that has been submitted and neither blocks through
its count nor has ended. -/
theorem TaskOk.started {k : Task} {i : TaskInfo} (hvalid : k.affinity.Valid topo)
    (hpar : taskIsParallel k = false) (hlive : i.live = 0 ∨ (i.phase = .running ∧ i.live = 1))
    (hidle : i.phase ≠ .idle) (hpaused : i.phase ≠ .paused) (hended : i.phase ≠ .ended)
    (hcount : CountTaken k.blockingCount) : TaskOk topo k i := by
  refine .ordinary hvalid hpar hlive ?_ (fun _ _ _ => hcount) fun _ => ⟨hidle, hended⟩
  rintro (hph | hph | hph)
  · exact absurd hph hidle
  · exact absurd hph hpaused
  · exact absurd hph hended

/-- A task that waits outside of the scheduler is ordinary. -/
theorem TaskOk.ordinary_of {k : Task} {i : TaskInfo} (h : TaskOk topo k i)
    (hph : i.phase = .immediate ∨ i.phase = .sleeping ∨ i.phase = .waiting) :
    taskIsParallel k = false := by
  by_contra hp
  have hwhere := h.parallel (by simpa using hp)
  rcases hph with hph | hph | hph <;> simp [hph] at hwhere

/-- Such a task goes on: it is pushed or runs. -/
theorem TaskOk.goesOn {k k' : Task} {i i' : TaskInfo} (h : TaskOk topo k i)
    (hph : i.phase = .immediate ∨ i.phase = .sleeping ∨ i.phase = .waiting)
    (haff : k'.affinity = k.affinity) (hdegree : k'.degree = k.degree)
    (hcount : k'.blockingCount = k.blockingCount)
    (hto : (i'.phase = .queued ∧ i'.live = i.live) ∨ (i'.phase = .running ∧ i'.live = 1)) :
    TaskOk topo k' i' := by
  have hpar := h.ordinary_of hph
  have htaken : CountTaken k'.blockingCount := by
    rw [hcount]
    rcases hph with hph | hph | hph <;> exact h.busy hpar (by simp [hph]) (by simp [hph]) (by simp [hph])
  have hlive : i.live = 0 := by
    rcases hph with hph | hph | hph <;> exact h.resting (by simp [hph]) (by simp [hph])
  have hvalid : k'.affinity.Valid topo := haff ▸ h.valid
  have hpar' := (taskIsParallel_congr hdegree).trans hpar
  rcases hto with ⟨hq, hsame⟩ | ⟨hrun, hone⟩
  · exact .started hvalid hpar' (Or.inl (hsame.trans hlive)) (by simp [hq]) (by simp [hq])
      (by simp [hq]) htaken
  · exact .started hvalid hpar' (Or.inr ⟨hrun, hone⟩) (by simp [hrun]) (by simp [hrun])
      (by simp [hrun]) htaken

/-- The blocking count of an ordinary task that executes. -/
theorem TaskOk.count_running {k : Task} {i : TaskInfo} (h : TaskOk topo k i) (hlive : 0 < i.live)
    (hpar : taskIsParallel k = false) : CountTaken k.blockingCount := by
  have hph := (h.running hlive hpar).1
  exact h.busy hpar (by simp [hph]) (by simp [hph]) (by simp [hph])

/-- An ordinary task leaves its thread without touching its count. -/
theorem TaskOk.leaves {k k' : Task} {i i' : TaskInfo} (h : TaskOk topo k i) (hpos : 0 < i.live)
    (hpar : taskIsParallel k = false) (haff : k'.affinity = k.affinity)
    (hdegree : k'.degree = k.degree) (hcount : k'.blockingCount = k.blockingCount)
    (hto : i'.phase = .queued ∨ i'.phase = .waiting) (hlive : i'.live = 0) : TaskOk topo k' i' := by
  have htaken := h.count_running hpos hpar
  rw [← hcount] at htaken
  refine .started (haff ▸ h.valid) ((taskIsParallel_congr hdegree).trans hpar) (Or.inl hlive)
    ?_ ?_ ?_ htaken
  all_goals rcases hto with hph | hph <;> simp [hph]

/-- A `nosv_submit` that does not push. -/
theorem TaskOk.counts (h : TaskOk topo (r.task t) (r.info t)) (hcount : r.submitCount t ≠ 0)
    (hfits : CountFits (r.task t).blockingCount) :
    TaskOk topo { r.task t with blockingCount := r.submitCount t } (r.info t) := by
  have hnot (hone : (r.task t).blockingCount = 1) : False := by
    rw [Runtime.submitCount, hone] at hcount
    exact hcount countDown_one
  exact ⟨h.valid, h.live, h.single, h.parallel, fun hph => (hnot (h.rest hph)).elim,
    fun hpar hidle hpaused hended => (h.busy hpar hidle hpaused hended).down hfits, h.suspend⟩

/-- A `nosv_submit` that starts the task or resumes it. -/
theorem TaskOk.starts {i : TaskInfo} (h : TaskOk topo (r.task t) (r.info t))
    (hmay : r.MaySubmit t) (hcount : r.submitCount t = 0)
    (hto : i.phase = .queued ∨ (i.phase = .immediate ∧ taskIsParallel (r.task t) = false))
    (hlive : i.live = (r.info t).live) :
    TaskOk topo { r.task t with blockingCount := r.submitCount t } i := by
  have hzero : i.live = 0 := by
    rw [hlive]
    rcases h.rested hmay hcount with hph | hph <;> exact h.resting (by simp [hph]) (by simp [hph])
  refine ⟨h.valid, fun hpos => by omega, fun _ => by omega, fun hpar => ?_, fun hph => ?_,
    fun _ _ _ _ => ?_, fun hs => ⟨(h.suspend hs).1, ?_⟩⟩
  · rcases hto with hq | ⟨-, hp⟩
    · exact Or.inr (Or.inl hq)
    · exact absurd (hp.symm.trans hpar) (by decide)
  · rcases hto with hq | ⟨hq, -⟩ <;> simp [hq] at hph
  · rw [hcount]
    exact countTaken_zero
  · rcases hto with hq | ⟨hq, -⟩ <;> simp [hq]

theorem Write.taskOk {c : Call} {k : Task} {i : TaskInfo} {push : Option Origin}
    (hw : Write topo r c t k i push) (hc : Regular topo r c)
    (h : TaskOk topo (r.task t) (r.info t)) : TaskOk topo k i := by
  cases hw with
  | setAttributes hidle hv hpos htyped =>
      have hzero := h.resting (by simp [hidle]) (by simp [hidle])
      refine ⟨hv, fun hpos => by simp [hzero] at hpos, fun _ => by simp [hzero],
        fun _ => Or.inl hidle, h.rest, fun _ hne => absurd hidle hne, fun hs => ?_⟩
      exact absurd hidle (h.suspend hs).2.1
  | submitCounts hmay hcount => exact h.counts hcount hc
  | submitPushes hmay hcount => exact h.starts hmay hcount (Or.inl rfl) rfl
  | immediateCounts hmay hcount => exact h.counts hcount hc
  | immediateSets hmay hpar hcount => exact h.starts hmay hcount (Or.inr ⟨rfl, hpar⟩) rfl
  | submitInline hidle hpar =>
      have hone := h.rest (Or.inl hidle)
      refine .started h.valid hpar (Or.inr ⟨rfl, rfl⟩) (by simp) (by simp) (by simp) ?_
      simp only [Runtime.submitCount, hone, countDown_one]
      exact countTaken_zero
  | runImmediate count himm => exact h.goesOn (Or.inl himm) rfl rfl rfl (Or.inr ⟨rfl, rfl⟩)
  | dropImmediate himm => exact h.goesOn (Or.inl himm) rfl rfl rfl (Or.inl ⟨rfl, rfl⟩)
  | setSuspendMode hcalls =>
      rename_i mode args
      rcases nosvSetSuspendMode_cases (r.task t) mode args with heq | ⟨m, -, -, heq⟩
      · rw [heq]
        exact h.congr rfl rfl rfl rfl rfl rfl
      · rw [heq]
        exact h.congr rfl rfl rfl rfl rfl rfl
  | suspend hcalls =>
      have hph := (h.running hcalls.1 hc).1
      exact ⟨h.valid, h.live, h.single, h.parallel, h.rest, h.busy,
        fun _ => ⟨hc, by simp [hph], by simp [hph]⟩⟩
  | bodySuspends hcalls hs =>
      rename_i now events
      obtain ⟨-, -, haff, hdegree, -, hoff, hlead⟩ := taskSuspend_suspends (r.task t) now events
      have hpar := (h.suspend hs).1
      have htaken := h.count_running hcalls.1 hpar
      have hone := (h.running hcalls.1 hpar).2
      refine .ordinary (haff ▸ h.valid) ((taskIsParallel_congr hdegree).trans hpar)
        (Or.inl (by simp only [hone])) ?_ ?_ fun hon => ?_
      · rcases hlead with ⟨hph, -, -⟩ | ⟨hph, -, hnext, hpos⟩ | ⟨hph, -, -⟩
        · simp [hph]
        · rw [hnext] at hpos ⊢
          exact fun _ => htaken.up_eq_one hpos
        · simp [hph]
      · rcases hlead with ⟨-, -, hkeep | ⟨hnext, hle⟩⟩ | ⟨hph, -, -⟩ | ⟨-, -, hkeep⟩
        · exact fun _ _ _ => hkeep ▸ htaken
        · rw [hnext] at hle ⊢
          exact fun _ _ _ => htaken.up_taken hle
        · exact fun _ hne => absurd hph hne
        · exact fun _ _ _ => hkeep ▸ htaken
      · rw [hoff] at hon
        cases hon
  | bodyEnds hcalls hs =>
      by_cases hpar : taskIsParallel (r.task t) = true
      · refine ⟨h.valid, fun hpos => ?_, fun hp => ?_, fun _ => ?_, fun _ => rfl, fun hp => ?_,
          fun hon => ?_⟩
        · rw [if_neg (by simp only at hpos; omega)]
          rcases h.live hcalls.1 with hrun | hq
          · exact Or.inl hrun
          · exact Or.inr hq
        · exact absurd (hp.symm.trans hpar) (by decide)
        · simp only
          split
          · simp
          · exact h.parallel hpar
        · exact absurd (hp.symm.trans hpar) (by decide)
        · rw [hs] at hon
          cases hon
      · have hord : taskIsParallel (r.task t) = false := by simpa using hpar
        obtain ⟨hrun, hone⟩ := h.running hcalls.1 hord
        refine .ordinary h.valid hord (Or.inl (by simp [hone])) (fun _ => rfl) ?_
          fun hon => ?_
        · simp [hrun, hone]
        · rw [hs] at hon
          cases hon
  | complete =>
      have hended : (r.info t).phase = .ended := hc
      have hzero := h.resting (by simp [hended]) (by simp [hended])
      refine ⟨h.valid, fun hpos => by simp [hzero] at hpos, fun _ => by simp [hzero],
        fun _ => Or.inl rfl, fun _ => h.rest (Or.inr (Or.inr hended)),
        fun _ hne => absurd rfl hne, fun hs => ?_⟩
      exact absurd hended (h.suspend hs).2.2
  | eventsOver => exact h.goesOn (Or.inr (Or.inl hc)) rfl rfl rfl (Or.inl ⟨rfl, rfl⟩)
  | pauses hmay hcount =>
      have htaken := h.count_running hmay.1.1 hmay.2
      exact .ordinary h.valid hmay.2 (Or.inl rfl) (fun _ => htaken.up_eq_one hcount) (by simp)
        (by simp)
  | pauseReturns hmay hcount =>
      obtain ⟨hrun, hone⟩ := h.running hmay.1.1 hmay.2
      exact .started h.valid hmay.2 (Or.inr ⟨hrun, hone⟩) (by simp [hrun]) (by simp [hrun])
        (by simp [hrun]) ((h.count_running hmay.1.1 hmay.2).up_taken (by omega))
  | waits hmay hset =>
      rename_i now timeout
      have hsame := setTaskDeadline_same (r.task t) now timeout
      exact h.leaves hmay.1.1 hmay.2 hsame.affinity hsame.degree hsame.blockingCount (Or.inl rfl) rfl
  | waitReturns hmay hset =>
      rename_i now timeout
      exact h.same (setTaskDeadline_same (r.task t) now timeout)
  | yields hmay => exact h.leaves hmay.1.1 hmay.2 rfl rfl rfl (Or.inl rfl) rfl
  | yieldStays hmay => exact h.congr rfl rfl rfl rfl rfl rfl
  | yieldReturns hlive hyield => exact h.congr rfl rfl rfl rfl rfl rfl
  | schedpoint hmay => exact h.leaves hmay.1.1 hmay.2 rfl rfl rfl (Or.inl rfl) rfl
  | block hmay => exact h.leaves hmay.1.1 hmay.2 rfl rfl rfl (Or.inr rfl) rfl
  | unblock hwait => exact h.goesOn (Or.inr (Or.inr hwait)) rfl rfl rfl (Or.inl ⟨rfl, rfl⟩)
  | unlockPushes hmay => exact h.leaves hmay.1.1 hmay.2 rfl rfl rfl (Or.inl rfl) rfl
  | unlockRuns u hwait => exact h.goesOn (Or.inr (Or.inr hwait)) rfl rfl rfl (Or.inr ⟨rfl, rfl⟩)
  | cancel hcalls hdegree =>
      have hpar : taskIsParallel { r.task t with degree := -(r.task t).degree }
          = taskIsParallel (r.task t) := by
        simp only [taskIsParallel, decide_eq_decide]
        omega
      exact h.congr rfl hpar rfl rfl rfl rfl

/-- Where a write may find its task: not submitted; submitted, and then it
neither moves the task nor changes what the containers depend on. -/
theorem Write.place {c : Call} {k : Task} {i : TaskInfo} {push : Option Origin}
    (hw : Write topo r c t k i push) (hc : Regular topo r c) (h : TaskOk topo (r.task t) (r.info t)) :
    ((r.info t).phase ≠ .queued ∧ (push.isSome = true → i.phase = .queued ∧ i.live = 0))
      ∨ (push = none ∧ k.pid = (r.task t).pid ∧ k.priority = (r.task t).priority
        ∧ k.affinity = (r.task t).affinity
        ∧ ((i.phase = (r.info t).phase ∧ i.live = (r.info t).live)
          ∨ (0 < (r.info t).live ∧ i.phase = .queued))) := by
  cases hw with
  | setAttributes hidle hv hpos htyped => exact Or.inl ⟨by simp [hidle], by simp⟩
  | submitCounts hmay hcount => exact Or.inr ⟨rfl, rfl, rfl, rfl, Or.inl ⟨rfl, rfl⟩⟩
  | submitPushes hmay hcount =>
      rcases h.rested hmay hcount with hph | hph
      · exact Or.inl ⟨by simp [hph], fun _ => ⟨rfl, h.resting (by simp [hph]) (by simp [hph])⟩⟩
      · exact Or.inl ⟨by simp [hph], fun _ => ⟨rfl, h.resting (by simp [hph]) (by simp [hph])⟩⟩
  | immediateCounts hmay hcount => exact Or.inr ⟨rfl, rfl, rfl, rfl, Or.inl ⟨rfl, rfl⟩⟩
  | immediateSets hmay hpar hcount =>
      rcases h.rested hmay hcount with hph | hph
      · exact Or.inl ⟨by simp [hph], by simp⟩
      · exact Or.inl ⟨by simp [hph], by simp⟩
  | submitInline hidle hpar => exact Or.inl ⟨by simp [hidle], by simp⟩
  | runImmediate count himm => exact Or.inl ⟨by simp [himm], by simp⟩
  | dropImmediate himm =>
      exact Or.inl ⟨by simp [himm], fun _ => ⟨rfl, h.resting (by simp [himm]) (by simp [himm])⟩⟩
  | setSuspendMode hcalls =>
      rename_i mode args
      rcases nosvSetSuspendMode_cases (r.task t) mode args with heq | ⟨m, -, -, heq⟩
      · rw [heq]
        exact Or.inr ⟨rfl, rfl, rfl, rfl, Or.inl ⟨rfl, rfl⟩⟩
      · rw [heq]
        exact Or.inr ⟨rfl, rfl, rfl, rfl, Or.inl ⟨rfl, rfl⟩⟩
  | suspend hcalls => exact Or.inr ⟨rfl, rfl, rfl, rfl, Or.inl ⟨rfl, rfl⟩⟩
  | bodySuspends hcalls hs =>
      rename_i now events
      obtain ⟨hph, hlive⟩ := h.running hcalls.1 (h.suspend hs).1
      refine Or.inl ⟨by simp [hph], fun hpush => ?_⟩
      have hlead := (taskSuspend_suspends (r.task t) now events).leads
      rcases hlead with ⟨hq, -, -⟩ | ⟨-, hnone, -⟩ | ⟨-, hnone, -⟩
      · exact ⟨hq, by simp only [hlive]⟩
      · simp [hnone] at hpush
      · simp [hnone] at hpush
  | bodyEnds hcalls hs =>
      by_cases hph : (r.info t).phase = .queued
      · exact Or.inr ⟨rfl, rfl, rfl, rfl, Or.inr ⟨hcalls.1, by simp [hph]⟩⟩
      · exact Or.inl ⟨hph, by simp⟩
  | complete =>
      have hended : (r.info t).phase = .ended := hc
      exact Or.inl ⟨by simp [hended], by simp⟩
  | eventsOver =>
      have hsleep : (r.info t).phase = .sleeping := hc
      exact Or.inl ⟨by simp [hsleep],
        fun _ => ⟨rfl, h.resting (by simp [hsleep]) (by simp [hsleep])⟩⟩
  | pauses hmay hcount => exact Or.inl ⟨by simp [(h.running hmay.1.1 hmay.2).1], by simp⟩
  | pauseReturns hmay hcount => exact Or.inr ⟨rfl, rfl, rfl, rfl, Or.inl ⟨rfl, rfl⟩⟩
  | waits hmay hset =>
      exact Or.inl ⟨by simp [(h.running hmay.1.1 hmay.2).1], fun _ => ⟨rfl, rfl⟩⟩
  | waitReturns hmay hset =>
      rename_i now timeout
      have hsame := setTaskDeadline_same (r.task t) now timeout
      exact Or.inr ⟨rfl, hsame.pid, hsame.priority, hsame.affinity, Or.inl ⟨rfl, rfl⟩⟩
  | yields hmay =>
      exact Or.inl ⟨by simp [(h.running hmay.1.1 hmay.2).1], fun _ => ⟨rfl, rfl⟩⟩
  | yieldStays hmay => exact Or.inr ⟨rfl, rfl, rfl, rfl, Or.inl ⟨rfl, rfl⟩⟩
  | yieldReturns hlive hyield => exact Or.inr ⟨rfl, rfl, rfl, rfl, Or.inl ⟨rfl, rfl⟩⟩
  | schedpoint hmay =>
      exact Or.inl ⟨by simp [(h.running hmay.1.1 hmay.2).1], fun _ => ⟨rfl, rfl⟩⟩
  | block hmay => exact Or.inl ⟨by simp [(h.running hmay.1.1 hmay.2).1], by simp⟩
  | unblock hwait =>
      exact Or.inl ⟨by simp [hwait],
        fun _ => ⟨rfl, h.resting (by simp [hwait]) (by simp [hwait])⟩⟩
  | unlockPushes hmay =>
      exact Or.inl ⟨by simp [(h.running hmay.1.1 hmay.2).1], fun _ => ⟨rfl, rfl⟩⟩
  | unlockRuns u hwait => exact Or.inl ⟨by simp [hwait], by simp⟩
  | cancel hcalls hdegree => exact Or.inr ⟨rfl, rfl, rfl, rfl, Or.inl ⟨rfl, rfl⟩⟩

/-- A write that leaves its task where it is. -/
theorem Placed.put_same {k : Task} {i : TaskInfo} (h : Placed topo r)
    (hpid : k.pid = (r.task t).pid) (hprio : k.priority = (r.task t).priority)
    (haff : k.affinity = (r.task t).affinity) (hphase : i.phase = (r.info t).phase)
    (hlive : i.live = (r.info t).live) (hok : TaskOk topo k i) :
    Placed topo (r.put t k i none) := by
  have hbase : Base topo (r.put t k i none).sched :=
    h.base.modTask (f := fun _ => k) (Or.inr ⟨hpid, hprio, haff⟩)
  have hinfo (u : TaskId) : ((r.put t k i none).info u).phase = (r.info u).phase
      ∧ ((r.put t k i none).info u).live = (r.info u).live := by
    by_cases hu : u = t
    · subst hu
      rw [Runtime.put_info_self]
      exact ⟨hphase, hlive⟩
    · rw [Runtime.put_info_ne r k i none hu]
      exact ⟨rfl, rfl⟩
  refine ⟨hbase, fun u => ?_, fun e he => ?_, h.nodup, fun x u hu => ?_⟩
  · by_cases hu : u = t
    · subst hu
      rw [Runtime.put_task_self, Runtime.put_info_self]
      exact hok
    · rw [Runtime.put_task_ne r k i none hu, Runtime.put_info_ne r k i none hu]
      exact h.tasks u
  · rw [(hinfo e.1).1, (hinfo e.1).2]
    exact h.pushed e he
  · rw [(hinfo u).1]
    exact h.stored x u hu

theorem Placed.write {c : Call} {k : Task} {i : TaskInfo} {push : Option Origin}
    (h : Placed topo r) (hc : Regular topo r c) (hw : Write topo r c t k i push) :
    Placed topo (r.put t k i push) := by
  have hok := hw.taskOk hc (h.tasks t)
  rcases hw.place hc (h.tasks t) with ⟨hph, hpush⟩ | ⟨rfl, hpid, hprio, haff, hsame⟩
  · exact h.put hph hok hpush
  · rcases hsame with ⟨hphase, hlive⟩ | ⟨hlive, hphase⟩
    · exact h.put_same hpid hprio haff hphase hlive hok
    · exact h.put_running hlive hpid hprio haff (fun _ => hphase) hok

/-! ## Steps and runs -/

theorem Placed.keeps {s : Scheduler} (h : Placed topo r) (hk : Keeps r.sched s)
    (hb : Base topo s) : Placed topo { r with sched := s } := by
  refine ⟨hb, fun u => (h.tasks u).same (hk.task u), fun e he => ?_, h.nodup, fun x u hu => ?_⟩
  · obtain ⟨hphase, hlive, habs⟩ := h.pushed e he
    exact ⟨hphase, hlive, (hk.stored e.1).mpr habs⟩
  · by_contra hph
    exact (hk.stored u).mpr (h.absent hph) x hu

theorem insert_keeps {s : Scheduler} (hb : Base topo r.sched) (ht : Absent r.sched.places t)
    (hs : schedulerInsertReadyTask r.sched t = some s) :
    (∀ u, SameTask (r.task u) (s.task u)) ∧ ∀ u, Absent s.places u ↔ u ≠ t ∧ Absent r.sched.places u := by
  obtain ⟨s₁, hadds, rfl⟩ := insert_cases hb ht hs
  refine ⟨fun u => ?_, fun u => ?_⟩
  · have := hadds.frame.task u
    rwa [ensurePid_task] at this
  · rw [addDegree_places, hadds.places, absent_add, (hb.ensurePid _).2.1]

/-- The other tasks of the in-queue. -/
theorem Placed.erase_ne {n : Nat} {o : Origin} (h : Placed topo r)
    (hn : r.inQueue[n]? = some (t, o)) : ∀ e ∈ r.inQueue.eraseIdx n, e.1 ≠ t := by
  intro e he heq
  obtain ⟨hlt, hget⟩ := List.getElem?_eq_some_iff.mp hn
  have hperm := (List.getElem_cons_eraseIdx_perm hlt).map Prod.fst
  have hnodup := hperm.nodup_iff.mpr h.nodup
  rw [List.map_cons, List.nodup_cons, hget] at hnodup
  exact hnodup.1 (List.mem_map.mpr ⟨e, he, heq⟩)

theorem Placed.insert {n : Nat} {o : Origin} {s : Scheduler} (h : Placed topo r)
    (hn : r.inQueue[n]? = some (t, o)) (hs : schedulerInsertReadyTask r.sched t = some s) :
    Placed topo { r with sched := s, inQueue := r.inQueue.eraseIdx n } := by
  have hmem : (t, o) ∈ r.inQueue := List.mem_of_getElem? hn
  obtain ⟨hphase, -, habs⟩ := h.pushed _ hmem
  obtain ⟨hsame, hplaces⟩ := insert_keeps h.base habs hs
  refine ⟨h.base.insert habs (h.tasks t).valid hs, fun u => (h.tasks u).same (hsame u),
    fun e he => ?_, ?_, fun x u hu => ?_⟩
  · obtain ⟨hp, hl, ha⟩ := h.pushed e (List.mem_of_mem_eraseIdx he)
    exact ⟨hp, hl, (hplaces e.1).mpr ⟨h.erase_ne hn e he, ha⟩⟩
  · exact h.nodup.sublist ((List.eraseIdx_sublist _ _).map _)
  · by_cases hut : u = t
    · rw [hut]
      exact hphase
    · by_contra hph
      exact (hplaces u).mpr ⟨hut, h.absent hph⟩ x hu

/-- The state of a task that is handed out. -/
theorem TaskOk.handOut {k : Task} {i : TaskInfo} {held : Prop} [Decidable held]
    (h : TaskOk topo k i) (hph : i.phase = .queued)
    (hlast : taskIsParallel k = false → ¬ held) (count : Nat) :
    TaskOk topo { k with scheduledCount := count }
      { i with phase := if held then i.phase else .running, live := i.live + 1 } := by
  have hlive : taskIsParallel k = false → i.live = 0 := by
    intro hpar
    by_contra hne
    have := (h.running (Nat.pos_of_ne_zero hne) hpar).1
    rw [hph] at this
    cases this
  have hpar : taskIsParallel { k with scheduledCount := count } = taskIsParallel k := rfl
  by_cases hheld : held
  · have htrue : taskIsParallel k = true := by
      by_contra hne
      exact hlast (by simpa using hne) hheld
    simp only [if_pos hheld]
    refine ⟨h.valid, fun _ => Or.inr ⟨hph, htrue⟩, fun hp => ?_, h.parallel, h.rest, h.busy,
      h.suspend⟩
    rw [hpar, htrue] at hp
    cases hp
  · simp only [if_neg hheld]
    refine ⟨h.valid, fun _ => Or.inl rfl, fun hp => ?_, fun _ => by simp, by simp, fun hp _ _ _ => ?_,
      fun hs => ⟨(h.suspend hs).1, by simp, by simp⟩⟩
    · simp only [hlive hp]
      exact Nat.le_refl 1
    · exact h.busy hp (by simp [hph]) (by simp [hph]) (by simp [hph])

theorem Placed.handedOut {s : Scheduler} (h : Placed topo r) (ho : HandsOut r.sched s t) :
    (r.info t).phase = .queued := by
  by_contra hne
  exact ho.was (h.absent hne)

theorem Placed.get {cpu pid ts : Nat} {external : Bool} (h : Placed topo r)
    (hc : Regular topo r (.get cpu pid external ts)) :
    Placed topo (r.receive topo (schedulerGetInternal topo r.sched cpu pid external ts)) := by
  have hb : Base topo (schedulerGetInternal topo r.sched cpu pid external ts).2 := h.base.get
  cases hget : schedulerGetInternal topo r.sched cpu pid external ts with
  | mk result s =>
  rw [hget] at hb
  cases result with
  | none =>
      obtain ⟨s₁, hr, -, hidle⟩ := get_cases h.base hget
      exact h.keeps ((reroutes_keeps h.base hr).trans hidle.keeps) hb
  | some t =>
      have ho := get_handsOut h.base hget
      have hph := h.handedOut ho
      have hheld : r.sched.Holding topo t := by
        by_contra hnot
        exact ho.was (h.base.absent_iff.mpr hnot)
      have hlast : taskIsParallel (r.task t) = false → ¬ s.Holding topo t := by
        intro hpar
        obtain ⟨p, hp, c, hcont, ht⟩ := hheld
        exact hb.absent_iff.mp (ho.last (isLast_of_ordinary hpar (hc p hp c hcont t ht hpar)))
      refine ⟨hb, fun u => ?_, fun e he => ?_, h.nodup, fun x u hu => ?_⟩
      · by_cases hut : u = t
        · subst hut
          rw [Runtime.receive_info_self]
          exact ((h.tasks u).handOut hph hlast _).same ho.self
        · rw [Runtime.receive_info_ne r topo s hut]
          exact (h.tasks u).same (ho.other u hut).1
      · obtain ⟨hp, hl, habs⟩ := h.pushed e he
        have hne : e.1 ≠ t := fun heq => ho.was (heq ▸ habs)
        rw [Runtime.receive_info_ne r topo s hne]
        exact ⟨hp, hl, (ho.other e.1 hne).2.mpr habs⟩
      · by_cases hut : u = t
        · subst hut
          have hin : s.Holding topo u := by
            by_contra hnot
            exact hb.absent_iff.mpr hnot x hu
          rw [Runtime.receive_info_self]
          simp only [if_pos hin, hph]
        · rw [Runtime.receive_info_ne r topo s hut]
          by_contra hne
          exact (ho.other u hut).2.mpr (h.absent hne) x hu

theorem placed_init (pid : TaskId → Nat) (quantumNs : Nat) (clock : Nat → Nat) :
    Placed topo (Runtime.init pid quantumNs clock) := by
  refine ⟨base_init _ _ _, fun t => ?_, by simp [Runtime.init], List.nodup_nil, fun x t ht => ?_⟩
  · refine ⟨⟨fun hl => ?_, fun hl => ?_⟩, fun hlive => ?_, fun _ => Nat.zero_le 1,
      fun _ => Or.inl rfl, fun _ => rfl, fun _ hidle => absurd rfl hidle, fun hs => ?_⟩
    · cases hl
    · cases hl
    · cases hlive
    · cases hs
  · simp only [Runtime.init, schedulerInit_places] at ht
    exact absurd ht (Multiset.notMem_zero t)

end Nosv
