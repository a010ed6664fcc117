import Mathlib.Logic.Relation
import Nosv.Scheduler

/-!
# What the scheduler functions do, step by step

The search functions are long, but they only ever do two things: take a
task out of a container and put it into the affine queue it belongs to
(`Reroute`), any number of times, and at the end take one task for the
CPU (`Take`). The theorems of this file say so once for each function;
every invariant of the scheduler is then proved for `Reroute`, `Take` and
`PurgeStep` alone.
-/

namespace Nosv

open RBTree Relation

/-- One change made by a search that has not found its task yet. -/
inductive Reroute (topo : Topology) : Scheduler → Scheduler → Prop where
  | now (s : Scheduler) (p : Nat) : Reroute topo s (updateNow s p)
  | deadline {s : Scheduler} {p cpu : Nat} {t : TaskId}
      (hmin : min? (s.proc p).deadlineTasks = some t)
      (haff : taskAffine topo (s.task t).affinity cpu = false) :
      Reroute topo s (schedulerInsertAffine topo (expireDeadline s p t) p t)
  | yield {s : Scheduler} {p cpu : Nat} {t : TaskId} {rest : List TaskId}
      (hhead : (s.proc p).yieldTasks = t :: rest)
      (haff : taskAffine topo (s.task t).affinity cpu = false) :
      Reroute topo s (schedulerInsertAffine topo (popYield s p t) p t)
  | main {s : Scheduler} {p cpu : Nat} {t : TaskId}
      (hfind : schedulerFindInQueue ((s.proc p).queues .main) = some t)
      (haff : taskAffine topo (s.task t).affinity cpu = false) :
      Reroute topo s (schedulerInsertAffine topo (popQueue s p .main t) p t)

/-- The end of a search: task `t` of process `p` is handed to `cpu`, and
`removed` executions are taken off the counters of `p`. -/
inductive Take (topo : Topology) (cpu : Nat) (s : Scheduler) (p : Nat) :
    TaskId → Int → Scheduler → Prop where
  | deadline {t : TaskId} (hmin : min? (s.proc p).deadlineTasks = some t)
      (haff : taskAffine topo (s.task t).affinity cpu = true) :
      Take topo cpu s p t 1 (taskObtained (schedule (expireDeadline s p t) t) p false 1)
  | yield {t : TaskId} {rest : List TaskId} (hhead : (s.proc p).yieldTasks = t :: rest)
      (haff : taskAffine topo (s.task t).affinity cpu = true) :
      Take topo cpu s p t 1 (taskObtained (schedule (popYield s p t) t) p false 1)
  | queue {i : QueueId} {t : TaskId} {removed : Int} {s' : Scheduler}
      (hpoll : i ∈ polledQueues topo cpu ∨ i ∈ preferredQueues topo
        ∨ (i = .main ∧ taskAffine topo (s.task t).affinity cpu = true))
      (hget : schedulerGetFromQueue s p i = (some (t, removed), s')) :
      Take topo cpu s p t removed (taskObtained s' p i.isPreferred removed)

/-- One task moved by the deadline purge. -/
def PurgeStep (s s' : Scheduler) : Prop :=
  ∃ p t, t ∈ inorder (s.proc p).deadlineTasks ∧ (s.task t).deadlineState = .ready
    ∧ s' = purgeTask s p t

/-- The result of a search in process `p`. -/
def Search (topo : Topology) (cpu : Nat) (s : Scheduler) (p : Nat) :
    Option (TaskId × Int) → Scheduler → Prop
  | none, s' => ReflTransGen (Reroute topo) s s'
  | some (t, removed), s' =>
      ∃ s₁, ReflTransGen (Reroute topo) s s₁ ∧ Take topo cpu s₁ p t removed s'

theorem Search.after {topo : Topology} {cpu : Nat} {s s₁ s' : Scheduler} {p : Nat}
    {r : Option (TaskId × Int)} (h : ReflTransGen (Reroute topo) s s₁)
    (hs : Search topo cpu s₁ p r s') : Search topo cpu s p r s' := by
  cases r with
  | none => exact h.trans hs
  | some r =>
      obtain ⟨s₂, h₂, ht⟩ := hs
      exact ⟨s₂, h.trans h₂, ht⟩

/-! ## Expired deadlines and yields -/

@[simp] theorem updateNow_task (s : Scheduler) (p : Nat) : (updateNow s p).task = s.task := rfl

@[simp] theorem updateNow_deadlineTasks (s : Scheduler) (p q : Nat) :
    ((updateNow s p).proc q).deadlineTasks = (s.proc q).deadlineTasks := by
  by_cases h : q = p <;> simp [updateNow, Scheduler.modProc, h]

theorem expireDeadline_affinity (s : Scheduler) (p : Nat) (t u : TaskId) :
    ((expireDeadline s p t).task u).affinity = (s.task u).affinity := by
  by_cases h : u = t <;>
    simp [expireDeadline, removeDeadline, Scheduler.modTask, Scheduler.modProc,
      deadlineTaskWakeUp, h]

theorem popYield_affinity (s : Scheduler) (p : Nat) (t u : TaskId) :
    ((popYield s p t).task u).affinity = (s.task u).affinity := by
  by_cases h : u = t <;> simp [popYield, Scheduler.modTask, Scheduler.modProc, h]

theorem schedulerGetDeadlineExpired_spec (topo : Topology) {s s' : Scheduler} {p : Nat}
    {r : Option TaskId} (h : schedulerGetDeadlineExpired s p = (r, s')) :
    ∃ s₁, ReflTransGen (Reroute topo) s s₁ ∧
      match r with
      | none => s' = s₁
      | some t => min? (s₁.proc p).deadlineTasks = some t ∧ s' = expireDeadline s₁ p t := by
  unfold schedulerGetDeadlineExpired at h
  split at h
  · obtain ⟨rfl, rfl⟩ := Prod.mk.injEq .. |>.mp h
    exact ⟨s, .refl, rfl⟩
  · rename_i t hmin
    split at h
    · obtain ⟨rfl, rfl⟩ := Prod.mk.injEq .. |>.mp h
      exact ⟨s, .refl, hmin, rfl⟩
    · have hstep : ReflTransGen (Reroute topo) s (updateNow s p) := .single (.now s p)
      simp only at h
      split at h
      · obtain ⟨rfl, rfl⟩ := Prod.mk.injEq .. |>.mp h
        exact ⟨_, hstep, by simpa using hmin, rfl⟩
      · obtain ⟨rfl, rfl⟩ := Prod.mk.injEq .. |>.mp h
        exact ⟨_, hstep, rfl⟩

theorem findDeadline_spec {topo : Topology} {p cpu : Nat} :
    ∀ {n : Nat} {s s' : Scheduler} {r : Option TaskId},
      findDeadline topo p cpu n s = (r, s') →
      ∃ s₁, ReflTransGen (Reroute topo) s s₁ ∧
        match r with
        | none => s' = s₁
        | some t => min? (s₁.proc p).deadlineTasks = some t
            ∧ taskAffine topo (s₁.task t).affinity cpu = true
            ∧ s' = schedule (expireDeadline s₁ p t) t
  | 0, s, s', r, h => by
      obtain ⟨rfl, rfl⟩ := Prod.mk.injEq .. |>.mp h
      exact ⟨s, .refl, rfl⟩
  | n + 1, s, s', r, h => by
      rw [findDeadline] at h
      split at h
      · rename_i s₂ hget
        obtain ⟨s₁, h₁, rfl⟩ := schedulerGetDeadlineExpired_spec topo hget
        obtain ⟨rfl, rfl⟩ := Prod.mk.injEq .. |>.mp h
        exact ⟨_, h₁, rfl⟩
      · rename_i t s₂ hget
        obtain ⟨s₁, h₁, hmin, rfl⟩ := schedulerGetDeadlineExpired_spec topo hget
        rw [expireDeadline_affinity] at h
        split at h
        · rename_i haff
          obtain ⟨rfl, rfl⟩ := Prod.mk.injEq .. |>.mp h
          exact ⟨s₁, h₁, hmin, haff, rfl⟩
        · rename_i haff
          obtain ⟨s₃, h₃, hr⟩ := findDeadline_spec h
          exact ⟨s₃, (h₁.tail (.deadline hmin (by simpa using haff))).trans h₃, hr⟩

theorem findYield_spec {topo : Topology} {p cpu : Nat} :
    ∀ {n : Nat} {s s' : Scheduler} {r : Option TaskId},
      findYield topo p cpu n s = (r, s') →
      ∃ s₁, ReflTransGen (Reroute topo) s s₁ ∧
        match r with
        | none => s' = s₁
        | some t => ∃ rest, (s₁.proc p).yieldTasks = t :: rest
            ∧ taskAffine topo (s₁.task t).affinity cpu = true
            ∧ s' = schedule (popYield s₁ p t) t
  | 0, s, s', r, h => by
      obtain ⟨rfl, rfl⟩ := Prod.mk.injEq .. |>.mp h
      exact ⟨s, .refl, rfl⟩
  | n + 1, s, s', r, h => by
      rw [findYield, schedulerGetYieldExpired] at h
      cases hy : (s.proc p).yieldTasks with
      | nil =>
          simp only [hy] at h
          obtain ⟨rfl, rfl⟩ := Prod.mk.injEq .. |>.mp h
          exact ⟨s, .refl, rfl⟩
      | cons t rest =>
          simp only [hy] at h
          by_cases hexp : ((s.task t).yield : Int) ≤ (s.proc p).servedTasks
          · simp only [hexp, if_true, popYield_affinity] at h
            split at h
            · rename_i haff
              obtain ⟨rfl, rfl⟩ := Prod.mk.injEq .. |>.mp h
              exact ⟨s, .refl, rest, hy, haff, rfl⟩
            · rename_i haff
              obtain ⟨s₃, h₃, hr⟩ := findYield_spec h
              exact ⟨s₃, (ReflTransGen.single
                (.yield hy (by simpa using haff))).trans h₃, hr⟩
          · simp only [hexp, if_false] at h
            obtain ⟨rfl, rfl⟩ := Prod.mk.injEq .. |>.mp h
            exact ⟨s, .refl, rfl⟩

theorem findAnyYield_spec {topo : Topology} {p cpu : Nat} :
    ∀ {n : Nat} {s s' : Scheduler} {r : Option TaskId},
      findAnyYield topo p cpu n s = (r, s') →
      ∃ s₁, ReflTransGen (Reroute topo) s s₁ ∧
        match r with
        | none => s' = s₁
        | some t => ∃ rest, (s₁.proc p).yieldTasks = t :: rest
            ∧ taskAffine topo (s₁.task t).affinity cpu = true
            ∧ s' = schedule (popYield s₁ p t) t
  | 0, s, s', r, h => by
      obtain ⟨rfl, rfl⟩ := Prod.mk.injEq .. |>.mp h
      exact ⟨s, .refl, rfl⟩
  | n + 1, s, s', r, h => by
      rw [findAnyYield] at h
      cases hy : (s.proc p).yieldTasks with
      | nil =>
          simp only [hy] at h
          obtain ⟨rfl, rfl⟩ := Prod.mk.injEq .. |>.mp h
          exact ⟨s, .refl, rfl⟩
      | cons t rest =>
          simp only [hy, popYield_affinity] at h
          split at h
          · rename_i haff
            obtain ⟨rfl, rfl⟩ := Prod.mk.injEq .. |>.mp h
            exact ⟨s, .refl, rest, hy, haff, rfl⟩
          · rename_i haff
            obtain ⟨s₃, h₃, hr⟩ := findAnyYield_spec h
            exact ⟨s₃, (ReflTransGen.single
              (.yield hy (by simpa using haff))).trans h₃, hr⟩

/-! ## Queues -/

theorem schedulerGetFromQueue_none {s s' : Scheduler} {p : Nat} {i : QueueId}
    (h : schedulerGetFromQueue s p i = (none, s')) : s' = s := by
  unfold schedulerGetFromQueue at h
  split at h
  · exact (congrArg Prod.snd h).symm
  · simp only at h
    split at h <;> cases h

theorem getFromQueues_spec {topo : Topology} {p cpu : Nat} :
    ∀ {is : List QueueId} {s s' : Scheduler} {r : Option (TaskId × Int)},
      (∀ i ∈ is, i ∈ polledQueues topo cpu ∨ i ∈ preferredQueues topo) →
      getFromQueues p is s = (r, s') → Search topo cpu s p r s'
  | [], s, s', r, _, h => by
      obtain ⟨rfl, rfl⟩ := Prod.mk.injEq .. |>.mp h
      exact .refl
  | i :: is, s, s', r, hpoll, h => by
      rw [getFromQueues] at h
      split at h
      · rename_i t removed s₁ hget
        obtain ⟨rfl, rfl⟩ := Prod.mk.injEq .. |>.mp h
        refine ⟨s, .refl, .queue ?_ hget⟩
        rcases hpoll i (by simp) with hi | hi
        · exact Or.inl hi
        · exact Or.inr (Or.inl hi)
      · rename_i s₁ hget
        rw [schedulerGetFromQueue_none hget] at h
        exact getFromQueues_spec (fun j hj => hpoll j (by simp [hj])) h

theorem getFromQueue_task {s s' : Scheduler} {p : Nat} {i : QueueId} {t u : TaskId}
    {removed : Int} (hfind : schedulerFindInQueue ((s.proc p).queues i) = some t)
    (h : schedulerGetFromQueue s p i = (some (u, removed), s')) : u = t := by
  unfold schedulerGetFromQueue at h
  rw [hfind] at h
  simp only at h
  split at h <;>
  · obtain ⟨h, -⟩ := Prod.mk.injEq .. |>.mp h
    obtain ⟨rfl, -⟩ := Prod.mk.injEq .. |>.mp (Option.some.inj h)
    rfl

theorem findMain_spec {topo : Topology} {p cpu : Nat} :
    ∀ {n : Nat} {s s' : Scheduler} {r : Option (TaskId × Int)},
      findMain topo p cpu n s = (r, s') → Search topo cpu s p r s'
  | 0, s, s', r, h => by
      obtain ⟨rfl, rfl⟩ := Prod.mk.injEq .. |>.mp h
      exact .refl
  | n + 1, s, s', r, h => by
      rw [findMain] at h
      split at h
      · obtain ⟨rfl, rfl⟩ := Prod.mk.injEq .. |>.mp h
        exact .refl
      · rename_i t hfind
        split at h
        · rename_i haff
          rw [getFromQueues] at h
          split at h
          · rename_i u removed s₁ hget
            obtain ⟨rfl, rfl⟩ := Prod.mk.injEq .. |>.mp h
            obtain rfl := getFromQueue_task hfind hget
            exact ⟨s, .refl, .queue (Or.inr (Or.inr ⟨rfl, haff⟩)) hget⟩
          · rename_i s₁ hget
            rw [schedulerGetFromQueue_none hget] at h
            obtain ⟨rfl, rfl⟩ := Prod.mk.injEq .. |>.mp h
            exact .refl
        · rename_i haff
          exact Search.after (.single (.main hfind (by simpa using haff))) (findMain_spec h)

/-! ## One process -/

theorem schedulerFindTaskProcess_spec {topo : Topology} {cpu p : Nat} {s s' : Scheduler}
    {r : Option (TaskId × Int)} (h : schedulerFindTaskProcess topo cpu s p = (r, s')) :
    Search topo cpu s p r s' := by
  unfold schedulerFindTaskProcess at h
  split at h
  · obtain ⟨rfl, rfl⟩ := Prod.mk.injEq .. |>.mp h
    exact .refl
  · split at h
    · rename_i t s₁ hdl
      obtain ⟨s₂, h₂, hmin, haff, rfl⟩ := findDeadline_spec hdl
      obtain ⟨rfl, rfl⟩ := Prod.mk.injEq .. |>.mp h
      exact ⟨s₂, h₂, .deadline hmin haff⟩
    · rename_i s₁ hdl
      obtain ⟨s₂, h₂, rfl⟩ := findDeadline_spec hdl
      refine Search.after h₂ ?_
      split at h
      · rename_i t s₃ hy
        obtain ⟨s₄, h₄, rest, hhead, haff, rfl⟩ := findYield_spec hy
        obtain ⟨rfl, rfl⟩ := Prod.mk.injEq .. |>.mp h
        exact ⟨s₄, h₄, .yield hhead haff⟩
      · rename_i s₃ hy
        obtain ⟨s₄, h₄, rfl⟩ := findYield_spec hy
        refine Search.after h₄ ?_
        have hpolled : ∀ i ∈ polledQueues topo cpu,
            i ∈ polledQueues topo cpu ∨ i ∈ preferredQueues topo := fun i hi => Or.inl hi
        split at h
        · rename_i r₁ s₅ hq
          obtain ⟨rfl, rfl⟩ := Prod.mk.injEq .. |>.mp h
          exact getFromQueues_spec hpolled hq
        · rename_i s₅ hq
          exact Search.after (getFromQueues_spec hpolled hq) (findMain_spec h)

theorem schedulerFindTaskNoaffineProcess_spec {topo : Topology} {cpu p : Nat}
    {s s' : Scheduler} {r : Option (TaskId × Int)}
    (h : schedulerFindTaskNoaffineProcess topo s p = (r, s')) :
    Search topo cpu s p r s' := by
  unfold schedulerFindTaskNoaffineProcess at h
  split at h
  · obtain ⟨rfl, rfl⟩ := Prod.mk.injEq .. |>.mp h
    exact .refl
  · split at h
    · obtain ⟨rfl, rfl⟩ := Prod.mk.injEq .. |>.mp h
      exact .refl
    · exact getFromQueues_spec (fun i hi => Or.inr hi) h

theorem schedulerFindTaskYieldProcess_spec {topo : Topology} {cpu p : Nat}
    {s s' : Scheduler} {r : Option (TaskId × Int)}
    (h : schedulerFindTaskYieldProcess topo cpu s p = (r, s')) :
    Search topo cpu s p r s' := by
  unfold schedulerFindTaskYieldProcess at h
  split at h
  · rename_i t s₁ hy
    obtain ⟨s₂, h₂, rest, hhead, haff, rfl⟩ := findAnyYield_spec hy
    obtain ⟨rfl, rfl⟩ := Prod.mk.injEq .. |>.mp h
    exact ⟨s₂, h₂, .yield hhead haff⟩
  · rename_i s₁ hy
    obtain ⟨s₂, h₂, rfl⟩ := findAnyYield_spec hy
    obtain ⟨rfl, rfl⟩ := Prod.mk.injEq .. |>.mp h
    exact h₂

/-! ## All processes -/

/-- The result of a search over all processes, up to the timestamps. -/
def SearchAll (topo : Topology) (cpu : Nat) (s : Scheduler) :
    Option TaskId → Scheduler → Prop
  | none, s' => ReflTransGen (Reroute topo) s s'
  | some t, s' => ∃ p ∈ s.queues, ∃ s₁ removed s₂,
      ReflTransGen (Reroute topo) s s₁ ∧ Take topo cpu s₁ p t removed s₂
        ∧ s' = countServed s₂ p removed

theorem addQueue_queues (s : Scheduler) (p : Nat) (i : QueueId) (t : TaskId) :
    (addQueue s p i t).queues = s.queues := rfl

theorem popQueue_queues (s : Scheduler) (p : Nat) (i : QueueId) (t : TaskId) :
    (popQueue s p i t).queues = s.queues := by
  unfold popQueue
  simp only
  split <;> rfl

theorem schedulerInsertAffine_queues (topo : Topology) (s : Scheduler) (p : Nat) (t : TaskId) :
    (schedulerInsertAffine topo s p t).queues = s.queues := by
  unfold schedulerInsertAffine
  simp only [addQueue_queues]
  split <;> rfl

theorem schedulerInsertAffine_task (topo : Topology) (s : Scheduler) (p : Nat) (t : TaskId) :
    (schedulerInsertAffine topo s p t).task = s.task := by
  unfold schedulerInsertAffine
  simp only
  split <;> rfl

theorem schedule_word (s : Scheduler) (t u : TaskId) :
    ((schedule s t).task u).word = (s.task u).word := by
  by_cases hu : u = t
  · subst hu
    simp [schedule, Scheduler.modTask]
  · simp [schedule, Scheduler.modTask, hu]

theorem Reroute.queues_eq {topo : Topology} {s s' : Scheduler} (h : Reroute topo s s') :
    s'.queues = s.queues := by
  cases h with
  | now => rfl
  | deadline => rw [schedulerInsertAffine_queues]; rfl
  | yield => rw [schedulerInsertAffine_queues]; rfl
  | main => rw [schedulerInsertAffine_queues, popQueue_queues]

theorem queues_eq_of_reroutes {topo : Topology} {s s' : Scheduler}
    (h : ReflTransGen (Reroute topo) s s') : s'.queues = s.queues := by
  induction h with
  | refl => rfl
  | tail _ hstep ih => rw [hstep.queues_eq, ih]

theorem mem_circularFrom {l : List Nat} {p q : Nat} (h : q ∈ circularFrom l p) : q ∈ l := by
  rcases List.mem_append.mp h with h | h
  · exact (List.dropWhile_sublist _).subset h
  · exact (List.takeWhile_sublist _).subset h

theorem schedulerForeachDo_spec {topo : Topology} {cpu pid : Nat} {external : Bool}
    {f : Scheduler → Nat → Option (TaskId × Int) × Scheduler}
    (hf : ∀ {s s' p r}, f s p = (r, s') → Search topo cpu s p r s') :
    ∀ {ps : List Nat} {s s' : Scheduler} {r : Option TaskId}, (∀ p ∈ ps, p ∈ s.queues) →
      schedulerForeachDo f external pid ps s = (r, s') → SearchAll topo cpu s r s'
  | [], s, s', r, _, h => by
      obtain ⟨rfl, rfl⟩ := Prod.mk.injEq .. |>.mp h
      exact .refl
  | p :: ps, s, s', r, hmem, h => by
      rw [schedulerForeachDo] at h
      split at h
      · exact schedulerForeachDo_spec hf (fun q hq => hmem q (by simp [hq])) h
      · split at h
        · rename_i t removed s₁ hfp
          obtain ⟨s₂, h₂, htake⟩ := hf hfp
          obtain ⟨rfl, rfl⟩ := Prod.mk.injEq .. |>.mp h
          exact ⟨p, hmem p (by simp), s₂, removed, s₁, h₂, htake, rfl⟩
        · rename_i s₁ hfp
          have h₁ : ReflTransGen (Reroute topo) s s₁ := hf hfp
          have hq := queues_eq_of_reroutes h₁
          have hrest := schedulerForeachDo_spec hf
            (fun q hq' => by rw [hq]; exact hmem q (by simp [hq'])) h
          cases r with
          | none => exact h₁.trans hrest
          | some t =>
              obtain ⟨q, hqm, s₂, removed, s₃, h₂, htake, rfl⟩ := hrest
              exact ⟨q, hq ▸ hqm, s₂, removed, s₃, h₁.trans h₂, htake, rfl⟩

theorem SearchAll.after {topo : Topology} {cpu : Nat} {s s₁ s' : Scheduler}
    {r : Option TaskId} (h : ReflTransGen (Reroute topo) s s₁)
    (hs : SearchAll topo cpu s₁ r s') : SearchAll topo cpu s r s' := by
  cases r with
  | none => exact h.trans hs
  | some t =>
      obtain ⟨p, hp, s₂, removed, s₃, h₂, htake, heq⟩ := hs
      exact ⟨p, queues_eq_of_reroutes h ▸ hp, s₂, removed, s₃, h.trans h₂, htake, heq⟩

/-- Equal up to the accounting timestamps and the requested purges. -/
structure SameStore (s s' : Scheduler) : Prop where
  task : s'.task = s.task
  tasks : s'.tasks = s.tasks
  queues : s'.queues = s.queues
  proc : s'.proc = s.proc

theorem SameStore.refl (s : Scheduler) : SameStore s s := ⟨rfl, rfl, rfl, rfl⟩

theorem schedulerUpdateAccounting_same (s : Scheduler) (pid : Nat) (t : Option TaskId)
    (cpu ts : Nat) : SameStore s (schedulerUpdateAccounting s pid t cpu ts) := by
  unfold schedulerUpdateAccounting
  split
  · exact ⟨rfl, rfl, rfl, rfl⟩
  · simp only
    split
    · exact ⟨rfl, rfl, rfl, rfl⟩
    · split <;> exact ⟨rfl, rfl, rfl, rfl⟩

/-- `scheduler_get_internal` re-routes tasks and then takes one, or none. -/
theorem schedulerGetInternal_spec {topo : Topology} {s s' : Scheduler} {cpu pid ts : Nat}
    {external : Bool} {r : Option TaskId}
    (h : schedulerGetInternal topo s cpu pid external ts = (r, s')) :
    ∃ s₁, SearchAll topo cpu s r s₁ ∧ SameStore s₁ s' := by
  unfold schedulerGetInternal at h
  split at h
  · obtain ⟨rfl, rfl⟩ := Prod.mk.injEq .. |>.mp h
    exact ⟨s, .refl, schedulerUpdateAccounting_same ..⟩
  · simp only at h
    split at h
    · rename_i t s₁ hfind
      obtain ⟨rfl, rfl⟩ := Prod.mk.injEq .. |>.mp h
      exact ⟨s₁, schedulerForeachDo_spec schedulerFindTaskProcess_spec
        (fun p hp => mem_circularFrom hp) hfind, schedulerUpdateAccounting_same ..⟩
    · rename_i s₁ hfind
      have h₁ : SearchAll topo cpu s none s₁ :=
        schedulerForeachDo_spec schedulerFindTaskProcess_spec
          (fun p hp => mem_circularFrom hp) hfind
      have hq₁ := queues_eq_of_reroutes h₁
      split at h
      · rename_i t s₂ hsteal
        obtain ⟨rfl, rfl⟩ := Prod.mk.injEq .. |>.mp h
        exact ⟨s₂, SearchAll.after h₁ (schedulerForeachDo_spec
          schedulerFindTaskNoaffineProcess_spec
          (fun p hp => by rw [hq₁]; exact mem_circularFrom hp) hsteal),
          schedulerUpdateAccounting_same ..⟩
      · rename_i s₂ hsteal
        have h₂ : SearchAll topo cpu s₁ none s₂ :=
          schedulerForeachDo_spec schedulerFindTaskNoaffineProcess_spec
            (fun p hp => by rw [hq₁]; exact mem_circularFrom hp) hsteal
        have hq₂ := queues_eq_of_reroutes h₂
        have hmem : ∀ p ∈ (if schedulerShouldYield s pid cpu ts = true then
              circularFrom s.queues
                (if schedulerShouldYield s pid cpu ts = true then
                  listNextCircular s.queues (startPid s pid) else startPid s pid)
            else circularFrom s₂.queues (listNextCircular s₂.queues
                (if schedulerShouldYield s pid cpu ts = true then
                  listNextCircular s.queues (startPid s pid) else startPid s pid))),
            p ∈ s₂.queues := by
          intro p hp
          split at hp
          · rw [hq₂, hq₁]
            exact mem_circularFrom hp
          · exact mem_circularFrom hp
        split at h
        · rename_i t s₃ hy
          obtain ⟨rfl, rfl⟩ := Prod.mk.injEq .. |>.mp h
          exact ⟨s₃, SearchAll.after (h₁.trans h₂)
            (schedulerForeachDo_spec schedulerFindTaskYieldProcess_spec hmem hy),
            schedulerUpdateAccounting_same ..⟩
        · rename_i s₃ hy
          obtain ⟨rfl, rfl⟩ := Prod.mk.injEq .. |>.mp h
          have h₃ : SearchAll topo cpu s₂ none s₃ :=
            schedulerForeachDo_spec schedulerFindTaskYieldProcess_spec hmem hy
          exact ⟨s₃, SearchAll.after (h₁.trans h₂) h₃, .refl _⟩

/-! ## The purge -/

theorem purgeTask_deadlineTasks (s : Scheduler) (p q : Nat) (t : TaskId) :
    ((purgeTask s p t).proc q).deadlineTasks =
      if q = p then remove t (s.proc p).deadlineTasks else (s.proc q).deadlineTasks := by
  by_cases h : q = p <;>
    simp [purgeTask, addQueue, removeDeadline, Scheduler.setQueue, Scheduler.modProc,
      Scheduler.modTask, h]

/-- No task occurs twice in a deadline tree. -/
def DeadlineNodup (s : Scheduler) : Prop :=
  ∀ p, (inorder (s.proc p).deadlineTasks).Nodup

theorem DeadlineNodup.purgeTask {s : Scheduler} (h : DeadlineNodup s) {p : Nat} {t : TaskId}
    (ht : t ∈ inorder (s.proc p).deadlineTasks) : DeadlineNodup (purgeTask s p t) := by
  intro q
  rw [purgeTask_deadlineTasks]
  split
  · obtain ⟨l, r, hin, hrem⟩ := inorder_remove ht
    have hnd := h p
    rw [hin] at hnd
    rw [hrem]
    exact hnd.sublist (List.Sublist.append_left (List.sublist_cons_self t r) l)
  · exact h q

theorem purgeProcess_spec {p : Nat} :
    ∀ {ts : List TaskId} {n : Nat} {s s' : Scheduler} {n' : Nat}, DeadlineNodup s →
      ts.Nodup → (∀ t ∈ ts, t ∈ inorder (s.proc p).deadlineTasks) →
      purgeProcess s p ts n = (s', n') → ReflTransGen PurgeStep s s' ∧ DeadlineNodup s'
  | [], n, s, s', n', hnd, _, _, h => by
      obtain ⟨rfl, rfl⟩ := Prod.mk.injEq .. |>.mp h
      exact ⟨.refl, hnd⟩
  | t :: ts, n, s, s', n', hnd, hts, hmem, h => by
      rw [List.nodup_cons] at hts
      have ht := hmem t (by simp)
      rw [purgeProcess] at h
      split at h
      · rename_i hready
        have hstep : PurgeStep s (purgeTask s p t) := ⟨p, t, ht, hready, rfl⟩
        have hnd' := hnd.purgeTask ht
        split at h
        · obtain ⟨rfl, rfl⟩ := Prod.mk.injEq .. |>.mp h
          exact ⟨.single hstep, hnd'⟩
        · have hrest : ∀ u ∈ ts, u ∈ inorder ((purgeTask s p t).proc p).deadlineTasks := by
            intro u hu
            rw [purgeTask_deadlineTasks, if_pos rfl]
            obtain ⟨l, r, hin, hrem⟩ := inorder_remove ht
            have hu' := hmem u (by simp [hu])
            have hne : u ≠ t := fun heq => hts.1 (heq ▸ hu)
            rw [hin] at hu'
            rw [hrem]
            simp only [List.mem_append, List.mem_cons] at hu' ⊢
            tauto
          obtain ⟨h₁, h₂⟩ := purgeProcess_spec hnd' hts.2 hrest h
          exact ⟨ReflTransGen.head hstep h₁, h₂⟩
      · exact purgeProcess_spec hnd hts.2 (fun u hu => hmem u (by simp [hu])) h

theorem purgeProcesses_spec :
    ∀ {ps : List Nat} {n : Nat} {s : Scheduler}, DeadlineNodup s →
      ReflTransGen PurgeStep s (purgeProcesses s ps n)
  | [], _, _, _ => .refl
  | p :: ps, n, s, hnd => by
      rw [purgeProcesses]
      cases hp : purgeProcess s p (inorder (s.proc p).deadlineTasks) n with
      | mk s' n' =>
          obtain ⟨h₁, hnd'⟩ := purgeProcess_spec hnd (hnd p) (fun t ht => ht) hp
          simp only
          split
          · exact h₁
          · exact h₁.trans (purgeProcesses_spec hnd')

/-- `scheduler_deadline_purge` moves woken tasks, one by one. -/
theorem schedulerDeadlinePurge_spec {s : Scheduler} (hnd : DeadlineNodup s) (logicPid : Nat) :
    ∃ s₁, ReflTransGen PurgeStep s s₁ ∧ SameStore s₁ (schedulerDeadlinePurge s logicPid) := by
  unfold schedulerDeadlinePurge
  simp only
  split
  · exact ⟨s, .refl, .refl s⟩
  · refine ⟨schedulerDeadlinePurgeInternal s logicPid s.deadlinePurge, ?_, ⟨rfl, rfl, rfl, rfl⟩⟩
    unfold schedulerDeadlinePurgeInternal
    split
    · exact .refl
    · exact purgeProcesses_spec hnd

end Nosv
