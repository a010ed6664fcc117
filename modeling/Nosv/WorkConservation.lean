import Nosv.Preferred
import Nosv.ProcessSelection

/-!
# What is left when a CPU gets nothing

`scheduler_get_internal` sends a CPU to sleep when it returns `NULL`; the
comment at its end says that only strict bindings can be left then. It
makes three passes over the process schedulers: tasks for this CPU, tasks
that only prefer another place, and tasks that yielded.

The third pass re-routes: a yielded task that prefers another domain goes
to a preferred queue after the pass that would have stolen it there. In
every run in which no such task is on a yield list when a CPU asks, and
in which the counters that the passes trust are right, what is left is
bound elsewhere or waits for its deadline (`work_conserving`).
-/

namespace Nosv

open RBTree Relation Places

variable {topo : Topology} {cpu pid p q : Nat} {s s' s'' : Scheduler} {t : TaskId}

/-! ## The deadline trees are ordered -/

/-- The tasks of every deadline tree are in the order of their deadlines. -/
def DeadlineSorted (s : Scheduler) : Prop :=
  ∀ p, (inorder (s.proc p).deadlineTasks).Pairwise
    fun a b => (s.task a).deadline < (s.task b).deadline

/-- The trees have only lost tasks, and keep the deadlines of the others. -/
def Thins (s s' : Scheduler) : Prop :=
  ∀ p, (inorder (s'.proc p).deadlineTasks).Sublist (inorder (s.proc p).deadlineTasks)
    ∧ ∀ t ∈ inorder (s'.proc p).deadlineTasks, (s'.task t).deadline = (s.task t).deadline

theorem Thins.of_same (htree : ∀ p, (s'.proc p).deadlineTasks = (s.proc p).deadlineTasks)
    (hdeadline : ∀ t, (s'.task t).deadline = (s.task t).deadline) : Thins s s' := by
  intro p
  rw [htree]
  exact ⟨List.Sublist.refl _, fun t _ => hdeadline t⟩

theorem Thins.trans (h : Thins s s') (h' : Thins s' s'') : Thins s s'' := by
  intro p
  obtain ⟨hsub, hkeep⟩ := h p
  obtain ⟨hsub', hkeep'⟩ := h' p
  exact ⟨hsub'.trans hsub, fun t ht => (hkeep' t ht).trans (hkeep t (hsub'.subset ht))⟩

theorem DeadlineSorted.thin (h : DeadlineSorted s) (ht : Thins s s') : DeadlineSorted s' := by
  intro p
  obtain ⟨hsub, hkeep⟩ := ht p
  refine ((h p).sublist hsub).imp_of_mem fun {a b} ha hb hlt => ?_
  rw [hkeep a ha, hkeep b hb]
  exact hlt

/-- A task leaves the deadline tree of process `p`. -/
theorem thins_remove (hb : Base topo s) (ht : t ∈ inorder (s.proc p).deadlineTasks)
    (htree : ∀ q, (s'.proc q).deadlineTasks =
      if q = p then remove t (s.proc p).deadlineTasks else (s.proc q).deadlineTasks)
    (htask : ∀ u, u ≠ t → (s'.task u).deadline = (s.task u).deadline) : Thins s s' := by
  intro q
  rw [htree]
  by_cases hq : q = p
  · subst hq
    rw [if_pos rfl]
    obtain ⟨l, r, hin, hrem⟩ := inorder_remove ht
    have hnd := hb.deadlineNodup q
    rw [hin] at hnd
    rw [hin, hrem]
    refine ⟨(List.sublist_cons_self t r).append_left l, fun u hu => htask u ?_⟩
    rintro rfl
    exact (List.nodup_middle.mp hnd).notMem hu
  · rw [if_neg hq]
    refine ⟨List.Sublist.refl _, fun u hu => htask u ?_⟩
    rintro rfl
    have h₁ : u ∈ s.places (q, .deadline) := Multiset.mem_coe.mpr hu
    have h₂ : u ∈ s.places (p, .deadline) := Multiset.mem_coe.mpr ht
    exact hq (Prod.mk.injEq .. |>.mp (hb.linked.distinct.inj h₁ h₂)).1

theorem schedulerInsertAffine_deadlineTasks (topo : Topology) (s : Scheduler) (p : Nat)
    (t : TaskId) (q : Nat) :
    ((schedulerInsertAffine topo s p t).proc q).deadlineTasks = (s.proc q).deadlineTasks := by
  obtain ⟨pref, queue, heq⟩ := schedulerInsertAffine_proc topo s p t q
  rw [heq]
  split
  · rename_i hq
    rw [hq]
  · rfl

theorem Reroute.thins (hb : Base topo s) (h : Reroute topo s s') : Thins s s' := by
  cases h with
  | now p => exact .of_same (fun q => updateNow_deadlineTasks s p q) fun t => rfl
  | @deadline p cpu t hmin haff =>
      refine thins_remove hb (min?_mem hmin) (fun q => ?_) fun u hu => ?_
      · rw [schedulerInsertAffine_deadlineTasks, expireDeadline_proc]
        split <;> rfl
      · rw [schedulerInsertAffine_task, expireDeadline_task_ne hu]
  | @yield p cpu t rest hhead haff =>
      refine .of_same (fun q => ?_) fun u => ?_
      · rw [schedulerInsertAffine_deadlineTasks, popYield_proc]
        split
        · rename_i hq
          rw [hq]
        · rfl
      · rw [schedulerInsertAffine_task, popYield_deadline]
  | @main p cpu t hfind haff =>
      refine .of_same (fun q => ?_) fun u => ?_
      · rw [schedulerInsertAffine_deadlineTasks, popQueue_proc]
        split
        · rename_i hq
          rw [hq]
        · rfl
      · rw [schedulerInsertAffine_task, popQueue_deadline]

theorem popQueue_deadlineTasks (s : Scheduler) (p : Nat) (i : QueueId) (t : TaskId) (q : Nat) :
    ((popQueue s p i t).proc q).deadlineTasks = (s.proc q).deadlineTasks := by
  rw [popQueue_proc]
  split
  · rename_i hq
    rw [hq]
  · rfl

theorem taskObtained_deadlineTasks (s : Scheduler) (p : Nat) (preferred : Bool) (removed : Int)
    (q : Nat) :
    ((taskObtained s p preferred removed).proc q).deadlineTasks = (s.proc q).deadlineTasks := by
  by_cases hq : q = p
  · subst hq
    rw [taskObtained, modProc_proc_self]
  · rw [taskObtained, modProc_proc_ne hq]

theorem schedule_deadline (s : Scheduler) (t u : TaskId) :
    ((schedule s t).task u).deadline = (s.task u).deadline := by
  by_cases hu : u = t <;> simp [schedule, Scheduler.modTask, hu]

theorem Take.thins {removed : Int} (hb : Base topo s) (h : Take topo cpu s p t removed s') :
    Thins s s' := by
  cases h with
  | deadline hmin haff =>
      refine thins_remove hb (min?_mem hmin) (fun q => ?_) fun u hu => ?_
      · rw [taskObtained_deadlineTasks]
        show ((expireDeadline s p t).proc q).deadlineTasks = _
        rw [expireDeadline_proc]
        split <;> rfl
      · show ((schedule (expireDeadline s p t) t).task u).deadline = _
        rw [schedule_deadline, expireDeadline_task_ne hu]
  | yield hhead haff =>
      refine .of_same (fun q => ?_) fun u => ?_
      · rw [taskObtained_deadlineTasks]
        show ((popYield s p t).proc q).deadlineTasks = _
        rw [popYield_proc]
        split
        · rename_i hq
          rw [hq]
        · rfl
      · show ((schedule (popYield s p t) t).task u).deadline = _
        rw [schedule_deadline, popYield_deadline]
  | @queue i t removed s₁ hpoll hget =>
      obtain ⟨-, -, rfl⟩ := schedulerGetFromQueue_some hget
      refine .of_same (fun q => ?_) fun u => ?_
      · rw [taskObtained_deadlineTasks]
        split
        · rw [popQueue_deadlineTasks]
          rfl
        · rfl
      · show ((if _ then _ else _ : Scheduler).task u).deadline = _
        split
        · rw [popQueue_deadline, schedule_deadline]
        · by_cases hu : u = t <;> simp [schedule, Scheduler.modTask, hu]

theorem PurgeStep.thins (hb : Base topo s) (h : PurgeStep s s') : Thins s s' := by
  obtain ⟨p, t, ht, -, rfl⟩ := h
  refine thins_remove hb ht (fun q => purgeTask_deadlineTasks s p q t) fun u hu => ?_
  simp [purgeTask, addQueue, removeDeadline, Scheduler.setQueue, Scheduler.modProc,
    Scheduler.modTask, hu]

theorem Thins.sameStore (h : SameStore s s') : Thins s s' :=
  .of_same (fun p => by rw [h.proc]) fun t => by rw [h.task]

theorem thins_reroutes (hb : Base topo s) (h : ReflTransGen (Reroute topo) s s') :
    Thins s s' := by
  induction h with
  | refl => exact .of_same (fun _ => rfl) fun _ => rfl
  | tail hrest hstep ih => exact ih.trans (hstep.thins (hb.reroutes hrest))

theorem thins_get (hb : Base topo s) {ts : Nat} {external : Bool} :
    Thins s (schedulerGetInternal topo s cpu pid external ts).2 := by
  cases hget : schedulerGetInternal topo s cpu pid external ts with
  | mk r s' =>
      obtain ⟨s₁, hsearch, hsame⟩ := schedulerGetInternal_spec hget
      refine Thins.trans ?_ (.sameStore hsame)
      cases r with
      | none => exact thins_reroutes hb hsearch
      | some t =>
          obtain ⟨p, -, s₀, removed, s₂, hr, htake, rfl⟩ := hsearch
          refine ((thins_reroutes hb hr).trans (htake.thins (hb.reroutes hr))).trans
            (.of_same (fun q => ?_) fun u => rfl)
          by_cases hq : q = p
          · subst hq
            simp [countServed, Scheduler.modProc]
          · simp [countServed, Scheduler.modProc, hq]

theorem thins_purge (hb : Base topo s) (logicPid : Nat) :
    Thins s (schedulerDeadlinePurge s logicPid) := by
  obtain ⟨s₁, hp, hsame⟩ := schedulerDeadlinePurge_spec hb.deadlineNodup logicPid
  refine Thins.trans ?_ (.sameStore hsame)
  clear hsame
  induction hp with
  | refl => exact .of_same (fun _ => rfl) fun _ => rfl
  | @tail s₂ s₃ hrest hstep ih =>
      have hb₂ : Base topo s₂ := by
        clear hstep ih
        induction hrest with
        | refl => exact hb
        | tail _ hstep ih => exact ih.purgeStep hstep
      exact ih.trans (hstep.thins hb₂)

/-- A write to a task that is in no deadline tree, or not to its deadline. -/
theorem DeadlineSorted.modTask (h : DeadlineSorted s) {f : Task → Task}
    (hf : (∀ p, t ∉ inorder (s.proc p).deadlineTasks)
      ∨ (f (s.task t)).deadline = (s.task t).deadline) : DeadlineSorted (s.modTask t f) := by
  refine h.thin fun p => ⟨List.Sublist.refl _, fun u hu => ?_⟩
  by_cases hut : u = t
  · subst hut
    rcases hf with hf | hf
    · exact absurd hu (hf p)
    · simpa [Scheduler.modTask] using hf
  · simp [Scheduler.modTask, hut]

/-- The comparison of a deadline with those of an ordered tree. -/
theorem DeadlineSorted.ordered (h : DeadlineSorted s) (p : Nat) (t : TaskId) :
    Ordered (taskDeadlineCompare s t) (inorder (s.proc p).deadlineTasks) := by
  refine (h p).imp fun {a b} hlt => ?_
  simp only [taskDeadlineCompare, Nat.compare_eq_lt, Nat.compare_eq_gt]
  omega

theorem DeadlineSorted.insertDeadline :
    ∀ {n : Nat} {s s' : Scheduler}, DeadlineSorted s →
      (∀ q, t ∉ inorder (s.proc q).deadlineTasks) → insertDeadline s p t n = some s' →
      DeadlineSorted s'
  | 0, s, s', _, _, hins => by cases hins
  | n + 1, s, s', h, habs, hins => by
      rw [Nosv.insertDeadline] at hins
      split at hins
      · rename_i tree htree
        obtain rfl := Option.some.inj hins
        have hdeadline : ∀ u, ((s.modTask t fun k => { k with word := 0 }).task u).deadline
            = (s.task u).deadline := by
          intro u
          by_cases hu : u = t <;> simp [Scheduler.modTask, hu]
        intro q
        simp only [Scheduler.modProc, hdeadline]
        by_cases hq : q = p
        · subst hq
          simp only [Function.update_self]
          obtain ⟨l, r, hin, hnew, hord⟩ := inorder_insert_ordered htree
          obtain ⟨hgt, hlt⟩ := hord (h.ordered q t)
          simp only [taskDeadlineCompare, Nat.compare_eq_lt, Nat.compare_eq_gt] at hgt hlt
          have hold := h q
          rw [hin, List.pairwise_append] at hold
          rw [hnew, List.pairwise_append, List.pairwise_cons]
          refine ⟨hold.1, ⟨hlt, hold.2.1⟩, fun a ha b hb => ?_⟩
          rcases List.mem_cons.mp hb with rfl | hb
          · exact hgt a ha
          · exact hold.2.2 a ha b hb
        · simp only [Function.update_of_ne hq]
          exact h q
      · exact DeadlineSorted.insertDeadline (h.modTask (Or.inl habs)) habs hins

theorem addQueue_deadlineTasks (s : Scheduler) (p : Nat) (i : QueueId) (t : TaskId) (q : Nat) :
    ((addQueue s p i t).proc q).deadlineTasks = (s.proc q).deadlineTasks := by
  by_cases hq : q = p
  · subst hq
    rw [addQueue, Scheduler.setQueue, modProc_proc_self]
  · rw [addQueue, Scheduler.setQueue, modProc_proc_ne hq]

theorem DeadlineSorted.insertContainer (h : DeadlineSorted s)
    (habs : ∀ q, t ∉ inorder (s.proc q).deadlineTasks)
    (hins : insertContainer s p t = some s') : DeadlineSorted s' := by
  unfold Nosv.insertContainer at hins
  split at hins
  · obtain rfl := Option.some.inj hins
    refine h.thin (.of_same (fun q => ?_) fun u => ?_)
    · by_cases hq : q = p
      · subst hq
        rw [modProc_proc_self]
        rfl
      · rw [modProc_proc_ne hq]
        rfl
    · by_cases hu : u = t <;> simp [Scheduler.modTask, Scheduler.modProc, hu]
  · split at hins
    · split at hins
      · exact (h.modTask (t := t) (f := fun k => { k with deadlineState := .waiting })
          (Or.inr rfl)).insertDeadline habs hins
      · obtain rfl := Option.some.inj hins
        exact (h.modTask (f := deadlineTaskWakeUp) (Or.inl habs)).thin
          (.of_same (fun q => addQueue_deadlineTasks ..) fun u => rfl)
    · obtain rfl := Option.some.inj hins
      exact h.thin (.of_same (fun q => addQueue_deadlineTasks ..) fun u => rfl)

theorem thins_ensurePid (s : Scheduler) (pid : Nat) : Thins s (ensurePid s pid) := by
  unfold ensurePid
  split
  · exact .of_same (fun _ => rfl) fun _ => rfl
  · intro q
    by_cases hq : q = pid
    · subst hq
      simp [schedulerInitPid, emptyProcess]
    · simp [schedulerInitPid, hq]

theorem absent_deadline (h : Absent s.places t) (q : Nat) :
    t ∉ inorder (s.proc q).deadlineTasks :=
  fun hmem => h (q, .deadline) (Multiset.mem_coe.mpr hmem)

theorem DeadlineSorted.insert (h : DeadlineSorted s) (hb : Base topo s)
    (ht : Absent s.places t) (hins : schedulerInsertReadyTask s t = some s') :
    DeadlineSorted s' := by
  unfold schedulerInsertReadyTask at hins
  simp only at hins
  split at hins
  · cases hins
  · rename_i s₁ hcont
    obtain rfl := Option.some.inj hins
    obtain ⟨-, hplaces, -⟩ := hb.ensurePid (s.task t).pid
    have habs : Absent (ensurePid s (s.task t).pid).places t := by
      rw [hplaces]
      exact ht
    refine ((h.thin (thins_ensurePid s _)).insertContainer (absent_deadline habs) hcont).thin
      (.of_same (fun q => ?_) fun u => rfl)
    by_cases hq : q = (s.task t).pid
    · subst hq
      simp [addDegree, Scheduler.modProc]
    · simp [addDegree, Scheduler.modProc, hq]

theorem deadlineSorted_step {a a' : Accounts} {op : SchedOp} (hb : Base topo a.sched)
    (hstep : a.step topo op = some a') (h : DeadlineSorted a.sched) :
    DeadlineSorted a'.sched := by
  have hcase := Accounts.step_cases hstep
  cases op with
  | prepare t k =>
      obtain ⟨hnot, rfl⟩ := hcase
      exact h.modTask (f := fun _ => k) (Or.inl (absent_deadline (hb.absent_iff.mpr hnot)))
  | insert t =>
      obtain ⟨hnot, -, -, s, hins, rfl⟩ := hcase
      exact h.insert hb (hb.absent_iff.mpr hnot) hins
  | get cpu pid external ts =>
      obtain ⟨-, rfl⟩ := hcase
      exact h.thin (thins_get hb)
  | purge logicPid =>
      simp only at hcase
      subst hcase
      exact h.thin (thins_purge hb logicPid)
  | cancel t =>
      obtain ⟨-, -, rfl | ⟨-, rfl⟩⟩ := hcase
      · exact h
      · exact h.modTask (f := fun k => { k with degree := -k.degree }) (Or.inr rfl)
  | wake t =>
      obtain ⟨-, rfl⟩ := hcase
      have hmod := h.modTask (t := t) (f := fun k => { k with deadlineState := .ready })
        (Or.inr rfl)
      unfold submitDeadlineWake
      simp only
      split
      · exact hmod
      · exact hmod

/-! ## The first pass -/

/-- The counters of process `q` that the passes trust: `tasks` is not zero
while something is stored, and `preferred_affinity_tasks` is not zero
while a preferred queue is in use and has room for what may be added. -/
structure Trusted (s : Scheduler) (q : Nat) : Prop where
  counted : (s.proc q).tasks = 0 → ∀ c, s.places (q, c) = 0
  preferred : ∀ i, i.isPreferred = true → ∀ t ∈ s.places (q, .queue i), s.preferred q ≠ 0
  nonneg : 0 ≤ s.preferred q
  bound : s.preferred q + s.waiting q < 18446744073709551616

theorem Trusted.untouched (h : Trusted s q) (hu : Untouched q s s') : Trusted s' q := by
  have hpref : s'.preferred q = s.preferred q := by
    rw [Scheduler.preferred, hu.proc, Scheduler.preferred]
  have hwait : s'.waiting q = s.waiting q := by
    rw [Scheduler.waiting, hu.proc, Scheduler.waiting]
  refine ⟨fun hz c => ?_, fun i hi t ht => ?_, ?_, ?_⟩
  · rw [hu.places]
    exact h.counted (hu.proc ▸ hz) c
  · rw [hpref]
    exact h.preferred i hi t (hu.places _ ▸ ht)
  · rw [hpref]
    exact h.nonneg
  · rw [hpref, hwait]
    exact h.bound

/-- Process `q` after the first pass has found nothing in it. -/
structure Passed (topo : Topology) (cpu q : Nat) (s s' : Scheduler) : Prop where
  first : FirstUnexpired q s s'
  polled : ∀ i ∈ polledQueues topo cpu, ∀ t ∈ s'.places (q, .queue i),
    taskAffine topo (s'.task t).affinity cpu = false
  main : s'.places (q, .queue .main) = 0
  yields : ∀ t ∈ (s'.proc q).yieldTasks, t ∈ (s.proc q).yieldTasks
  preferred : ∀ i, i.isPreferred = true → ∀ t ∈ s'.places (q, .queue i), s'.preferred q ≠ 0
  counted : (s'.proc q).tasks = 0 → ∀ c, s'.places (q, c) = 0

theorem isPreferred_ne_main {i : QueueId} (h : i.isPreferred = true) : i ≠ .main := by
  rintro rfl
  cases h

theorem passed_of_empty (h : ∀ c, s.places (q, c) = 0) : Passed topo cpu q s s := by
  refine ⟨fun t l hl => ?_, fun i _ t ht => ?_, h _, fun t ht => ht, fun i _ t ht => ?_,
    fun _ => h⟩
  · have hmem : t ∈ s.places (q, .deadline) :=
      Multiset.mem_coe.mpr (by rw [hl]; exact List.mem_cons_self)
    rw [h] at hmem
    exact absurd hmem (Multiset.notMem_zero t)
  · rw [h] at ht
    exact absurd ht (Multiset.notMem_zero t)
  · rw [h] at ht
    exact absurd ht (Multiset.notMem_zero t)

/-- The tasks that the first pass sends to a preferred queue are counted. -/
theorem Exhausts.preferred_ne (h : Exhausts topo cpu q s s') (ht : Trusted s q) {i : QueueId}
    (hi : i.isPreferred = true) {u : TaskId} (hu : u ∈ s'.places (q, .queue i)) :
    s'.preferred q ≠ 0 := by
  obtain ⟨m, hroutes, hlen⟩ := h.routes
  have hbound := ht.bound
  have hnonneg := ht.nonneg
  have hpref := hroutes.preferred hnonneg (by omega)
  rcases (hroutes.queue i (isPreferred_ne_main hi) u).mp hu with hold | ⟨hm, haq⟩
  · have hne := ht.preferred i hi u hold
    omega
  · obtain ⟨hq, -⟩ := (hroutes.base.fits _ _ hu).routed i rfl (isPreferred_ne_main hi)
    rw [(hroutes.frame.task u).affinity] at hq
    rw [haq, isPreferred_affineQueue hq, decide_eq_true_eq] at hi
    have hpos : 0 < m.countP fun u => (s.task u).affinity.type = .preferred :=
      List.countP_pos_iff.mpr ⟨u, hm, by simpa using hi⟩
    omega

theorem find_passed (hb : Base topo s) (ht : Trusted s q)
    (h : schedulerFindTaskProcess topo cpu s q = (none, s')) : Passed topo cpu q s s' := by
  rcases find_none_cases hb h with ⟨hz, rfl⟩ | ⟨hz, hex⟩
  · exact passed_of_empty (ht.counted hz)
  · obtain ⟨m, hroutes, -⟩ := hex.routes
    refine ⟨hex.first, fun i hi t hmem => ?_, hex.main, fun t hmem => ?_,
      fun i hi t hmem => hex.preferred_ne ht hi hmem, fun hz' => ?_⟩
    · rw [(hroutes.frame.task t).affinity]
      exact hex.polled i hi t hmem
    · obtain ⟨l, hl⟩ := hex.yields
      rw [hl]
      exact List.mem_append_right l hmem
    · rw [hroutes.frame.tasks] at hz'
      exact absurd hz' hz

theorem FirstUnexpired.later (h : FirstUnexpired q s s') (hu : Untouched q s' s'') :
    FirstUnexpired q s s'' := by
  intro t l hl
  rw [hu.proc] at hl
  obtain ⟨n, hn, hlt, hle⟩ := h t l hl
  refine ⟨n, hn, hlt.trans_le hu.ticks, ?_⟩
  rw [hu.task .deadline t (Multiset.mem_coe.mpr (by rw [hl]; exact List.mem_cons_self))]
  exact hle

theorem Passed.later (h : Passed topo cpu q s s') (hu : Untouched q s' s'') :
    Passed topo cpu q s s'' := by
  refine ⟨h.first.later hu, fun i hi t ht => ?_, ?_, fun t ht => ?_, fun i hi t ht => ?_,
    fun hz c => ?_⟩
  · rw [hu.places] at ht
    rw [hu.task _ t ht]
    exact h.polled i hi t ht
  · rw [hu.places]
    exact h.main
  · rw [hu.proc] at ht
    exact h.yields t ht
  · rw [hu.places] at ht
    rw [Scheduler.preferred, hu.proc]
    exact h.preferred i hi t ht
  · rw [hu.places]
    exact h.counted (hu.proc ▸ hz) c

theorem Passed.before (h : Passed topo cpu q s' s'') (hu : Untouched q s s') :
    Passed topo cpu q s s'' :=
  ⟨h.first.after hu.ticks hu.clock, h.polled, h.main, fun t ht => hu.proc ▸ h.yields t ht,
    h.preferred, h.counted⟩

/-- The first pass, when it finds nothing in any process. -/
theorem walk_passed :
    ∀ {order : List Nat} {s s' : Scheduler}, order.Nodup → Base topo s →
      (∀ q ∈ order, Trusted s q) →
      schedulerForeachDo (schedulerFindTaskProcess topo cpu) false pid order s = (none, s') →
      (∀ q ∈ order, Passed topo cpu q s s') ∧ ∀ q, q ∉ order → Untouched q s s'
  | [], s, s', _, _, _, h => by
      obtain ⟨-, rfl⟩ := Prod.mk.injEq .. |>.mp h
      exact ⟨fun q hq => (List.not_mem_nil hq).elim, fun q _ => .refl q s⟩
  | p :: ps, s, s', hnd, hb, ht, h => by
      obtain ⟨hp, hnd'⟩ := List.nodup_cons.mp hnd
      rw [schedulerForeachDo, if_neg (by simp)] at h
      split at h
      · cases h
      · rename_i s₁ hfind
        obtain ⟨m, hroutes⟩ := find_none_routes hb hfind
        have hpassed := find_passed hb (ht p List.mem_cons_self) hfind
        have hother : ∀ q, q ≠ p → Untouched q s s₁ := fun q hq => hroutes.untouched hb hq
        have hne : ∀ q ∈ ps, q ≠ p := fun q hq heq => hp (heq ▸ hq)
        obtain ⟨hrest, hout⟩ := walk_passed hnd' hroutes.base
          (fun q hq => (ht q (List.mem_cons_of_mem p hq)).untouched (hother q (hne q hq))) h
        refine ⟨fun q hq => ?_, fun q hq => ?_⟩
        · rcases List.mem_cons.mp hq with rfl | hq
          · exact hpassed.later (hout q hp)
          · exact (hrest q hq).before (hother q (hne q hq))
        · rw [List.mem_cons, not_or] at hq
          exact (hother q hq.1).trans (hout q hq.2)

/-! ## The second pass -/

theorem findNoaffine_none (hb : Base topo s)
    (h : schedulerFindTaskNoaffineProcess topo s q = (none, s')) :
    s' = s ∧ ((s.proc q).tasks = 0 ∨ s.preferred q = 0
      ∨ ∀ i ∈ preferredQueues topo, ∀ t, t ∉ s.places (q, .queue i)) := by
  unfold schedulerFindTaskNoaffineProcess at h
  split at h
  · rename_i hz
    exact ⟨(congrArg Prod.snd h).symm, Or.inl hz⟩
  · split at h
    · rename_i hz
      exact ⟨(congrArg Prod.snd h).symm, Or.inr (Or.inl hz)⟩
    · exact ⟨getFromQueues_none_eq h,
        Or.inr (Or.inr ((getFromQueues_none_iff hb).mp (congrArg Prod.fst h)))⟩

theorem walk_noaffine (hb : Base topo s) :
    ∀ {order : List Nat} {s' : Scheduler},
      schedulerForeachDo (schedulerFindTaskNoaffineProcess topo) false pid order s = (none, s') →
      s' = s ∧ ∀ q ∈ order, (s.proc q).tasks = 0 ∨ s.preferred q = 0
        ∨ ∀ i ∈ preferredQueues topo, ∀ t, t ∉ s.places (q, .queue i)
  | [], s', h => ⟨(congrArg Prod.snd h).symm, fun q hq => (List.not_mem_nil hq).elim⟩
  | p :: ps, s', h => by
      rw [schedulerForeachDo, if_neg (by simp)] at h
      split at h
      · cases h
      · rename_i s₁ hfind
        obtain ⟨hsame, hp⟩ := findNoaffine_none hb hfind
        rw [hsame] at h
        obtain ⟨heq, hrest⟩ := walk_noaffine hb h
        refine ⟨heq, fun q hq => ?_⟩
        rcases List.mem_cons.mp hq with rfl | hq
        · exact hp
        · exact hrest q hq

/-! ## The third pass -/

/-- The yield list is emptied when none of its tasks is for this CPU. -/
theorem findAnyYield_none :
    ∀ {n : Nat} {s s' : Scheduler}, Base topo s → (s.proc p).yieldTasks.length ≤ n →
      findAnyYield topo p cpu n s = (none, s') →
      Routes topo p (s.proc p).yieldTasks s s' ∧ KeepsOthers p s s'
        ∧ (s'.proc p).yieldTasks = []
        ∧ ∀ t ∈ (s.proc p).yieldTasks, taskAffine topo (s.task t).affinity cpu = false
  | 0, s, s', hb, hlen, h => by
      have hy : (s.proc p).yieldTasks = [] := List.length_eq_zero_iff.mp (Nat.le_zero.mp hlen)
      obtain ⟨-, rfl⟩ := Prod.mk.injEq .. |>.mp h
      rw [hy]
      exact ⟨.refl hb, ⟨fun _ => rfl, rfl, rfl⟩, rfl, fun t ht => (List.not_mem_nil ht).elim⟩
  | n + 1, s, s', hb, hlen, h => by
      rw [findAnyYield] at h
      cases hy : (s.proc p).yieldTasks with
      | nil =>
          rw [hy] at h
          obtain ⟨-, rfl⟩ := Prod.mk.injEq .. |>.mp h
          exact ⟨.refl hb, ⟨fun _ => rfl, rfl, rfl⟩, hy, fun t ht => (List.not_mem_nil ht).elim⟩
      | cons t l =>
          simp only [hy, popYield_affinity] at h
          cases haff : taskAffine topo (s.task t).affinity cpu with
          | true =>
              rw [haff] at h
              cases h
          | false =>
              simp only [haff] at h
              have hroute := routes_routeYield hb hy haff
              obtain ⟨hkeeps, hyield⟩ :=
                routeYield_proc topo p (hasQueue_of_not_affine haff)
              rw [hy, List.tail_cons] at hyield
              rw [hy, List.length_cons] at hlen
              obtain ⟨hrest, hkeeps', hempty, hno⟩ :=
                findAnyYield_none (n := n) hroute.base (by rw [hyield]; omega) h
              rw [hyield] at hrest hno
              refine ⟨hroute.trans hrest, hkeeps.trans hkeeps', hempty, fun u hu => ?_⟩
              rcases List.mem_cons.mp hu with rfl | hu
              · exact haff
              · rw [← (hroute.frame.task u).affinity]
                exact hno u hu

/-- Process `q` after the third pass has found nothing in it either. -/
structure Settled (topo : Topology) (cpu q : Nat) (s s' : Scheduler) : Prop where
  first : FirstUnexpired q s s'
  polled : ∀ i ∈ polledQueues topo cpu, ∀ t ∈ s'.places (q, .queue i),
    taskAffine topo (s'.task t).affinity cpu = false
  main : s'.places (q, .queue .main) = 0
  yields : (s'.proc q).yieldTasks = []
  preferred : ∀ i, i.isPreferred = true → ∀ t, t ∉ s'.places (q, .queue i)

theorem Settled.later (h : Settled topo cpu q s s') (hu : Untouched q s' s'') :
    Settled topo cpu q s s'' := by
  refine ⟨h.first.later hu, fun i hi t ht => ?_, ?_, ?_, fun i hi t ht => ?_⟩
  · rw [hu.places] at ht
    rw [hu.task _ t ht]
    exact h.polled i hi t ht
  · rw [hu.places]
    exact h.main
  · rw [hu.proc]
    exact h.yields
  · exact h.preferred i hi t (hu.places _ ▸ ht)

/-- Process `q` before the third pass: nothing is left to steal, and the
yielded tasks that prefer a place prefer this CPU. -/
structure Cleared (topo : Topology) (cpu q : Nat) (s s' : Scheduler) : Prop where
  passed : Passed topo cpu q s s'
  preferred : ∀ i, i.isPreferred = true → ∀ t, t ∉ s'.places (q, .queue i)
  yields : ∀ t ∈ (s'.proc q).yieldTasks, (s'.task t).affinity.type = .preferred →
    taskAffine topo (s'.task t).affinity cpu = true

theorem Cleared.later (h : Cleared topo cpu q s s') (hu : Untouched q s' s'') :
    Cleared topo cpu q s s'' := by
  refine ⟨h.passed.later hu, fun i hi t ht => ?_, fun t ht => ?_⟩
  · exact h.preferred i hi t (hu.places _ ▸ ht)
  · rw [hu.proc] at ht
    rw [hu.task .yield t (Multiset.mem_coe.mpr ht)]
    exact h.yields t ht

theorem findYieldProcess_settled {s₁ : Scheduler} (hb : Base topo s') (h : Cleared topo cpu q s s')
    (hfind : schedulerFindTaskYieldProcess topo cpu s' q = (none, s₁)) :
    Settled topo cpu q s s₁ ∧ ∃ m, Routes topo q m s' s₁ := by
  unfold schedulerFindTaskYieldProcess at hfind
  split at hfind
  · cases hfind
  · rename_i s₂ hany
    obtain ⟨-, rfl⟩ := Prod.mk.injEq .. |>.mp hfind
    obtain ⟨hroutes, hkeeps, hempty, hno⟩ := findAnyYield_none hb (le_refl _) hany
    have hqueue := hroutes.queue
    refine ⟨⟨?_, fun i hi t ht => ?_, ?_, hempty, fun i hi t ht => ?_⟩, _, hroutes⟩
    · exact h.passed.first.keep hkeeps.deadline hkeeps.deadlineTasks hroutes.ticks
    · rw [(hroutes.frame.task t).affinity]
      rcases (hqueue i (not_main_of_polled hi) t).mp ht with hold | ⟨hm, -⟩
      · exact h.passed.polled i hi t hold
      · exact hno t hm
    · have hmain := h.passed.main
      simp only [Scheduler.places, ProcessScheduler.elems] at hmain ⊢
      rw [hkeeps.main]
      exact hmain
    · rcases (hqueue i (isPreferred_ne_main hi) t).mp ht with hold | ⟨hm, haq⟩
      · exact h.preferred i hi t hold
      · have haff := hno t hm
        rw [haq, isPreferred_affineQueue (hasQueue_of_not_affine haff), decide_eq_true_eq] at hi
        rw [h.yields t hm hi] at haff
        cases haff

/-- The third pass, when it finds nothing in any process. -/
theorem walk_settled {s₀ : Scheduler} :
    ∀ {order : List Nat} {s s' : Scheduler}, order.Nodup → Base topo s →
      (∀ q ∈ order, Cleared topo cpu q s₀ s) →
      schedulerForeachDo (schedulerFindTaskYieldProcess topo cpu) false pid order s = (none, s') →
      (∀ q ∈ order, Settled topo cpu q s₀ s') ∧ ∀ q, q ∉ order → Untouched q s s'
  | [], s, s', _, _, _, h => by
      obtain ⟨-, rfl⟩ := Prod.mk.injEq .. |>.mp h
      exact ⟨fun q hq => (List.not_mem_nil hq).elim, fun q _ => .refl q s⟩
  | p :: ps, s, s', hnd, hb, hc, h => by
      obtain ⟨hp, hnd'⟩ := List.nodup_cons.mp hnd
      rw [schedulerForeachDo, if_neg (by simp)] at h
      split at h
      · cases h
      · rename_i s₁ hfind
        obtain ⟨hset, m, hroutes⟩ := findYieldProcess_settled hb (hc p List.mem_cons_self) hfind
        have hother : ∀ q, q ≠ p → Untouched q s s₁ := fun q hq => hroutes.untouched hb hq
        have hne : ∀ q ∈ ps, q ≠ p := fun q hq heq => hp (heq ▸ hq)
        obtain ⟨hrest, hout⟩ := walk_settled hnd' hroutes.base
          (fun q hq => (hc q (List.mem_cons_of_mem p hq)).later (hother q (hne q hq))) h
        refine ⟨fun q hq => ?_, fun q hq => ?_⟩
        · rcases List.mem_cons.mp hq with rfl | hq
          · exact hset.later (hout q hp)
          · exact hrest q hq
        · rw [List.mem_cons, not_or] at hq
          exact (hother q hq.1).trans (hout q hq.2)

/-! ## What is left -/

/-- Every task that is stored after the call waits for a deadline that had
not passed when the call read the clock, or is bound to a domain without
`cpu`. -/
def LeftOver (topo : Topology) (cpu : Nat) (s s' : Scheduler) : Prop :=
  ∀ p c t, t ∈ s'.places (p, c) →
    (c = .deadline ∧ ∃ n, s.ticks ≤ n ∧ n < s'.ticks ∧ s.clock n ≤ (s'.task t).deadline)
      ∨ ((s'.task t).affinity.type = .strict ∧ ¬ InDomain topo (s'.task t).affinity cpu)

theorem FirstUnexpired.all (h : FirstUnexpired p s s') (hsorted : DeadlineSorted s')
    (ht : t ∈ inorder (s'.proc p).deadlineTasks) :
    ∃ n, s.ticks ≤ n ∧ n < s'.ticks ∧ s.clock n ≤ (s'.task t).deadline := by
  have hs := hsorted p
  cases hl : inorder (s'.proc p).deadlineTasks with
  | nil =>
      rw [hl] at ht
      cases ht
  | cons u l =>
      obtain ⟨n, hn, hlt, hle⟩ := h u l hl
      rw [hl] at hs ht
      refine ⟨n, hn, hlt, ?_⟩
      rcases List.mem_cons.mp ht with rfl | ht
      · exact hle
      · exact hle.trans ((List.pairwise_cons.mp hs).1 t ht).le

theorem leftOver_of_settled (hid : NumaIdentity topo) (hcpu : cpu < topo.count .cpu)
    (hb : Base topo s') (hsorted : DeadlineSorted s')
    (h : ∀ q ∈ s'.queues, Settled topo cpu q s s') : LeftOver topo cpu s s' := by
  intro p c t ht
  have hfit := hb.fits _ _ ht
  have hset := h p hfit.known
  cases c with
  | deadline => exact Or.inl ⟨rfl, hset.first.all hsorted (Multiset.mem_coe.mp ht)⟩
  | yield =>
      have hmem : t ∈ (s'.proc p).yieldTasks := Multiset.mem_coe.mp ht
      rw [hset.yields] at hmem
      cases hmem
  | queue i =>
      have hmain : i ≠ .main := by
        rintro rfl
        rw [hset.main] at ht
        exact Multiset.notMem_zero t ht
      obtain ⟨hq, rfl⟩ := hfit.routed i rfl hmain
      have hagree := (routingAgrees_iff.mpr hid) cpu hcpu _ hq hfit.valid
      have haff : ¬ taskAffine topo (s'.task t).affinity cpu = true := by
        intro haff
        have hno := hset.polled _ (hagree.mp haff) t ht
        rw [haff] at hno
        cases hno
      refine Or.inr ⟨?_, fun hdom => haff ((taskAffine_iff_inDomain hid hfit.valid hcpu).mpr hdom)⟩
      have hnot := fun hi => hset.preferred (affineQueue topo (s'.task t).affinity) hi t ht
      rw [isPreferred_affineQueue hq, decide_eq_true_eq] at hnot
      cases htype : (s'.task t).affinity.type with
      | strict => rfl
      | preferred => exact absurd htype hnot

/-- No yield list holds a task that prefers a place without `cpu`. -/
def YieldsStay (topo : Topology) (cpu : Nat) (s : Scheduler) : Prop :=
  ∀ p ∈ s.queues, ∀ t ∈ (s.proc p).yieldTasks,
    (s.task t).affinity.type = .preferred → InDomain topo (s.task t).affinity cpu

/-- The counters are not zero while tasks are stored, and the count of the
preferred queues does not wrap. -/
structure CountersHold (topo : Topology) (s : Scheduler) : Prop where
  total : s.tasks = 0 → ∀ p ∈ s.queues, (s.proc p).tasks = 0
  tasks : ∀ p ∈ s.queues, (s.proc p).tasks = 0 → ∀ c ∈ containers topo, s.places (p, c) = 0
  preferred : ∀ p ∈ s.queues,
    0 ≤ s.preferred p ∧ s.preferred p + s.waiting p < 18446744073709551616

instance (topo : Topology) (cpu : Nat) (s : Scheduler) : Decidable (YieldsStay topo cpu s) :=
  inferInstanceAs (Decidable (∀ p ∈ s.queues, ∀ t ∈ (s.proc p).yieldTasks, _ → _))

instance (topo : Topology) (s : Scheduler) : Decidable (CountersHold topo s) :=
  decidable_of_iff
    ((s.tasks = 0 → ∀ p ∈ s.queues, (s.proc p).tasks = 0)
      ∧ (∀ p ∈ s.queues, (s.proc p).tasks = 0 → ∀ c ∈ containers topo, s.places (p, c) = 0)
      ∧ ∀ p ∈ s.queues,
        0 ≤ s.preferred p ∧ s.preferred p + s.waiting p < 18446744073709551616)
    ⟨fun h => ⟨h.1, h.2.1, h.2.2⟩, fun h => ⟨h.total, h.tasks, h.preferred⟩⟩

/-- A preferred queue is in use only while its process counts it. -/
def StealableCounted (topo : Topology) (s : Scheduler) : Prop :=
  ∀ p ∈ s.queues, ∀ i ∈ preferredQueues topo, s.places (p, .queue i) ≠ 0 → s.preferred p ≠ 0

theorem trusted_of_counters (hb : Base topo s) (hc : CountersHold topo s)
    (hp : StealableCounted topo s) (hq : q ∈ s.queues) : Trusted s q := by
  refine ⟨fun hz c => ?_, fun i hi t ht => ?_, (hc.preferred q hq).1, (hc.preferred q hq).2⟩
  · refine Multiset.eq_zero_of_forall_notMem fun t ht => ?_
    have hempty := hc.tasks q hq hz c (hb.fits _ _ ht).inTopo
    rw [hempty] at ht
    exact Multiset.notMem_zero t ht
  · have hmem := mem_containers_queue.mp (hb.fits _ _ ht).inTopo
    refine hp q hq i ((mem_preferredQueues hmem).mpr hi) fun hz => ?_
    rw [hz] at ht
    exact Multiset.notMem_zero t ht

theorem leftOver_of_empty (h : ∀ x, s'.places x = 0) : LeftOver topo cpu s s' := by
  intro p c t ht
  rw [h] at ht
  exact absurd ht (Multiset.notMem_zero t)

/-- What the first two passes have made of process `q`. -/
theorem cleared_of_passes (hid : NumaIdentity topo) (hcpu : cpu < topo.count .cpu)
    (hb : Base topo s) (hb' : Base topo s') (hframe : Frame s s')
    (hpassed : Passed topo cpu q s s') (hq : q ∈ s.queues) (hy : YieldsStay topo cpu s)
    (hsteal : (s'.proc q).tasks = 0 ∨ s'.preferred q = 0
      ∨ ∀ i ∈ preferredQueues topo, ∀ t, t ∉ s'.places (q, .queue i)) :
    Cleared topo cpu q s s' := by
  refine ⟨hpassed, fun i hi t ht => ?_, fun t ht htype => ?_⟩
  · rcases hsteal with hz | hz | hempty
    · rw [hpassed.counted hz] at ht
      exact Multiset.notMem_zero t ht
    · exact hpassed.preferred i hi t ht hz
    · have hmem := mem_containers_queue.mp (hb'.fits _ _ ht).inTopo
      exact hempty i ((mem_preferredQueues hmem).mpr hi) t ht
  · have hmem := hpassed.yields t ht
    have hvalid := (hb.fits (q, .yield) t (Multiset.mem_coe.mpr hmem)).valid
    rw [(hframe.task t).affinity] at htype ⊢
    exact (taskAffine_iff_inDomain hid hvalid hcpu).mpr (hy q hq t hmem htype)

/-- A call that returns `NULL` leaves only what it may. -/
theorem get_leftOver {ts : Nat} (hid : NumaIdentity topo) (hcpu : cpu < topo.count .cpu)
    (hb : Base topo s) (hsorted : DeadlineSorted s) (hc : CountersHold topo s)
    (hp : StealableCounted topo s) (hy : YieldsStay topo cpu s)
    (h : schedulerGetInternal topo s cpu pid false ts = (none, s')) :
    LeftOver topo cpu s s' := by
  have hb' : Base topo s' := by
    have hget : Base topo (schedulerGetInternal topo s cpu pid false ts).2 := hb.get
    rwa [h] at hget
  have hsorted' : DeadlineSorted s' := by
    have hthin : Thins s (schedulerGetInternal topo s cpu pid false ts).2 := thins_get hb
    rw [h] at hthin
    exact hsorted.thin hthin
  have htrust : ∀ q ∈ s.queues, Trusted s q := fun q hq => trusted_of_counters hb hc hp hq
  unfold schedulerGetInternal at h
  split at h
  · -- the scheduler counts no task: nothing is stored
    rename_i hz
    obtain ⟨-, rfl⟩ := Prod.mk.injEq .. |>.mp h
    refine leftOver_of_empty fun ⟨p, c⟩ => Multiset.eq_zero_of_forall_notMem fun t ht => ?_
    have ht' : t ∈ s.places (p, c) := ht
    have hknown := (hb.fits _ _ ht').known
    rw [(htrust p hknown).counted (hc.total hz p hknown)] at ht'
    exact Multiset.notMem_zero t ht'
  · simp only at h
    split at h
    · cases h
    · rename_i s₁ hwalk₁
      split at h
      · cases h
      · rename_i s₂ hwalk₂
        split at h
        · cases h
        · rename_i s₃ hwalk₃
          obtain ⟨-, rfl⟩ := Prod.mk.injEq .. |>.mp h
          have hr := foreachDo_none cpu schedulerFindTaskProcess_spec hwalk₁
          have hb₁ := hb.reroutes hr
          have hframe := reroutes_frame hb hr
          have hnd : ∀ r, (circularFrom s.queues r).Nodup := fun r =>
            (circularFrom_perm s.queues r).nodup_iff.mpr hb.pids
          have hmem : ∀ {q r}, q ∈ circularFrom s.queues r ↔ q ∈ s.queues := fun {q r} =>
            (circularFrom_perm s.queues r).mem_iff
          obtain ⟨hpassed, -⟩ := walk_passed (hnd _) hb
            (fun q hq => htrust q (hmem.mp hq)) hwalk₁
          obtain ⟨hsame, hsteal⟩ := walk_noaffine hb₁ hwalk₂
          rw [hsame] at hwalk₃
          have hcleared : ∀ q ∈ s.queues, Cleared topo cpu q s s₁ := fun q hq =>
            cleared_of_passes hid hcpu hb hb₁ hframe (hpassed q (hmem.mpr hq)) hq hy
              (hsteal q (hmem.mpr hq))
          rw [hframe.queues] at hwalk₃
          have hset : ∀ q ∈ s.queues, Settled topo cpu q s s₃ := by
            intro q hq
            split at hwalk₃
            · exact (walk_settled (hnd _) hb₁ (fun r hr => hcleared r (hmem.mp hr)) hwalk₃).1 q
                (hmem.mpr hq)
            · exact (walk_settled (hnd _) hb₁ (fun r hr => hcleared r (hmem.mp hr)) hwalk₃).1 q
                (hmem.mpr hq)
          have hr₃ := foreachDo_none cpu schedulerFindTaskYieldProcess_spec hwalk₃
          refine leftOver_of_settled hid hcpu hb' hsorted' fun q hq => hset q ?_
          rwa [queues_eq_of_reroutes hr₃, hframe.queues] at hq

/-! ## Runs -/

/-- A call that is not external and returns `NULL` leaves only tasks that
are bound elsewhere or wait for their deadlines, if no preferred queue is
in use unseen by its process. -/
def Conserves (topo : Topology) (a : Accounts) : SchedOp → Prop
  | .get cpu pid false ts => cpu < topo.count .cpu → StealableCounted topo a.sched →
      (schedulerGetInternal topo a.sched cpu pid false ts).1 = none →
      LeftOver topo cpu a.sched (schedulerGetInternal topo a.sched cpu pid false ts).2
  | _ => True

/-- What a run has to meet: affinities name existing domains, and at every
search the counters hold and no yielded task prefers a place without the
CPU. -/
def WorkKept (topo : Topology) (a : Accounts) : SchedOp → Prop
  | .insert t => (a.sched.task t).affinity.Valid topo
  | .get cpu _ _ _ => CountersHold topo a.sched ∧ YieldsStay topo cpu a.sched
  | _ => True

instance (topo : Topology) (a : Accounts) : ∀ op, Decidable (WorkKept topo a op)
  | .insert t => inferInstanceAs (Decidable ((a.sched.task t).affinity.Valid topo))
  | .get cpu .. => inferInstanceAs (Decidable (CountersHold topo a.sched
      ∧ YieldsStay topo cpu a.sched))
  | .prepare .. => isTrue trivial
  | .purge _ => isTrue trivial
  | .cancel _ => isTrue trivial
  | .wake _ => isTrue trivial

theorem WorkKept.valid {a : Accounts} {op : SchedOp} (h : WorkKept topo a op) :
    ValidInsert topo a op := by
  cases op with
  | insert t => exact h
  | prepare | get | purge | cancel | wake => trivial

/-- The invariant of the runs. -/
structure SearchReady (topo : Topology) (s : Scheduler) : Prop where
  base : Base topo s
  sorted : DeadlineSorted s

theorem conserves_of_kept {a : Accounts} {op : SchedOp} (hid : NumaIdentity topo)
    (hk : WorkKept topo a op) (h : SearchReady topo a.sched) : Conserves topo a op := by
  cases op with
  | get cpu pid external ts =>
      cases external with
      | true => trivial
      | false =>
          intro hcpu hp hnone
          exact get_leftOver hid hcpu h.base h.sorted hk.1 hp hk.2 (Prod.ext hnone rfl)
  | prepare | insert | purge | cancel | wake => trivial

/-- In every run that keeps the counters and in which no yielded task
prefers a place without the CPU that asks, a CPU gets nothing only when
everything left is bound elsewhere or waits for its deadline. -/
theorem work_conserving (topo : Topology) (hid : NumaIdentity topo) (task : TaskId → Task)
    (quantumNs : Nat) (clock : Nat → Nat) (ops : List SchedOp)
    (hC : Run.Along (Accounts.step topo) (WorkKept topo) (.init task quantumNs clock) ops) :
    Run.Along (Accounts.step topo) (Conserves topo) (.init task quantumNs clock) ops := by
  have hinit : SearchReady topo (Accounts.init task quantumNs clock).sched :=
    ⟨base_init .., fun p => by simp [Accounts.init, schedulerInit, emptyProcess]⟩
  exact Run.along_of_invariant (I := fun a => SearchReady topo a.sched)
    (fun a op a' hk hstep h => ⟨base_step hk.valid hstep h.base,
      deadlineSorted_step h.base hstep h.sorted⟩)
    (fun a op hk h => conserves_of_kept hid hk h) hC hinit

/-- Task 0 is bound to CPU 1; task 1 yields, with an affinity to CPU 1 of
the given type. -/
def yieldedElsewhere (type : AffinityType) (t : TaskId) : Task :=
  if t = 0 then nosvCreateInternal 0 ⟨.cpu, .strict, 1⟩
  else { nosvCreateInternal 0 ⟨.cpu, type, 1⟩ with word := 1 }

theorem numaIdentity_twoNodes : NumaIdentity (.twoNodes 0) := by
  intro n _
  simp [Topology.twoNodes]

/-- Two tasks that are bound to CPU 1, one of them yielded: CPU 0 gets
nothing, and may. -/
theorem work_conserving_bound :
    (Run.run (Accounts.step (.twoNodes 0)) (.init (yieldedElsewhere .strict) 0 id)
        [.insert 0, .insert 1]).map
      (fun a => (schedulerGetInternal (.twoNodes 0) a.sched 0 0 false 0).1) = some none
      ∧ Run.Along (Accounts.step (.twoNodes 0)) (Conserves (.twoNodes 0))
        (.init (yieldedElsewhere .strict) 0 id) [.insert 0, .insert 1, .get 0 0 false 0] := by
  refine ⟨by decide +kernel, ?_⟩
  exact work_conserving (.twoNodes 0) numaIdentity_twoNodes (yieldedElsewhere .strict) 0 id _
    (by decide +kernel)

/-- A yielded task that only prefers CPU 1 is sent to the preferred queue
of CPU 1 by the last pass, and CPU 0 gets nothing. -/
theorem preferred_yield_left :
    ¬ ∀ (task : TaskId → Task) (quantumNs : Nat) (clock : Nat → Nat) (ops : List SchedOp),
      Run.Along (Accounts.step (.twoNodes 0)) (Conserves (.twoNodes 0))
        (.init task quantumNs clock) ops := by
  intro hall
  have heval : (Run.run (Accounts.step (.twoNodes 0)) (.init (yieldedElsewhere .preferred) 0 id)
      [.insert 0, .insert 1]).map (fun a =>
        ((schedulerGetInternal (.twoNodes 0) a.sched 0 0 false 0).1,
          decide (∀ i ∈ preferredQueues (.twoNodes 0), a.sched.places (0, .queue i) = 0),
          decide (1 ∈ (schedulerGetInternal (.twoNodes 0) a.sched 0 0 false 0).2.places
            (0, .queue (.cpuPreferred 1))),
          a.sched.queues,
          ((schedulerGetInternal (.twoNodes 0) a.sched 0 0 false 0).2.task 1).affinity.type))
      = some (none, true, true, [0], .preferred) := by
    decide +kernel
  obtain ⟨a, hrun, hval⟩ := Option.map_eq_some_iff.mp heval
  simp only [Prod.mk.injEq, decide_eq_true_eq] at hval
  obtain ⟨hnone, hempty, hmem, hqueues, htype⟩ := hval
  have hget := hall (yieldedElsewhere .preferred) 0 id [.insert 0, .insert 1, .get 0 0 false 0]
  obtain ⟨a₁, hstep₁, hrun₁⟩ := Run.run_cons hrun
  obtain ⟨a₂, hstep₂, hrun₂⟩ := Run.run_cons hrun₁
  obtain rfl := Option.some.inj hrun₂
  have hcons := (Run.along_cons hstep₂ (Run.along_cons hstep₁ hget).2).2.1
  have hleft := hcons (by decide) (fun p hp i hi hne => ?_) hnone
  · rcases hleft 0 _ 1 hmem with ⟨hc, -⟩ | ⟨hstrict, -⟩
    · cases hc
    · rw [htype] at hstrict
      cases hstrict
  · rw [hqueues, List.mem_singleton] at hp
    subst hp
    exact absurd (hempty i hi) hne

end Nosv
