import Nosv.SchedulerRuns

/-!
# Conservation of executions

Every process scheduler counts in `tasks` the executions that it still
has to hand out. The invariant `Accounted` ties that counter to the
stored tasks: an ordinary task counts once, a parallel one as many times
as its degree leaves, whatever containers a search moves it through.

The counters are `size_t`, and the invariant includes why they do not
wrap: `served_tasks + tasks` is what was inserted.
-/

namespace Nosv

open RBTree Relation Places

/-- The executions that process `p` still has to hand out. -/
def Scheduler.owed (topo : Topology) (s : Scheduler) (p : Nat) : Int :=
  weight (fun t => (s.task t).pending) (placesOf topo p) s.places

/-- A stored task is either ordinary, and not cancelled, or parallel with
executions left; parallel tasks are only found in queues. -/
structure Runnable (k : Task) (x : Place) : Prop where
  bounded : k.degree.natAbs < 2147483648
  serial : taskIsParallel k = false → k.degree = 1
  parallel : taskIsParallel k = true →
    (∃ i, x.2 = .queue i) ∧ k.scheduledCount < k.degree.natAbs

structure Accounted (topo : Topology) (a : Accounts) : Prop where
  base : Base topo a.sched
  runnable : Holds Runnable a.sched
  tasks : ∀ p, (a.sched.proc p).tasks = a.sched.owed topo p
  total : a.sched.tasks = ∑ p ∈ a.sched.queues.toFinset, (a.sched.proc p).tasks
  served : ∀ p, (a.sched.proc p).servedTasks + (a.sched.proc p).tasks = a.inserted p
  served_nonneg : ∀ p, 0 ≤ (a.sched.proc p).servedTasks
  fresh : ∀ p, p ∉ a.sched.queues → a.inserted p = 0
  bound : ∑ p ∈ a.sched.queues.toFinset, a.inserted p < 18446744073709551616

variable {topo : Topology} {s s' : Scheduler}

/-! ## One hand-out of one task -/

theorem pending_same {k k' : Task} (h : SameTask k k') : k'.pending = k.pending := by
  simp only [Task.pending, h.degree, h.scheduledCount]

theorem parallel_same {k k' : Task} (h : SameTask k k') :
    taskIsParallel k' = taskIsParallel k := by
  simp only [taskIsParallel, h.degree]

theorem runnable_stable : Stable Runnable := by
  intro k k' x hk h
  refine ⟨?_, fun hp => ?_, fun hp => ?_⟩
  · rw [hk.degree]
    exact h.bounded
  · rw [hk.degree]
    exact h.serial (by rwa [parallel_same hk] at hp)
  · rw [hk.degree, hk.scheduledCount]
    exact h.parallel (by rwa [parallel_same hk] at hp)

/-- In a queue a runnable task stays runnable. -/
theorem Runnable.queue {k : Task} {x : Place} (h : Runnable k x) (p : Nat) (i : QueueId) :
    Runnable k (p, .queue i) :=
  ⟨h.bounded, h.serial, fun hp => ⟨⟨i, rfl⟩, (h.parallel hp).2⟩⟩

theorem Runnable.pending_pos {k : Task} {x : Place} (h : Runnable k x) : 1 ≤ k.pending := by
  cases hp : taskIsParallel k with
  | false => exact (pending_of_not_parallel hp).ge
  | true =>
      rw [pending_of_parallel hp]
      have := (h.parallel hp).2
      omega

theorem Runnable.nextCount {k : Task} {x : Place} (h : Runnable k x)
    (hp : taskIsParallel k = true) : k.nextCount = k.scheduledCount + 1 := by
  have hlt := (h.parallel hp).2
  have hbound := h.bounded
  unfold Task.nextCount u32
  omega

/-- The last hand-out takes everything that is left. -/
theorem Runnable.removed_last {k : Task} {x : Place} (h : Runnable k x) (hlast : k.IsLast) :
    k.removed = k.pending := by
  cases hp : taskIsParallel k with
  | false =>
      rw [pending_of_not_parallel hp, Task.removed, h.serial hp]
      rfl
  | true =>
      have hcount := h.nextCount hp
      have hlt := (h.parallel hp).2
      rw [pending_of_parallel hp, Task.removed]
      unfold Task.IsLast at hlast
      split <;> omega

/-- Any other hand-out takes one execution. -/
theorem Runnable.removed_more {k : Task} {x : Place} (h : Runnable k x)
    (hwrap : taskIsParallel k = false → k.nextCount ≠ 0) (hlast : ¬ k.IsLast) :
    k.removed = 1 ∧ ({ k with scheduledCount := k.nextCount } : Task).pending = k.pending - 1
      ∧ Runnable { k with scheduledCount := k.nextCount } x := by
  simp only [Task.IsLast, not_or, not_lt, not_le] at hlast
  obtain ⟨hpos, hmore⟩ := hlast
  cases hp : taskIsParallel k with
  | false =>
      have hdeg := h.serial hp
      have := hwrap hp
      omega
  | true =>
      have hcount := h.nextCount hp
      have hpar : taskIsParallel { k with scheduledCount := k.nextCount } = true := hp
      refine ⟨by rw [Task.removed, if_neg (by omega)], ?_, h.bounded, ?_, ?_⟩
      · rw [pending_of_parallel hp, pending_of_parallel hpar]
        simp only
        omega
      · intro hserial
        rw [hpar] at hserial
        cases hserial
      · intro _
        refine ⟨(h.parallel hp).1, ?_⟩
        simp only
        omega

/-! ## What is owed -/

theorem owed_congr (hplaces : s'.places = s.places)
    (hpending : ∀ x t, t ∈ s.places x → (s'.task t).pending = (s.task t).pending) (p : Nat) :
    s'.owed topo p = s.owed topo p := by
  unfold Scheduler.owed
  rw [hplaces]
  exact weight_congr fun x _ t ht => hpending x t ht

theorem owed_idles (hi : Idles s s') (p : Nat) : s'.owed topo p = s.owed topo p :=
  owed_congr hi.places (fun _ t _ => pending_same (hi.frame.task t)) p

theorem owed_frame (hf : Frame s s') {f : Place → Multiset TaskId} (S : Finset Place) :
    weight (fun t => (s'.task t).pending) S f = weight (fun t => (s.task t).pending) S f :=
  weight_congr fun _ _ t _ => pending_same (hf.task t)

/-- A task that stays in its process is still owed. -/
theorem owed_relocate {x y : Place} {t : TaskId} {g : Place → Multiset TaskId}
    (hf : Frame s s') (hs : s.places = add g x t) (hs' : s'.places = add g y t)
    (hx : x.2 ∈ containers topo) (hy : y.2 ∈ containers topo) (hxy : y.1 = x.1) (p : Nat) :
    s'.owed topo p = s.owed topo p := by
  unfold Scheduler.owed
  rw [owed_frame hf, hs, hs']
  refine weight_relocate ?_
  rw [mem_placesOf, mem_placesOf, hxy]
  exact and_congr_right fun _ => iff_of_true hy hx

theorem owed_moves (hb : Base topo s) {p : Nat} {c : Container} {t : TaskId}
    (hm : Moves topo s s' p c t) (q : Nat) : s'.owed topo q = s.owed topo q := by
  obtain ⟨g, hs, hs'⟩ := hm.places
  have hfit := hb.fits (p, c) t (by rw [hs, mem_add]; exact Or.inl ⟨rfl, rfl⟩)
  exact owed_relocate hm.frame hs hs' hfit.inTopo (hfit.queue hm.hasQueue).inTopo rfl q

theorem owed_reroute (hb : Base topo s) (hr : Reroute topo s s') (p : Nat) :
    s'.owed topo p = s.owed topo p := by
  rcases Reroute.effect hb.linked hr with hi | ⟨q, c, t, -, hm⟩
  · exact owed_idles hi p
  · exact owed_moves hb hm p

theorem owed_purgeStep (hb : Base topo s) (hp : PurgeStep s s') (q : Nat) :
    s'.owed topo q = s.owed topo q := by
  obtain ⟨p, t, s₁, hd, ha⟩ := PurgeStep.effect hb.linked hp
  have hfit := hb.fits (p, .deadline) t (by rw [hd.places, mem_add]; exact Or.inl ⟨rfl, rfl⟩)
  exact owed_relocate (hd.frame.trans ha.frame) hd.places ha.places hfit.inTopo
    hfit.main.inTopo rfl q

theorem owed_nonneg (hr : Holds Runnable s) (p : Nat) : 0 ≤ s.owed topo p :=
  weight_nonneg fun x _ t ht => le_trans (by decide) (hr x t ht).pending_pos

theorem Holds.reroute {P : Task → Place → Prop} (h : Holds P s) (hP : Stable P)
    (hmove : ∀ {k x p i}, P k x → P k (p, .queue i)) (hb : Base topo s)
    (hr : Reroute topo s s') : Holds P s' := by
  rcases Reroute.effect hb.linked hr with hi | ⟨p, c, t, -, hm⟩
  · exact h.idles hP hi
  · exact h.moves hP hm hmove

theorem Holds.purgeStep {P : Task → Place → Prop} (h : Holds P s) (hP : Stable P)
    (hmove : ∀ {k x p i}, P k x → P k (p, .queue i)) (hb : Base topo s)
    (hp : PurgeStep s s') : Holds P s' := by
  obtain ⟨p, t, s₁, hd, ha⟩ := PurgeStep.effect hb.linked hp
  refine (h.drops hP hd).adds hP ha ?_
  have ht := h (p, .deadline) t (by rw [hd.places, mem_add]; exact Or.inl ⟨rfl, rfl⟩)
  exact hP (hd.frame.task t) (hmove ht)

/-- What a hand-out leaves of its task. -/
theorem Takes.left {p : Nat} {c : Container} {t : TaskId} {removed : Int}
    {rest : Place → Multiset TaskId} (ht : Takes s s' p c t removed rest)
    (hk : Runnable (s.task t) (p, c))
    (hwrap : taskIsParallel (s.task t) = false → (s.task t).nextCount ≠ 0) :
    (s'.places = rest ∧ removed = (s.task t).pending)
      ∨ (s'.places = add rest (p, c) t ∧ removed = 1
        ∧ (s'.task t).pending = (s.task t).pending - 1) := by
  rcases ht.after with ⟨hc, hrem, hplaces⟩ | ⟨-, hrem, hplaces⟩
  · refine Or.inl ⟨hplaces, ?_⟩
    have hserial : taskIsParallel (s.task t) = false := by
      by_contra hp
      obtain ⟨i, hi⟩ := (hk.parallel (by simpa using hp)).1
      rcases hc with hc | hc <;> simp [hc] at hi
    rw [hrem, pending_of_not_parallel hserial]
  · by_cases hlast : (s.task t).IsLast
    · rw [if_pos hlast] at hplaces
      exact Or.inl ⟨hplaces, hrem.trans (hk.removed_last hlast)⟩
    · rw [if_neg hlast] at hplaces
      obtain ⟨hone, hpending, -⟩ := hk.removed_more hwrap hlast
      refine Or.inr ⟨hplaces.trans ht.before, hrem.trans hone, ?_⟩
      rw [← hpending]
      exact pending_same ht.self

/-- A hand-out lowers what is owed by exactly what it removes. -/
theorem owed_takes {p : Nat} {c : Container} {t : TaskId} {removed : Int}
    {rest : Place → Multiset TaskId} (hb : Base topo s) (hr : Holds Runnable s)
    (hwrap : taskIsParallel (s.task t) = false → (s.task t).nextCount ≠ 0)
    (ht : Takes s s' p c t removed rest) :
    1 ≤ removed ∧ removed ≤ s.owed topo p
      ∧ ∀ q, s'.owed topo q = s.owed topo q - if q = p then removed else 0 := by
  have hk := hr _ _ ht.mem
  have hpos := hk.pending_pos
  have habs := ht.absent hb.linked
  -- the weight of the other tasks
  let others (q : Nat) := weight (fun u => (s.task u).pending) (placesOf topo q) rest
  have hsame (q : Nat) :
      weight (fun u => (s'.task u).pending) (placesOf topo q) rest = others q := by
    refine weight_congr fun x _ u hu => ?_
    have hut : u ≠ t := fun h => habs x (h ▸ hu)
    exact pending_same (ht.other u hut)
  have hnonneg : 0 ≤ others p := by
    refine weight_nonneg fun x _ u hu => ?_
    have hx : u ∈ s.places x := by
      rw [ht.before, mem_add]
      exact Or.inr hu
    have := (hr x u hx).pending_pos
    omega
  have hmem (q : Nat) : (p, c) ∈ placesOf topo q ↔ q = p := by
    rw [mem_placesOf]
    exact ⟨fun h => h.1.symm, fun h => ⟨h.symm, (hb.fits _ _ ht.mem).inTopo⟩⟩
  have hbefore (q : Nat) :
      s.owed topo q = (if q = p then (s.task t).pending else 0) + others q := by
    simp only [Scheduler.owed, ht.before, weight_add_ite, hmem, others]
  rcases ht.left hk hwrap with ⟨hplaces, hrem⟩ | ⟨hplaces, hrem, hpending⟩
  · have hafter (q : Nat) : s'.owed topo q = others q := by
      rw [Scheduler.owed, hplaces, hsame]
    refine ⟨by omega, ?_, fun q => ?_⟩
    · rw [hbefore, if_pos rfl]
      omega
    · rw [hafter, hbefore, hrem]
      omega
  · have hafter (q : Nat) :
        s'.owed topo q = (if q = p then (s.task t).pending - 1 else 0) + others q := by
      simp only [Scheduler.owed, hplaces, weight_add_ite, hmem, hsame, hpending]
    refine ⟨by omega, ?_, fun q => ?_⟩
    · rw [hbefore, if_pos rfl]
      omega
    · rw [hafter, hbefore, hrem]
      split <;> omega

/-! ## Steps that hand nothing out -/

theorem Accounted.tasks_nonneg {a : Accounts} (h : Accounted topo a) (p : Nat) :
    0 ≤ (a.sched.proc p).tasks := by
  rw [h.tasks]
  exact owed_nonneg h.runnable p

theorem Accounted.inserted_nonneg {a : Accounts} (h : Accounted topo a) (p : Nat) :
    0 ≤ a.inserted p := by
  have h₁ := h.tasks_nonneg p
  have h₂ := h.served_nonneg p
  have h₃ := h.served p
  omega

/-- The counters stay, and so does what is owed. -/
theorem Accounted.frame {a : Accounts} (h : Accounted topo a) (hb : Base topo s')
    (hr : Holds Runnable s') (hf : Frame a.sched s')
    (howed : ∀ p, s'.owed topo p = a.sched.owed topo p) :
    Accounted topo { a with sched := s' } := by
  refine ⟨hb, hr, fun p => ?_, ?_, fun p => ?_, fun p => ?_, fun p hp => h.fresh p ?_, ?_⟩
  · rw [hf.tasks, h.tasks, howed]
  · simp only [hf.total, hf.queues, hf.tasks]
    exact h.total
  · simp only [hf.served, hf.tasks]
    exact h.served p
  · simp only [hf.served]
    exact h.served_nonneg p
  · simpa only [hf.queues] using hp
  · simpa only [hf.queues] using h.bound

theorem Accounted.idles {a : Accounts} (h : Accounted topo a) (hi : Idles a.sched s') :
    Accounted topo { a with sched := s' } :=
  h.frame (h.base.idles hi) (h.runnable.idles runnable_stable hi) hi.frame (owed_idles hi)

theorem Accounted.reroutes {a : Accounts} (h : Accounted topo a)
    (hr : ReflTransGen (Reroute topo) a.sched s') : Accounted topo { a with sched := s' } := by
  induction hr with
  | refl => exact h
  | tail _ hstep ih =>
      exact ih.frame (ih.base.reroute hstep)
        (ih.runnable.reroute runnable_stable (fun hk => hk.queue _ _) ih.base hstep)
        (reroute_frame ih.base.linked hstep) (owed_reroute ih.base hstep)

theorem Accounted.purgeSteps {a : Accounts} (h : Accounted topo a)
    (hp : ReflTransGen PurgeStep a.sched s') : Accounted topo { a with sched := s' } := by
  induction hp with
  | refl => exact h
  | tail _ hstep ih =>
      obtain ⟨p, t, s₁, hd, ha⟩ := PurgeStep.effect ih.base.linked hstep
      exact ih.frame (ih.base.purgeStep hstep)
        (ih.runnable.purgeStep runnable_stable (fun hk => hk.queue _ _) ih.base hstep)
        (hd.frame.trans ha.frame) (owed_purgeStep ih.base hstep)

/-! ## A hand-out -/

theorem sizeT_of_bounds {x : Int} (h₀ : 0 ≤ x) (h₁ : x < 18446744073709551616) :
    sizeT x = x := Int.emod_eq_of_lt h₀ h₁

/-- No process owes more than all of them. -/
theorem Accounted.tasks_le_total {a : Accounts} (h : Accounted topo a) {p : Nat}
    (hp : p ∈ a.sched.queues) : (a.sched.proc p).tasks ≤ a.sched.tasks := by
  rw [h.total]
  exact Finset.single_le_sum (f := fun q => (a.sched.proc q).tasks)
    (fun q _ => h.tasks_nonneg q) (List.mem_toFinset.mpr hp)

theorem Accounted.inserted_lt {a : Accounts} (h : Accounted topo a) (p : Nat) :
    a.inserted p < 18446744073709551616 := by
  by_cases hp : p ∈ a.sched.queues
  · refine lt_of_le_of_lt ?_ h.bound
    exact Finset.single_le_sum (f := a.inserted) (fun q _ => h.inserted_nonneg q)
      (List.mem_toFinset.mpr hp)
  · rw [h.fresh p hp]
    decide

theorem Accounted.total_le {a : Accounts} (h : Accounted topo a) :
    a.sched.tasks < 18446744073709551616 := by
  refine lt_of_le_of_lt ?_ h.bound
  rw [h.total]
  refine Finset.sum_le_sum fun p _ => ?_
  have h₁ := h.served p
  have h₂ := h.served_nonneg p
  omega

/-- A task is handed out and its process pays for it. -/
theorem Accounted.handOut {a : Accounts} (h : Accounted topo a) {p : Nat} {c : Container}
    {t : TaskId} {removed : Int} {rest : Place → Multiset TaskId} {s₂ s₃ : Scheduler}
    (hp : p ∈ a.sched.queues)
    (hwrap : taskIsParallel (a.sched.task t) = false → (a.sched.task t).nextCount ≠ 0)
    (ht : Takes a.sched s₂ p c t removed rest) (hs : Serves s₂ s₃ p removed) :
    Accounted topo { a with sched := s₃ }
      ∧ (∀ q, (s₃.proc q).tasks ≤ (a.sched.proc q).tasks) ∧ s₃.tasks ≤ a.sched.tasks := by
  obtain ⟨hone, hle, howed⟩ := owed_takes h.base h.runnable hwrap ht
  have hle' : removed ≤ (a.sched.proc p).tasks := by
    rw [h.tasks]
    exact hle
  have hserved := h.served p
  have hserved₀ := h.served_nonneg p
  have hlt := h.inserted_lt p
  have htotal := h.tasks_le_total hp
  have htotal' := h.total_le
  -- none of the three counters wraps
  have htasks (q : Nat) : (s₃.proc q).tasks
      = (a.sched.proc q).tasks - if q = p then removed else 0 := by
    rw [hs.tasks, ht.tasks]
    split
    · rename_i hq
      rw [hq, sizeT_of_bounds (by omega) (by omega)]
    · omega
  have hserved₃ (q : Nat) : (s₃.proc q).servedTasks
      = (a.sched.proc q).servedTasks + if q = p then removed else 0 := by
    rw [hs.served]
    simp only [ht.served]
    split
    · rename_i hq
      rw [hq, sizeT_of_bounds (by omega) (by omega)]
    · omega
  have htot : s₃.tasks = a.sched.tasks - removed := by
    rw [hs.total, ht.total, sizeT_of_bounds (by omega) (by omega)]
  have hqueues : s₃.queues = a.sched.queues := hs.queues.trans ht.queues
  have hbase : Base topo s₃ := (h.base.takes ht).serves hs
  have hrunnable₂ : Holds Runnable s₂ :=
    h.runnable.takes runnable_stable h.base.linked ht
      fun hlast hk => (hk.removed_more hwrap hlast).2.2
  have hrunnable : Holds Runnable s₃ := by
    intro x u hu
    rw [hs.places] at hu
    rw [hs.task]
    exact hrunnable₂ x u hu
  refine ⟨⟨hbase, hrunnable, fun q => ?_, ?_, fun q => ?_, fun q => ?_, fun q hq => ?_, ?_⟩,
    fun q => ?_, ?_⟩
  · rw [htasks, h.tasks, ← howed q]
    exact (owed_congr hs.places (fun _ u _ => by rw [hs.task]) q).symm
  · simp only [hqueues]
    rw [sum_change (v := fun q => (a.sched.proc q).tasks) (List.mem_toFinset.mpr hp)
      fun q hq => by rw [htasks, if_neg hq, sub_zero]]
    rw [htot, h.total, htasks, if_pos rfl]
    omega
  · simp only [htasks, hserved₃]
    have := h.served q
    omega
  · simp only [hserved₃]
    have := h.served_nonneg q
    split <;> omega
  · exact h.fresh q (by simpa only [hqueues] using hq)
  · simpa only [hqueues] using h.bound
  · rw [htasks]
    split <;> omega
  · omega

/-! ## Insertion -/

/-- A process that never had a task has its counters at zero. -/
theorem Accounted.counters_fresh {a : Accounts} (h : Accounted topo a) {p : Nat}
    (hp : p ∉ a.sched.queues) :
    (a.sched.proc p).tasks = 0 ∧ (a.sched.proc p).servedTasks = 0 := by
  have h₁ := h.served p
  have h₂ := h.served_nonneg p
  have h₃ := h.tasks_nonneg p
  rw [h.fresh p hp] at h₁
  omega

theorem Accounted.ensurePid {a : Accounts} (h : Accounted topo a) (pid : Nat) :
    Accounted topo { a with sched := ensurePid a.sched pid } := by
  obtain ⟨hb, hplaces, -⟩ := h.base.ensurePid pid
  by_cases hp : pid ∈ a.sched.queues
  · have hsame : Nosv.ensurePid a.sched pid = a.sched := by
      unfold Nosv.ensurePid
      rw [if_pos hp]
    rw [hsame]
    exact h
  · obtain ⟨hzero, hzero'⟩ := h.counters_fresh hp
    have hinit : Nosv.ensurePid a.sched pid = schedulerInitPid a.sched pid := by
      unfold Nosv.ensurePid
      rw [if_neg hp]
    rw [hinit] at hb hplaces ⊢
    have hproc (q : Nat) : ((schedulerInitPid a.sched pid).proc q).tasks
          = (a.sched.proc q).tasks
        ∧ ((schedulerInitPid a.sched pid).proc q).servedTasks
          = (a.sched.proc q).servedTasks := by
      by_cases hq : q = pid
      · subst hq
        simp [schedulerInitPid, emptyProcess, hzero, hzero']
      · simp [schedulerInitPid, hq]
    have hqueues : (schedulerInitPid a.sched pid).queues.toFinset
        = insert pid a.sched.queues.toFinset := by
      simp [schedulerInitPid, List.toFinset_append]
    have hnot : pid ∉ a.sched.queues.toFinset := fun hm => hp (List.mem_toFinset.mp hm)
    refine ⟨hb, fun x t ht => ?_, fun q => ?_, ?_, fun q => ?_, fun q => ?_, fun q hq => ?_, ?_⟩
    · rw [hplaces] at ht
      exact h.runnable x t ht
    · rw [(hproc q).1, h.tasks]
      exact (owed_congr hplaces (fun _ _ _ => rfl) q).symm
    · simp only [hqueues, (hproc _).1]
      rw [Finset.sum_insert hnot, hzero, zero_add]
      exact h.total
    · simp only [(hproc q).1, (hproc q).2]
      exact h.served q
    · simp only [(hproc q).2]
      exact h.served_nonneg q
    · exact h.fresh q fun hm => hq (List.mem_append_left _ hm)
    · simp only [hqueues]
      rw [Finset.sum_insert hnot, h.fresh pid hp, zero_add]
      exact h.bound

/-- What an inserted task must look like for its degree to be what the
scheduler will hand out. -/
def CleanInsert (k : Task) : Prop :=
  taskIsParallel k = true →
    k.scheduledCount = 0 ∧ k.yield = 0 ∧ (k.deadline = 0 ∨ k.deadlineState ≠ .pending)

instance (k : Task) : Decidable (CleanInsert k) := inferInstanceAs (Decidable (_ → _))

theorem CleanInsert.runnable {k : Task} (hc : CleanInsert k) (hpos : 0 < k.degree)
    (hty : k.Typed) (p : Nat) : Runnable k (p, readyContainer k) ∧ k.pending = k.degree := by
  have hlt := hty.2.1
  cases hp : taskIsParallel k with
  | false =>
      have hone : k.degree = 1 := by
        have hiff := (taskIsParallel_iff (t := k)).not
        rw [hp] at hiff
        have := not_not.mp (hiff.mp (by simp))
        omega
      refine ⟨⟨by omega, fun _ => hone, fun h => ?_⟩, ?_⟩
      · rw [hp] at h
        cases h
      · rw [pending_of_not_parallel hp, hone]
  | true =>
      obtain ⟨hcount, hyield, hdl⟩ := hc hp
      have hready : readyContainer k = .queue .main := by
        unfold readyContainer
        rw [if_neg (by simpa using hyield), if_neg (by rintro ⟨h₁, h₂⟩; tauto)]
      refine ⟨⟨by omega, fun h => ?_, fun _ => ⟨⟨.main, hready⟩, by omega⟩⟩, ?_⟩
      · rw [hp] at h
        cases h
      · rw [pending_of_parallel hp, hcount]
        omega

theorem owed_adds {t : TaskId} {x : Place} (ha : Adds s s' x t) (hx : x.2 ∈ containers topo)
    (q : Nat) :
    s'.owed topo q = (if q = x.1 then (s.task t).pending else 0) + s.owed topo q := by
  have hmem : x ∈ placesOf topo q ↔ q = x.1 := by
    rw [mem_placesOf]
    exact ⟨fun h => h.1.symm, fun h => ⟨h.symm, hx⟩⟩
  unfold Scheduler.owed
  rw [owed_frame ha.frame, ha.places, weight_add_ite]
  simp only [hmem]

theorem Accounted.sum_ensurePid {a : Accounts} (h : Accounted topo a) (pid : Nat) :
    ∑ p ∈ (Nosv.ensurePid a.sched pid).queues.toFinset, a.inserted p
      = ∑ p ∈ a.sched.queues.toFinset, a.inserted p := by
  unfold Nosv.ensurePid
  split
  · rfl
  · rename_i hp
    simp only [schedulerInitPid, List.toFinset_append, List.toFinset_cons, List.toFinset_nil,
      insert_empty_eq, Finset.union_singleton]
    rw [Finset.sum_insert (by simpa using hp), h.fresh pid hp, zero_add]

/-- The counters after an insertion into a process that is there. -/
theorem Accounted.addDegree {a : Accounts} (h : Accounted topo a) {t : TaskId} {s₁ : Scheduler}
    {c : Container} {p : Nat} {degree : Int} (hp : p ∈ a.sched.queues) (hpos : 0 < degree)
    (hbound : ∑ q ∈ a.sched.queues.toFinset, a.inserted q + degree < 18446744073709551616)
    (hadds : Adds a.sched s₁ (p, c) t) (hc : c ∈ containers topo)
    (hpending : (a.sched.task t).pending = degree) (hrun : Runnable (a.sched.task t) (p, c))
    (hbase : Base topo (addDegree s₁ p degree)) :
    Accounted topo ⟨addDegree s₁ p degree,
      Function.update a.inserted p (a.inserted p + degree)⟩ := by
  have hf := hadds.frame
  have hserved := h.served p
  have hserved₀ := h.served_nonneg p
  have htotal := h.tasks_le_total hp
  have hlt : ∀ q, a.inserted q ≤ ∑ q ∈ a.sched.queues.toFinset, a.inserted q := by
    intro q
    by_cases hq : q ∈ a.sched.queues
    · exact Finset.single_le_sum (f := a.inserted) (fun q _ => h.inserted_nonneg q)
        (List.mem_toFinset.mpr hq)
    · rw [h.fresh q hq]
      exact Finset.sum_nonneg fun q _ => h.inserted_nonneg q
  have hsum : a.sched.tasks ≤ ∑ q ∈ a.sched.queues.toFinset, a.inserted q := by
    rw [h.total]
    refine Finset.sum_le_sum fun q _ => ?_
    have h₁ := h.served q
    have h₂ := h.served_nonneg q
    omega
  have hle := hlt p
  have hp₀ := h.tasks_nonneg p
  have htasks (q : Nat) : ((Nosv.addDegree s₁ p degree).proc q).tasks
      = (a.sched.proc q).tasks + if q = p then degree else 0 := by
    by_cases hq : q = p
    · subst hq
      rw [if_pos rfl, ← hf.tasks]
      simp only [Nosv.addDegree, Scheduler.modProc, Function.update_self]
      rw [hf.tasks, sizeT_of_bounds (by omega) (by omega)]
    · rw [if_neg hq, add_zero, ← hf.tasks]
      simp [Nosv.addDegree, Scheduler.modProc, hq]
  have hserved₁ (q : Nat) : ((Nosv.addDegree s₁ p degree).proc q).servedTasks
      = (a.sched.proc q).servedTasks := by
    rw [← hf.served]
    by_cases hq : q = p
    · subst hq
      simp [Nosv.addDegree, Scheduler.modProc]
    · simp [Nosv.addDegree, Scheduler.modProc, hq]
  have htot : (Nosv.addDegree s₁ p degree).tasks = a.sched.tasks + degree := by
    simp only [Nosv.addDegree, hf.total]
    exact sizeT_of_bounds (by omega) (by omega)
  have hqueues : (Nosv.addDegree s₁ p degree).queues = a.sched.queues := hf.queues
  refine ⟨hbase, fun x u hu => ?_, fun q => ?_, ?_, fun q => ?_, fun q => ?_, fun q hq => ?_, ?_⟩
  · rw [addDegree_places] at hu
    exact h.runnable.adds runnable_stable hadds hrun x u hu
  · rw [htasks, h.tasks, owed_congr (addDegree_places s₁ p degree) (fun _ _ _ => rfl),
      owed_adds hadds hc, hpending]
    simp only
    omega
  · simp only [hqueues]
    rw [sum_change (v := fun q => (a.sched.proc q).tasks) (List.mem_toFinset.mpr hp)
      fun q hq => by rw [htasks, if_neg hq, add_zero]]
    rw [htot, h.total, htasks, if_pos rfl]
    omega
  · simp only [htasks, hserved₁]
    have := h.served q
    by_cases hq : q = p
    · subst hq
      simp only [if_true, Function.update_self]
      omega
    · simp only [if_neg hq, Function.update_of_ne hq]
      omega
  · simp only [hserved₁]
    exact h.served_nonneg q
  · have hq' : q ∉ a.sched.queues := by simpa only [hqueues] using hq
    have hqp : q ≠ p := fun h => hq' (h ▸ hp)
    simp only [Function.update_of_ne hqp]
    exact h.fresh q hq'
  · simp only [hqueues]
    rw [sum_change (v := a.inserted) (List.mem_toFinset.mpr hp)
      fun q hq => by rw [Function.update_of_ne hq], Function.update_self]
    omega

theorem Accounted.insert {a : Accounts} (h : Accounted topo a) {t : TaskId}
    (hnot : ¬ a.sched.Holding topo t) (hpos : 0 < (a.sched.task t).degree)
    (hty : (a.sched.task t).Typed) (hvalid : (a.sched.task t).affinity.Valid topo)
    (hclean : CleanInsert (a.sched.task t))
    (hbound : ∑ p ∈ a.sched.queues.toFinset, a.inserted p + (a.sched.task t).degree
      < 18446744073709551616)
    (hins : schedulerInsertReadyTask a.sched t = some s') :
    Accounted topo ⟨s', Function.update a.inserted (a.sched.task t).pid
      (a.inserted (a.sched.task t).pid + (a.sched.task t).degree)⟩ := by
  have hbase : Base topo s' := h.base.insert (h.base.absent_iff.mpr hnot) hvalid hins
  obtain ⟨s₁, hadds, rfl⟩ := insert_cases h.base (h.base.absent_iff.mpr hnot) hins
  obtain ⟨hrun, hpending⟩ := hclean.runnable hpos hty (a.sched.task t).pid
  have h₀ := h.ensurePid (a.sched.task t).pid
  rw [← h.sum_ensurePid (a.sched.task t).pid] at hbound
  have htask : (Nosv.ensurePid a.sched (a.sched.task t).pid).task t = a.sched.task t := by
    rw [ensurePid_task]
  refine h₀.addDegree (h.base.ensurePid _).2.2 hpos hbound hadds (readyContainer_mem topo _)
    ?_ ?_ hbase
  · simp only [htask]
    exact hpending
  · simp only [htask]
    exact hrun

/-! ## Runs -/

/-- The steps whose counters the scheduler can keep exact: a parallel task
is inserted unserved, not marked as yielding and not to wait for a
deadline; an ordinary one has not been scheduled `2 ^ 32 - 1` times; the
executions ever inserted fit a `size_t`. -/
def Disciplined (topo : Topology) (a : Accounts) : SchedOp → Prop
  | .insert t =>
      (a.sched.task t).affinity.Valid topo ∧ CleanInsert (a.sched.task t)
        ∧ ∑ p ∈ a.sched.queues.toFinset, a.inserted p + (a.sched.task t).degree
          < 18446744073709551616
  | .get .. => ∀ p ∈ a.sched.queues, ∀ c ∈ containers topo, ∀ t ∈ a.sched.places (p, c),
      taskIsParallel (a.sched.task t) = false → (a.sched.task t).nextCount ≠ 0
  | _ => True

instance (topo : Topology) (a : Accounts) : ∀ op, Decidable (Disciplined topo a op)
  | .insert _ => inferInstanceAs (Decidable (_ ∧ _))
  | .get .. => inferInstanceAs (Decidable (∀ p ∈ a.sched.queues, ∀ c ∈ containers topo,
      ∀ t ∈ a.sched.places (p, c),
        taskIsParallel (a.sched.task t) = false → (a.sched.task t).nextCount ≠ 0))
  | .prepare .. => isTrue trivial
  | .purge _ => isTrue trivial
  | .cancel _ => isTrue trivial
  | .wake _ => isTrue trivial

/-- An ordinary task can be scheduled once more. -/
def Countable (k : Task) (_ : Place) : Prop := taskIsParallel k = false → k.nextCount ≠ 0

theorem countable_stable : Stable Countable := by
  intro k k' x hk h hp
  have := h (by rwa [parallel_same hk] at hp)
  simpa only [Task.nextCount, hk.scheduledCount] using this

theorem countable_of_disciplined {a : Accounts} {cpu pid ts : Nat} {external : Bool}
    (hb : Base topo a.sched) (h : Disciplined topo a (.get cpu pid external ts)) :
    Holds Countable a.sched := by
  intro x t ht
  have hfit := hb.fits x t ht
  exact h x.1 hfit.known x.2 hfit.inTopo t ht

theorem Countable.reroutes (hb : Base topo s) (h : Holds Countable s)
    (hr : ReflTransGen (Reroute topo) s s') : Holds Countable s' := by
  induction hr with
  | refl => exact h
  | tail hrest hstep ih =>
      exact ih.reroute countable_stable (fun hk => hk) (hb.reroutes hrest) hstep

theorem Accounted.get {a : Accounts} (h : Accounted topo a) {cpu pid ts : Nat} {external : Bool}
    (hC : Disciplined topo a (.get cpu pid external ts)) :
    Accounted topo { a with sched := (schedulerGetInternal topo a.sched cpu pid external ts).2 }
      ∧ (∀ q, (((schedulerGetInternal topo a.sched cpu pid external ts).2).proc q).tasks
          ≤ (a.sched.proc q).tasks)
      ∧ (schedulerGetInternal topo a.sched cpu pid external ts).2.tasks ≤ a.sched.tasks := by
  have hcount := countable_of_disciplined h.base hC
  cases hget : schedulerGetInternal topo a.sched cpu pid external ts with
  | mk r s' =>
      obtain ⟨s₁, hr, -, hrest⟩ := get_cases h.base hget
      have h₁ := h.reroutes hr
      have hcount₁ := Countable.reroutes h.base hcount hr
      have hf := reroutes_frame h.base hr
      cases r with
      | none =>
          refine ⟨h₁.idles hrest, fun q => ?_, ?_⟩
          · rw [hrest.frame.tasks, hf.tasks]
          · rw [hrest.frame.total, hf.total]
      | some t =>
          obtain ⟨p, hp, c, removed, rest, s₂, s₃, -, htakes, hserves, hidle⟩ := hrest
          obtain ⟨h₃, hle, htotal⟩ := h₁.handOut hp (hcount₁ _ _ htakes.mem) htakes hserves
          refine ⟨h₃.idles hidle, fun q => ?_, ?_⟩
          · rw [hidle.frame.tasks, ← hf.tasks]
            exact hle q
          · rw [hidle.frame.total, ← hf.total]
            exact htotal

/-- Writes to a task that is not stored change nothing. -/
theorem Accounted.prepare {a : Accounts} (h : Accounted topo a) {t : TaskId} {k : Task}
    (hnot : ¬ a.sched.Holding topo t) :
    Accounted topo { a with sched := a.sched.modTask t fun _ => k } := by
  have habs := h.base.absent_iff.mpr hnot
  have hoff : ∀ x u, u ∈ a.sched.places x →
      (a.sched.modTask t fun _ => k).task u = a.sched.task u := by
    intro x u hu
    have hut : u ≠ t := fun heq => habs x (heq ▸ hu)
    simp [Scheduler.modTask, hut]
  refine ⟨h.base.modTask (f := fun _ => k) (Or.inl habs), fun x u hu => ?_, fun p => ?_, h.total,
    h.served, h.served_nonneg, h.fresh, h.bound⟩
  · rw [hoff x u hu]
    exact h.runnable x u hu
  · have hplaces : (a.sched.modTask t fun _ => k).places = a.sched.places := rfl
    rw [owed_congr hplaces fun x u hu => by rw [hoff x u hu]]
    exact h.tasks p

/-- A cancelled parallel task still counts for what it has left. -/
theorem Accounted.cancel {a : Accounts} (h : Accounted topo a) {t : TaskId}
    (hpar : taskIsParallel (a.sched.task t) = true) :
    Accounted topo
      { a with sched := a.sched.modTask t fun k => { k with degree := -k.degree } } := by
  have htask (u : TaskId) :
      ((a.sched.modTask t fun k => { k with degree := -k.degree }).task u).pending
        = (a.sched.task u).pending := by
    by_cases hut : u = t
    · subst hut
      simp [Scheduler.modTask, Task.pending]
    · simp [Scheduler.modTask, hut]
  refine ⟨h.base.modTask (f := fun k => { k with degree := -k.degree }) (Or.inr ⟨rfl, rfl, rfl⟩),
    fun x u hu => ?_, fun p => ?_, h.total, h.served, h.served_nonneg, h.fresh, h.bound⟩
  · have hu' := h.runnable x u hu
    by_cases hut : u = t
    · subst hut
      simp only [Scheduler.modTask, Function.update_self]
      refine ⟨by simpa using hu'.bounded, fun hp => ?_, fun _ => ?_⟩
      · rw [taskIsParallel_iff] at hpar
        exact absurd hp (by simpa [taskIsParallel_iff] using hpar)
      · simpa using hu'.parallel hpar
    · simpa [Scheduler.modTask, hut] using hu'
  · have hplaces : (a.sched.modTask t fun k => { k with degree := -k.degree }).places
        = a.sched.places := rfl
    rw [owed_congr hplaces fun x u _ => htask u]
    exact h.tasks p

theorem accounted_step {a a' : Accounts} {op : SchedOp} (hC : Disciplined topo a op)
    (hstep : a.step topo op = some a') (h : Accounted topo a) : Accounted topo a' := by
  have hcase := Accounts.step_cases hstep
  cases op with
  | prepare t k =>
      obtain ⟨hnot, rfl⟩ := hcase
      exact h.prepare hnot
  | insert t =>
      obtain ⟨hnot, hpos, hty, s, hins, rfl⟩ := hcase
      obtain ⟨hvalid, hclean, hbound⟩ := hC
      exact h.insert hnot hpos hty hvalid hclean hbound hins
  | get cpu pid external ts =>
      obtain ⟨-, rfl⟩ := hcase
      exact (h.get hC).1
  | purge logicPid =>
      simp only at hcase
      subst hcase
      obtain ⟨s₁, hp, -, hidle⟩ := purge_cases h.base logicPid
      exact (h.purgeSteps hp).idles hidle
  | cancel t =>
      obtain ⟨-, hpar, rfl | ⟨-, rfl⟩⟩ := hcase
      · exact h
      · exact h.cancel hpar
  | wake t =>
      obtain ⟨-, rfl⟩ := hcase
      exact h.idles (submitDeadlineWake_idles h.base.linked t)

theorem accounted_init (task : TaskId → Task) (quantumNs : Nat) (clock : Nat → Nat) :
    Accounted topo (Accounts.init task quantumNs clock) := by
  have hb : Base topo (schedulerInit task quantumNs clock) := base_init task quantumNs clock
  have hempty : ∀ x, (schedulerInit task quantumNs clock).places x = 0 := by
    intro x
    refine Multiset.eq_zero_of_forall_notMem fun t ht => ?_
    exact absurd (hb.fits x t ht).known (List.not_mem_nil)
  refine ⟨hb, fun x t ht => ?_, fun p => ?_, rfl, fun p => rfl, fun p => le_refl 0,
    fun p _ => rfl, ?_⟩
  · have ht' : t ∈ (schedulerInit task quantumNs clock).places x := ht
    rw [hempty] at ht'
    exact absurd ht' (Multiset.notMem_zero t)
  · exact (weight_empty fun x _ => hempty x).symm
  · simp [Accounts.init, schedulerInit]

/-- Conservation: every stored task is in one container of its own
process, and the counters are the executions still to hand out. -/
structure Conserved (topo : Topology) (a : Accounts) : Prop where
  one_place : ∀ p c t, t ∈ a.sched.places (p, c) →
    (a.sched.task t).pid = p ∧ c ∈ containers topo ∧ (a.sched.places (p, c)).count t = 1
      ∧ ∀ q d, t ∈ a.sched.places (q, d) → q = p ∧ d = c
  tasks : ∀ p, (a.sched.proc p).tasks = a.sched.owed topo p
  total : a.sched.tasks = ∑ p ∈ a.sched.queues.toFinset, (a.sched.proc p).tasks
  served : ∀ p, (a.sched.proc p).servedTasks + (a.sched.proc p).tasks = a.inserted p

theorem Accounted.conserved {a : Accounts} (h : Accounted topo a) : Conserved topo a := by
  refine ⟨fun p c t ht => ?_, h.tasks, h.total, h.served⟩
  have hfit := h.base.fits (p, c) t ht
  refine ⟨hfit.own, hfit.inTopo, ?_, fun q d hq => ?_⟩
  · exact Multiset.count_eq_one_of_mem (h.base.linked.distinct.nodup (p, c)) ht
  · exact Prod.mk.injEq .. |>.mp (h.base.linked.distinct.inj hq ht)

/-- A search only ever lowers the two `size_t` counters, and not below zero. -/
def NoUnderflow (topo : Topology) (a : Accounts) : SchedOp → Prop
  | .get cpu pid external ts =>
      let s' := (schedulerGetInternal topo a.sched cpu pid external ts).2
      (∀ p, 0 ≤ (s'.proc p).tasks ∧ (s'.proc p).tasks ≤ (a.sched.proc p).tasks)
        ∧ 0 ≤ s'.tasks ∧ s'.tasks ≤ a.sched.tasks
  | _ => True

theorem Accounted.total_nonneg {a : Accounts} (h : Accounted topo a) : 0 ≤ a.sched.tasks := by
  rw [h.total]
  exact Finset.sum_nonneg fun p _ => h.tasks_nonneg p

theorem Accounted.noUnderflow {a : Accounts} {op : SchedOp} (h : Accounted topo a)
    (hC : Disciplined topo a op) : NoUnderflow topo a op := by
  cases op with
  | get cpu pid external ts =>
      obtain ⟨h', hle, htotal⟩ := h.get hC
      exact ⟨fun p => ⟨h'.tasks_nonneg p, hle p⟩, h'.total_nonneg, htotal⟩
  | prepare | insert | purge | cancel | wake => trivial

/-- In every run of disciplined steps the scheduler conserves executions,
and no search makes a counter wrap. -/
theorem scheduler_conserves (topo : Topology) (task : TaskId → Task) (quantumNs : Nat)
    (clock : Nat → Nat) (ops : List SchedOp) (a : Accounts)
    (hrun : Run.run (Accounts.step topo) (.init task quantumNs clock) ops = some a)
    (hC : Run.Along (Accounts.step topo) (Disciplined topo) (.init task quantumNs clock) ops) :
    Conserved topo a
      ∧ Run.Along (Accounts.step topo) (NoUnderflow topo) (.init task quantumNs clock) ops := by
  have hinit : Accounted topo (.init task quantumNs clock) := accounted_init ..
  refine ⟨?_, ?_⟩
  · have h : Accounted topo a :=
      Run.invariant_along (fun _ _ _ => accounted_step) hC hrun hinit
    exact h.conserved
  · exact Run.along_of_invariant (fun _ _ _ => accounted_step)
      (fun _ _ hd h => h.noUnderflow hd) hC hinit

/-- A parallel task of degree two, as the program submits it. -/
def pairTask : Task := { nosvCreateInternal 0 ⟨.none, .preferred, 0⟩ with degree := 2 }

/-- A parallel task that is cancelled after its first execution. -/
theorem scheduler_conserves_cancelled :
    ∃ a, Run.run (Accounts.step .oneCpu) (.init (fun _ => pairTask) 0 id)
        [.insert 0, .get 0 0 false 0, .cancel 0, .get 0 0 false 0] = some a
      ∧ Conserved .oneCpu a := by
  have hsome : (Run.run (Accounts.step .oneCpu) (.init (fun _ => pairTask) 0 id)
      [.insert 0, .get 0 0 false 0, .cancel 0, .get 0 0 false 0]).isSome = true := by
    decide +kernel
  obtain ⟨a, hrun⟩ := Option.isSome_iff_exists.mp hsome
  exact ⟨a, hrun, (scheduler_conserves .oneCpu (fun _ => pairTask) 0 id _ a hrun
    (by decide +kernel)).1⟩

/-- A parallel task whose shared word still holds an argument of
`nosv_set_suspend_mode` is taken for a yielding one: the only execution
that leaves the yield list leaves `tasks` at one for ever. -/
theorem stale_word_breaks_conservation :
    ¬ ∀ (ops : List SchedOp) (a : Accounts),
      Run.run (Accounts.step .oneCpu) (.init (fun _ => { pairTask with word := 5 }) 0 id) ops
        = some a → Conserved .oneCpu a := by
  intro hall
  have heval : (Run.run (Accounts.step .oneCpu)
      (.init (fun _ => { pairTask with word := 5 }) 0 id) [.insert 0, .get 0 0 false 0]).map
        (fun a => ((a.sched.proc 0).tasks, a.sched.owed .oneCpu 0)) = some (1, 0) := by
    decide +kernel
  obtain ⟨a, hrun, hval⟩ := Option.map_eq_some_iff.mp heval
  have htasks := (hall _ a hrun).tasks 0
  obtain ⟨h₁, h₂⟩ := Prod.mk.injEq .. |>.mp hval
  rw [h₁, h₂] at htasks
  cases htasks

end Nosv
