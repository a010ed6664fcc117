import Nosv.Lib.Run
import Nosv.Containers

/-!
# Runs of the scheduler

The scheduler as a state machine. A run is any sequence of insertions,
searches and purges, interleaved with what the rest of the system does to
task descriptors: the program fills the descriptor of a task that the
scheduler does not hold (`prepare`), an execution of a parallel task
cancels it (`cancel`), and a sleeping task is woken before its deadline
(`wake`). A search reads the degree of a task once, so that a concurrent
`nosv_cancel` is always a step before or after it.

`Base` is what holds in every run whose insertions name existing domains,
whatever the degrees of the tasks are.
-/

namespace Nosv

open RBTree Relation Places

/-- `nosv_cancel` on the task of the caller; `none` is
`NOSV_ERR_INVALID_OPERATION`. -/
def nosvCancel (k : Task) : Option Task :=
  if k.degree < 0 then none else some { k with degree := -k.degree }

/-- `nosv_submit` with `NOSV_SUBMIT_DEADLINE_WAKE` -/
def submitDeadlineWake (s : Scheduler) (t : TaskId) : Scheduler :=
  let state := (s.task t).deadlineState
  let s := s.modTask t fun k => { k with deadlineState := .ready }
  if state = .waiting then { s with deadlinePurge := s.deadlinePurge + 1 } else s

/-- `scheduler_init` -/
def schedulerInit (task : TaskId → Task) (quantumNs : Nat) (clock : Nat → Nat) : Scheduler where
  task := task
  tasks := 0
  queues := []
  proc := fun _ => emptyProcess 0
  deadlinePurge := 0
  timestamps := fun _ => ⟨0, -1⟩
  quantumNs := quantumNs
  clock := clock
  ticks := 0

/-- The values of a descriptor fit its machine types. -/
def Task.Typed (k : Task) : Prop :=
  -2147483648 ≤ k.degree ∧ k.degree < 2147483648 ∧ k.scheduledCount < 4294967296
    ∧ k.deadline < 18446744073709551616 ∧ k.word < 18446744073709551616

instance (k : Task) : Decidable k.Typed := inferInstanceAs (Decidable (_ ∧ _))

/-- The scheduler holds task `t`. -/
def Scheduler.Holding (topo : Topology) (s : Scheduler) (t : TaskId) : Prop :=
  ∃ p ∈ s.queues, ∃ c ∈ containers topo, t ∈ s.places (p, c)

instance (topo : Topology) (s : Scheduler) (t : TaskId) : Decidable (s.Holding topo t) :=
  inferInstanceAs (Decidable (∃ p ∈ s.queues, ∃ c ∈ containers topo, t ∈ s.places (p, c)))

inductive SchedOp where
  | prepare (t : TaskId) (k : Task)
  | insert (t : TaskId)
  | get (cpu pid : Nat) (external : Bool) (ts : Nat)
  | purge (logicPid : Nat)
  | cancel (t : TaskId)
  | wake (t : TaskId)

/-- The scheduler with the total degree ever inserted for each process. -/
structure Accounts where
  sched : Scheduler
  inserted : Nat → Int

def Accounts.init (task : TaskId → Task) (quantumNs : Nat) (clock : Nat → Nat) : Accounts :=
  ⟨schedulerInit task quantumNs clock, fun _ => 0⟩

/-- One step of a run. Only a task that is not stored may be inserted, and
with a positive degree. -/
def Accounts.step (topo : Topology) (a : Accounts) : SchedOp → Option Accounts
  | .prepare t k =>
      if a.sched.Holding topo t then none
      else some { a with sched := a.sched.modTask t fun _ => k }
  | .insert t =>
      let k := a.sched.task t
      if a.sched.Holding topo t ∨ k.degree ≤ 0 ∨ ¬ k.Typed then none
      else match schedulerInsertReadyTask a.sched t with
        | none => none
        | some s =>
            some ⟨s, Function.update a.inserted k.pid (a.inserted k.pid + k.degree)⟩
  | .get cpu pid external ts =>
      if cpu < topo.count .cpu then
        some { a with sched := (schedulerGetInternal topo a.sched cpu pid external ts).2 }
      else none
  | .purge logicPid => some { a with sched := schedulerDeadlinePurge a.sched logicPid }
  | .cancel t =>
      if a.sched.Holding topo t ∧ taskIsParallel (a.sched.task t) = true then
        match nosvCancel (a.sched.task t) with
        | none => some a
        | some k => some { a with sched := a.sched.modTask t fun _ => k }
      else none
  | .wake t =>
      if taskIsParallel (a.sched.task t) = true then none
      else some { a with sched := submitDeadlineWake a.sched t }

/-! ## Properties of the stored tasks -/

/-- `P` holds of every stored task and its place. -/
def Holds (P : Task → Place → Prop) (s : Scheduler) : Prop :=
  ∀ x t, t ∈ s.places x → P (s.task t) x

/-- A property of what the container operations never write. -/
def Stable (P : Task → Place → Prop) : Prop :=
  ∀ {k k' x}, SameTask k k' → P k x → P k' x

variable {topo : Topology} {s s' : Scheduler} {P : Task → Place → Prop}

theorem Holds.idles (h : Holds P s) (hP : Stable P) (hi : Idles s s') : Holds P s' := by
  intro x t ht
  rw [hi.places] at ht
  exact hP (hi.frame.task t) (h x t ht)

theorem Holds.drops (h : Holds P s) (hP : Stable P) {x : Place} {t : TaskId}
    (hd : Drops s s' x t) : Holds P s' := by
  intro y u hu
  refine hP (hd.frame.task u) (h y u ?_)
  rw [hd.places, mem_add]
  exact Or.inr hu

theorem Holds.adds (h : Holds P s) (hP : Stable P) {x : Place} {t : TaskId}
    (ha : Adds s s' x t) (ht : P (s.task t) x) : Holds P s' := by
  intro y u hu
  rw [ha.places, mem_add] at hu
  refine hP (ha.frame.task u) ?_
  rcases hu with ⟨rfl, rfl⟩ | hu
  · exact ht
  · exact h y u hu

theorem Holds.moves (h : Holds P s) (hP : Stable P) {p : Nat} {c : Container} {t : TaskId}
    (hm : Moves topo s s' p c t)
    (hmove : P (s.task t) (p, c) → P (s.task t) (p, .queue (affineQueue topo (s.task t).affinity))) :
    Holds P s' := by
  obtain ⟨g, hbefore, hafter⟩ := hm.places
  intro y u hu
  rw [hafter, mem_add] at hu
  refine hP (hm.frame.task u) ?_
  rcases hu with ⟨rfl, rfl⟩ | hu
  · exact hmove (h _ _ (by rw [hbefore, mem_add]; exact Or.inl ⟨rfl, rfl⟩))
  · exact h y u (by rw [hbefore, mem_add]; exact Or.inr hu)

theorem Takes.mem {p : Nat} {c : Container} {t : TaskId} {removed : Int}
    {rest : Place → Multiset TaskId} (ht : Takes s s' p c t removed rest) : t ∈ s.places (p, c) := by
  rw [ht.before, mem_add]
  exact Or.inl ⟨rfl, rfl⟩

theorem Takes.absent {p : Nat} {c : Container} {t : TaskId} {removed : Int}
    {rest : Place → Multiset TaskId} (ht : Takes s s' p c t removed rest) (hl : Linked s) :
    Absent rest t := by
  have hd := hl.distinct
  rw [ht.before] at hd
  exact hd.of_add.2

theorem Takes.places_subset {p : Nat} {c : Container} {t : TaskId} {removed : Int}
    {rest : Place → Multiset TaskId} (ht : Takes s s' p c t removed rest) {x : Place} {u : TaskId}
    (hu : u ∈ s'.places x) : u ∈ s.places x := by
  have hrest : u ∈ rest x → u ∈ s.places x := by
    intro h
    rw [ht.before, mem_add]
    exact Or.inr h
  rcases ht.after with ⟨-, -, hafter⟩ | ⟨-, -, hafter⟩
  · exact hrest (hafter ▸ hu)
  · rw [hafter] at hu
    split at hu
    · exact hrest hu
    · exact hu

theorem Holds.takes (h : Holds P s) (hP : Stable P) {p : Nat} {c : Container} {t : TaskId}
    {removed : Int} {rest : Place → Multiset TaskId} (hl : Linked s)
    (ht : Takes s s' p c t removed rest)
    (hstay : ¬ (s.task t).IsLast → P (s.task t) (p, c) →
      P { s.task t with scheduledCount := (s.task t).nextCount } (p, c)) :
    Holds P s' := by
  intro x u hu
  by_cases hut : u = t
  · subst hut
    -- the task is still stored: the hand-out was not the last one
    have habs := ht.absent hl
    rcases ht.after with ⟨-, -, hafter⟩ | ⟨-, -, hafter⟩
    · exact absurd (hafter ▸ hu) (habs x)
    · rw [hafter] at hu
      split at hu
      · exact absurd hu (habs x)
      · rename_i hlast
        have hx : x = (p, c) := hl.distinct.inj hu ht.mem
        subst hx
        exact hP ht.self (hstay hlast (h _ _ hu))
  · exact hP (ht.other u hut) (h x u (ht.places_subset hu))

/-! ## The invariant of the containers -/

/-- A stored task is in a container of its own process, and in an affine
queue only if that is the queue of its affinity. -/
structure Fits (topo : Topology) (queues : List Nat) (k : Task) (x : Place) : Prop where
  known : x.1 ∈ queues
  own : k.pid = x.1
  inTopo : x.2 ∈ containers topo
  valid : k.affinity.Valid topo
  routed : ∀ i, x.2 = .queue i → i ≠ .main →
    k.affinity.HasQueue ∧ i = affineQueue topo k.affinity

structure Base (topo : Topology) (s : Scheduler) : Prop where
  linked : Linked s
  fits : Holds (Fits topo s.queues) s
  pids : s.queues.Nodup

theorem fits_stable (queues : List Nat) : Stable (Fits topo queues) := by
  intro k k' x hk h
  refine ⟨h.known, hk.pid.trans h.own, h.inTopo, ?_, fun i hi hne => ?_⟩
  · rw [hk.affinity]
    exact h.valid
  · rw [hk.affinity]
    exact h.routed i hi hne

theorem Fits.queue {queues : List Nat} {k : Task} {p : Nat} {c : Container}
    (h : Fits topo queues k (p, c)) (hq : k.affinity.HasQueue) :
    Fits topo queues k (p, .queue (affineQueue topo k.affinity)) := by
  refine ⟨h.known, h.own, mem_containers_queue.mpr (affineQueue_mem h.valid hq), h.valid,
    fun i hi _ => ⟨hq, ?_⟩⟩
  injection hi with hi
  exact hi.symm

theorem Base.absent_iff (h : Base topo s) {t : TaskId} :
    Absent s.places t ↔ ¬ s.Holding topo t := by
  constructor
  · rintro habs ⟨p, -, c, -, ht⟩
    exact habs _ ht
  · intro hnot x hx
    have hfit := h.fits x t hx
    exact hnot ⟨x.1, hfit.known, x.2, hfit.inTopo, hx⟩

theorem Base.idles (h : Base topo s) (hi : Idles s s') : Base topo s' := by
  refine ⟨hi.linked, ?_, ?_⟩
  · rw [hi.frame.queues]
    exact h.fits.idles (fits_stable _) hi
  · rw [hi.frame.queues]
    exact h.pids

theorem Base.moves (h : Base topo s) {p : Nat} {c : Container} {t : TaskId}
    (hm : Moves topo s s' p c t) : Base topo s' := by
  refine ⟨hm.linked, ?_, ?_⟩
  · rw [hm.frame.queues]
    exact h.fits.moves (fits_stable _) hm fun hfit => hfit.queue hm.hasQueue
  · rw [hm.frame.queues]
    exact h.pids

theorem Base.drops (h : Base topo s) {x : Place} {t : TaskId} (hd : Drops s s' x t) :
    Base topo s' := by
  refine ⟨hd.linked, ?_, ?_⟩
  · rw [hd.frame.queues]
    exact h.fits.drops (fits_stable _) hd
  · rw [hd.frame.queues]
    exact h.pids

theorem Base.adds (h : Base topo s) {x : Place} {t : TaskId} (ha : Adds s s' x t)
    (ht : Fits topo s.queues (s.task t) x) : Base topo s' := by
  refine ⟨ha.linked, ?_, ?_⟩
  · rw [ha.frame.queues]
    exact h.fits.adds (fits_stable _) ha ht
  · rw [ha.frame.queues]
    exact h.pids

theorem Base.takes (h : Base topo s) {p : Nat} {c : Container} {t : TaskId} {removed : Int}
    {rest : Place → Multiset TaskId} (ht : Takes s s' p c t removed rest) : Base topo s' := by
  refine ⟨ht.linked, ?_, ?_⟩
  · rw [ht.queues]
    refine h.fits.takes (fits_stable _) h.linked ht fun _ hfit => ?_
    exact ⟨hfit.known, hfit.own, hfit.inTopo, hfit.valid, hfit.routed⟩
  · rw [ht.queues]
    exact h.pids

theorem Base.reroute (h : Base topo s) (hr : Reroute topo s s') : Base topo s' := by
  rcases Reroute.effect h.linked hr with hi | ⟨p, c, t, -, hm⟩
  · exact h.idles hi
  · exact h.moves hm

theorem Fits.main {queues : List Nat} {k : Task} {p : Nat} {c : Container}
    (h : Fits topo queues k (p, c)) : Fits topo queues k (p, .queue .main) := by
  refine ⟨h.known, h.own, mem_containers_queue.mpr (main_mem_queueIds topo), h.valid,
    fun i hi hne => ?_⟩
  injection hi with hi
  exact absurd hi.symm hne

theorem Base.purgeStep (h : Base topo s) (hp : PurgeStep s s') : Base topo s' := by
  obtain ⟨p, t, s₁, hd, ha⟩ := PurgeStep.effect h.linked hp
  refine (h.drops hd).adds ha ?_
  have hfit := h.fits (p, .deadline) t (by rw [hd.places, mem_add]; exact Or.inl ⟨rfl, rfl⟩)
  rw [hd.frame.queues]
  exact fits_stable _ (hd.frame.task t) hfit.main

theorem Base.deadlineNodup (h : Base topo s) : DeadlineNodup s :=
  fun p => Multiset.coe_nodup.mp (h.linked.distinct.nodup (p, .deadline))

/-! ## Whole searches and purges -/

theorem idles_sameStore (hl : Linked s) (h : SameStore s s') : Idles s s' := by
  have hplaces : s'.places = s.places := by
    unfold Scheduler.places
    rw [h.proc]
  refine ⟨⟨?_, fun p i => ?_⟩, ⟨fun u => ?_, h.queues, h.tasks, fun p => ?_, fun p => ?_⟩,
    hplaces, ?_⟩
  · rw [hplaces]
    exact hl.distinct
  · have hprio : s'.priority = s.priority := by
      unfold Scheduler.priority
      rw [h.task]
    rw [hprio, h.proc]
    exact hl.ok p i
  · rw [h.task]
    exact .refl _
  · rw [h.proc]
  · rw [h.proc]
  · unfold Scheduler.preferred
    rw [h.proc]

theorem Base.reroutes (h : Base topo s) (hr : ReflTransGen (Reroute topo) s s') :
    Base topo s' := by
  induction hr with
  | refl => exact h
  | tail _ hstep ih => exact ih.reroute hstep

theorem reroute_frame (hl : Linked s) (hr : Reroute topo s s') : Frame s s' := by
  rcases hr.effect hl with hi | ⟨p, c, t, -, hm⟩
  · exact hi.frame
  · exact hm.frame

theorem reroutes_frame (hb : Base topo s) (hr : ReflTransGen (Reroute topo) s s') :
    Frame s s' := by
  induction hr with
  | refl => exact Frame.refl s
  | tail hrest hstep ih => exact ih.trans (reroute_frame (hb.reroutes hrest).linked hstep)

/-- The end of `scheduler_get_internal`: the counters of a served task. -/
structure Serves (s s' : Scheduler) (p : Nat) (removed : Int) : Prop where
  idle : Linked s → Linked s'
  places : s'.places = s.places
  task : s'.task = s.task
  queues : s'.queues = s.queues
  preferred : s'.preferred = s.preferred
  total : s'.tasks = sizeT (s.tasks - removed)
  tasks : ∀ q, (s'.proc q).tasks = (s.proc q).tasks
  served : ∀ q, (s'.proc q).servedTasks =
    if q = p then sizeT ((s.proc p).servedTasks + removed) else (s.proc q).servedTasks

theorem countServed_serves (s : Scheduler) (p : Nat) (removed : Int) :
    Serves s (countServed s p removed) p removed := by
  have hg : KeepsContainers fun ps =>
      { ps with servedTasks := sizeT (ps.servedTasks + removed) } :=
    ⟨fun _ => rfl, fun _ c => by cases c <;> rfl⟩
  refine ⟨fun hl => ?_, modProc_places hg, rfl, rfl,
    modProc_preferred s p
      (g := fun ps => { ps with servedTasks := sizeT (ps.servedTasks + removed) })
      fun _ => rfl, rfl, fun q => ?_, fun q => ?_⟩
  · have := hl.modProc (p := p) hg
    exact ⟨this.distinct, this.ok⟩
  · by_cases hq : q = p
    · subst hq
      simp [countServed, Scheduler.modProc]
    · simp [countServed, Scheduler.modProc, hq]
  · by_cases hq : q = p
    · subst hq
      simp [countServed, Scheduler.modProc]
    · simp [countServed, Scheduler.modProc, hq]

/-- A search in three parts: re-routing, the task that is taken, and the
counters of its process. -/
theorem get_cases (h : Base topo s) {cpu pid ts : Nat} {external : Bool} {r : Option TaskId}
    (hget : schedulerGetInternal topo s cpu pid external ts = (r, s')) :
    ∃ s₁, ReflTransGen (Reroute topo) s s₁ ∧ Base topo s₁ ∧
      match r with
      | none => Idles s₁ s'
      | some t => ∃ p ∈ s₁.queues, ∃ c removed rest s₂ s₃, Take topo cpu s₁ p t removed s₂
          ∧ Takes s₁ s₂ p c t removed rest ∧ Serves s₂ s₃ p removed ∧ Idles s₃ s' := by
  obtain ⟨s₀, hsearch, hsame⟩ := schedulerGetInternal_spec hget
  cases r with
  | none =>
      have hb : Base topo s₀ := h.reroutes hsearch
      exact ⟨s₀, hsearch, hb, idles_sameStore hb.linked hsame⟩
  | some t =>
      obtain ⟨p, hp, s₁, removed, s₂, hr, htake, rfl⟩ := hsearch
      have hb := h.reroutes hr
      obtain ⟨c, rest, htakes⟩ := htake.effect hb.linked
      have hs := countServed_serves s₂ p removed
      refine ⟨s₁, hr, hb, p, ?_, c, removed, rest, s₂, _, htake, htakes, hs,
        idles_sameStore (hs.idle htakes.linked) hsame⟩
      rw [queues_eq_of_reroutes hr]
      exact hp

theorem Base.serves {p : Nat} {removed : Int} (h : Base topo s) (hs : Serves s s' p removed) :
    Base topo s' := by
  refine ⟨hs.idle h.linked, fun x t ht => ?_, ?_⟩
  · rw [hs.queues, hs.task]
    rw [hs.places] at ht
    exact h.fits x t ht
  · rw [hs.queues]
    exact h.pids

theorem Base.get (h : Base topo s) {cpu pid ts : Nat} {external : Bool} :
    Base topo (schedulerGetInternal topo s cpu pid external ts).2 := by
  cases hget : schedulerGetInternal topo s cpu pid external ts with
  | mk r s' =>
      obtain ⟨s₁, -, hb, hrest⟩ := get_cases h hget
      cases r with
      | none => exact hb.idles hrest
      | some t =>
          obtain ⟨p, -, c, removed, rest, s₂, s₃, -, htakes, hserves, hidle⟩ := hrest
          exact ((hb.takes htakes).serves hserves).idles hidle

/-- A purge, as a sequence of moved tasks. -/
theorem purge_cases (h : Base topo s) (logicPid : Nat) :
    ∃ s₁, ReflTransGen PurgeStep s s₁ ∧ Base topo s₁
      ∧ Idles s₁ (schedulerDeadlinePurge s logicPid) := by
  obtain ⟨s₁, hp, hsame⟩ := schedulerDeadlinePurge_spec h.deadlineNodup logicPid
  have hb : Base topo s₁ := by
    clear hsame
    induction hp with
    | refl => exact h
    | tail _ hstep ih => exact ih.purgeStep hstep
  exact ⟨s₁, hp, hb, idles_sameStore hb.linked hsame⟩

/-! ## Insertion and the writes to descriptors -/

/-- A new process scheduler is empty. -/
theorem Base.ensurePid (h : Base topo s) (pid : Nat) :
    Base topo (ensurePid s pid) ∧ (Nosv.ensurePid s pid).places = s.places
      ∧ pid ∈ (Nosv.ensurePid s pid).queues := by
  unfold Nosv.ensurePid
  split
  · rename_i hmem
    exact ⟨h, rfl, hmem⟩
  · rename_i hmem
    have hempty : ∀ c, s.places (pid, c) = 0 := by
      intro c
      refine Multiset.eq_zero_of_forall_notMem fun t ht => hmem ?_
      exact (h.fits (pid, c) t ht).known
    have hplaces : (schedulerInitPid s pid).places = s.places := by
      funext ⟨q, c⟩
      by_cases hq : q = pid
      · subst hq
        rw [hempty]
        cases c <;> simp [Scheduler.places, schedulerInitPid, ProcessScheduler.elems,
          emptyProcess, inorder_nil]
      · simp [Scheduler.places, schedulerInitPid, hq]
    refine ⟨⟨⟨?_, fun q i => ?_⟩, fun x t ht => ?_, ?_⟩, hplaces, ?_⟩
    · rw [hplaces]
      exact h.linked.distinct
    · by_cases hq : q = pid
      · subst hq
        simpa [schedulerInitPid, emptyProcess] using Queue.ok_init _
      · have hok := h.linked.ok q i
        simp only [schedulerInitPid, Function.update_of_ne hq]
        exact hok
    · rw [hplaces] at ht
      have hfit := h.fits x t ht
      exact ⟨List.mem_append_left _ hfit.known, hfit.own, hfit.inTopo, hfit.valid, hfit.routed⟩
    · exact List.nodup_append.mpr ⟨h.pids, by simp, by
        intro a ha b hb
        rw [List.mem_singleton.mp hb]
        rintro rfl
        exact hmem ha⟩
    · simp [schedulerInitPid]

theorem ensurePid_task (s : Scheduler) (pid : Nat) : (ensurePid s pid).task = s.task := by
  unfold ensurePid
  split <;> rfl

/-- An insertion in three parts: the process, the container, the counters. -/
theorem insert_cases (h : Base topo s) {t : TaskId} (ht : Absent s.places t)
    (hins : schedulerInsertReadyTask s t = some s') :
    ∃ s₁, Adds (ensurePid s (s.task t).pid) s₁ ((s.task t).pid, readyContainer (s.task t)) t
      ∧ s' = addDegree s₁ (s.task t).pid (s.task t).degree := by
  unfold schedulerInsertReadyTask at hins
  simp only at hins
  split at hins
  · cases hins
  · rename_i s₁ hcont
    obtain ⟨hb, hplaces, -⟩ := h.ensurePid (s.task t).pid
    have habs : Absent (ensurePid s (s.task t).pid).places t := by
      rw [hplaces]
      exact ht
    have hadds := insertContainer_adds hb.linked habs hcont
    rw [ensurePid_task] at hadds
    exact ⟨s₁, hadds, (Option.some.inj hins).symm⟩

theorem addDegree_places (s : Scheduler) (p : Nat) (degree : Int) :
    (addDegree s p degree).places = s.places := by
  have hg : KeepsContainers fun ps => { ps with tasks := sizeT (ps.tasks + degree) } :=
    ⟨fun _ => rfl, fun _ c => by cases c <;> rfl⟩
  exact modProc_places hg

theorem Base.addDegree (h : Base topo s) (p : Nat) (degree : Int) :
    Base topo (addDegree s p degree) := by
  have hg : KeepsContainers fun ps => { ps with tasks := sizeT (ps.tasks + degree) } :=
    ⟨fun _ => rfl, fun _ c => by cases c <;> rfl⟩
  have hl := h.linked.modProc (p := p) hg
  refine ⟨⟨hl.distinct, hl.ok⟩, fun x t ht => ?_, h.pids⟩
  rw [addDegree_places] at ht
  exact h.fits x t ht

theorem readyContainer_mem (topo : Topology) (k : Task) : readyContainer k ∈ containers topo := by
  unfold readyContainer
  split
  · simp [containers]
  · split
    · simp [containers]
    · exact mem_containers_queue.mpr (main_mem_queueIds topo)

theorem readyContainer_queue {k : Task} {i : QueueId} (h : readyContainer k = .queue i) :
    i = .main := by
  unfold readyContainer at h
  split at h
  · cases h
  · split at h
    · cases h
    · injection h with h
      exact h.symm

theorem Base.insert (h : Base topo s) {t : TaskId} (ht : Absent s.places t)
    (hvalid : (s.task t).affinity.Valid topo)
    (hins : schedulerInsertReadyTask s t = some s') : Base topo s' := by
  obtain ⟨s₁, hadds, rfl⟩ := insert_cases h ht hins
  obtain ⟨hb, -, hmem⟩ := h.ensurePid (s.task t).pid
  refine (hb.adds hadds ?_).addDegree _ _
  rw [ensurePid_task]
  refine ⟨hmem, rfl, readyContainer_mem topo _, hvalid, fun i hi hne => ?_⟩
  exact absurd (readyContainer_queue hi) hne

/-- A write to a task that is not stored, or that keeps what the
containers depend on. -/
theorem Base.modTask (h : Base topo s) {t : TaskId} {f : Task → Task}
    (hf : Absent s.places t ∨ ((f (s.task t)).pid = (s.task t).pid
      ∧ (f (s.task t)).priority = (s.task t).priority
      ∧ (f (s.task t)).affinity = (s.task t).affinity)) :
    Base topo (s.modTask t f) := by
  have hsame : ∀ u x, u ∈ s.places x → ((s.modTask t f).task u).pid = (s.task u).pid
      ∧ ((s.modTask t f).task u).priority = (s.task u).priority
      ∧ ((s.modTask t f).task u).affinity = (s.task u).affinity := by
    intro u x hu
    by_cases hut : u = t
    · subst hut
      rcases hf with habs | hf
      · exact absurd hu (habs x)
      · simpa [Scheduler.modTask] using hf
    · simp [Scheduler.modTask, hut]
  refine ⟨⟨h.linked.distinct, fun p i => ?_⟩, fun x u hu => ?_, h.pids⟩
  · refine (h.linked.ok p i).congr fun u hu => ?_
    exact (hsame u (p, .queue i) (Multiset.mem_coe.mpr hu)).2.1
  · have hfit := h.fits x u hu
    obtain ⟨hpid, -, haff⟩ := hsame u x hu
    refine ⟨hfit.known, hpid.trans hfit.own, hfit.inTopo, ?_, ?_⟩
    · rw [haff]
      exact hfit.valid
    · rw [haff]
      exact hfit.routed

/-- Every inserted task names an existing domain, if it names one. -/
def ValidInsert (topo : Topology) (a : Accounts) : SchedOp → Prop
  | .insert t => (a.sched.task t).affinity.Valid topo
  | _ => True

instance (topo : Topology) (a : Accounts) : ∀ op, Decidable (ValidInsert topo a op)
  | .insert t => inferInstanceAs (Decidable ((a.sched.task t).affinity.Valid topo))
  | .prepare .. => isTrue trivial
  | .get .. => isTrue trivial
  | .purge _ => isTrue trivial
  | .cancel _ => isTrue trivial
  | .wake _ => isTrue trivial

theorem schedulerInit_places (task : TaskId → Task) (quantumNs : Nat) (clock : Nat → Nat) :
    (schedulerInit task quantumNs clock).places = fun _ => 0 := by
  funext ⟨p, c⟩
  cases c <;> simp [Scheduler.places, schedulerInit, emptyProcess, ProcessScheduler.elems,
    inorder_nil]

theorem base_init (task : TaskId → Task) (quantumNs : Nat) (clock : Nat → Nat) :
    Base topo (schedulerInit task quantumNs clock) := by
  have hplaces := schedulerInit_places task quantumNs clock
  refine ⟨⟨?_, fun p i => Queue.ok_init _⟩, fun x t ht => ?_, List.nodup_nil⟩
  · rw [hplaces]
    exact distinct_empty
  · rw [hplaces] at ht
    exact absurd ht (Multiset.notMem_zero t)

/-! ## Steps -/

/-- What each step does. -/
theorem Accounts.step_cases {a a' : Accounts} {op : SchedOp} (h : a.step topo op = some a') :
    match op with
    | .prepare t k =>
        ¬ a.sched.Holding topo t ∧ a' = { a with sched := a.sched.modTask t fun _ => k }
    | .insert t =>
        ¬ a.sched.Holding topo t ∧ 0 < (a.sched.task t).degree ∧ (a.sched.task t).Typed
          ∧ ∃ s, schedulerInsertReadyTask a.sched t = some s
            ∧ a' = ⟨s, Function.update a.inserted (a.sched.task t).pid
                (a.inserted (a.sched.task t).pid + (a.sched.task t).degree)⟩
    | .get cpu pid external ts =>
        cpu < topo.count .cpu
          ∧ a' = { a with sched := (schedulerGetInternal topo a.sched cpu pid external ts).2 }
    | .purge logicPid => a' = { a with sched := schedulerDeadlinePurge a.sched logicPid }
    | .cancel t =>
        a.sched.Holding topo t ∧ taskIsParallel (a.sched.task t) = true
          ∧ (a' = a ∨ (0 ≤ (a.sched.task t).degree
            ∧ a' = { a with sched :=
                a.sched.modTask t fun k => { k with degree := -k.degree } }))
    | .wake t =>
        taskIsParallel (a.sched.task t) = false
          ∧ a' = { a with sched := submitDeadlineWake a.sched t } := by
  cases op with
  | prepare t k =>
      simp only [Accounts.step] at h
      split at h
      · cases h
      · rename_i hnot
        exact ⟨hnot, (Option.some.inj h).symm⟩
  | insert t =>
      simp only [Accounts.step] at h
      split at h
      · cases h
      · rename_i hguard
        simp only [not_or, not_not, not_le] at hguard
        split at h
        · cases h
        · rename_i s hins
          exact ⟨hguard.1, hguard.2.1, hguard.2.2, s, hins, (Option.some.inj h).symm⟩
  | get cpu pid external ts =>
      simp only [Accounts.step] at h
      split at h
      · rename_i hcpu
        exact ⟨hcpu, (Option.some.inj h).symm⟩
      · cases h
  | purge logicPid => exact (Option.some.inj h).symm
  | cancel t =>
      simp only [Accounts.step] at h
      split at h
      · rename_i hguard
        refine ⟨hguard.1, hguard.2, ?_⟩
        unfold nosvCancel at h
        split at h
        · exact Or.inl (Option.some.inj h).symm
        · rename_i k hk
          split at hk
          · cases hk
          · rename_i hdeg
            obtain rfl := Option.some.inj hk
            refine Or.inr ⟨by omega, ?_⟩
            rw [← Option.some.inj h]
            rfl
      · cases h
  | wake t =>
      simp only [Accounts.step] at h
      split at h
      · cases h
      · rename_i hpar
        exact ⟨by simpa using hpar, (Option.some.inj h).symm⟩

theorem submitDeadlineWake_idles (h : Linked s) (t : TaskId) :
    Idles s (submitDeadlineWake s t) := by
  have hf : ∀ k : Task, SameTask k { k with deadlineState := .ready } :=
    fun _ => ⟨rfl, rfl, rfl, rfl, rfl, rfl, rfl, rfl⟩
  have hl := h.modTask (t := t) hf
  have hframe := Frame.modTask s t hf
  unfold submitDeadlineWake
  simp only
  split
  · exact ⟨⟨hl.distinct, hl.ok⟩,
      ⟨hframe.task, hframe.queues, hframe.total, hframe.tasks, hframe.served⟩, rfl, rfl⟩
  · exact ⟨hl, hframe, rfl, rfl⟩

theorem base_step {a a' : Accounts} {op : SchedOp} (hv : ValidInsert topo a op)
    (hstep : a.step topo op = some a') (h : Base topo a.sched) : Base topo a'.sched := by
  have hcase := Accounts.step_cases hstep
  cases op with
  | prepare t k =>
      obtain ⟨hnot, rfl⟩ := hcase
      exact h.modTask (f := fun _ => k) (Or.inl (h.absent_iff.mpr hnot))
  | insert t =>
      obtain ⟨hnot, -, -, s, hins, rfl⟩ := hcase
      exact h.insert (h.absent_iff.mpr hnot) hv hins
  | get cpu pid external ts =>
      obtain ⟨-, rfl⟩ := hcase
      exact h.get
  | purge logicPid =>
      simp only at hcase
      subst hcase
      obtain ⟨s₁, -, hb, hidle⟩ := purge_cases h logicPid
      exact hb.idles hidle
  | cancel t =>
      obtain ⟨-, -, rfl | ⟨-, rfl⟩⟩ := hcase
      · exact h
      · exact h.modTask (f := fun k => { k with degree := -k.degree })
          (Or.inr ⟨rfl, rfl, rfl⟩)
  | wake t =>
      obtain ⟨-, rfl⟩ := hcase
      exact h.idles (submitDeadlineWake_idles h.linked t)

end Nosv
