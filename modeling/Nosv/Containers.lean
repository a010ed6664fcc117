import Nosv.Lib.Places
import Nosv.SchedulerSteps

/-!
# Where the tasks are

The containers of a process scheduler are its deadline tree, its yield
list and its queues; a `Place` is a container of a process. The family
`Scheduler.places` says which tasks each place holds, and the theorems of
this file say what every function of the scheduler does to it: each of
them adds its task to one place or takes it out of one.

`Adds` and `Drops` are the two shapes of these theorems: besides the
places they say that the queues stay well linked and that nothing else
changes, neither the counters nor what the scheduler reads of the tasks.
-/

namespace Nosv

open RBTree Relation Places

inductive Container where
  | deadline
  | yield
  | queue (i : QueueId)
  deriving DecidableEq, Repr

abbrev Place := Nat × Container

def ProcessScheduler.elems (ps : ProcessScheduler) : Container → Multiset TaskId
  | .deadline => ↑(inorder ps.deadlineTasks)
  | .yield => ↑ps.yieldTasks
  | .queue i => (ps.queues i).elems

def Scheduler.places (s : Scheduler) : Place → Multiset TaskId :=
  fun x => (s.proc x.1).elems x.2

/-- The queues that the arrays of a process scheduler have room for. -/
def queueIds (topo : Topology) : List QueueId :=
  .main :: (List.range (topo.count .cpu)).map .cpuStrict
    ++ (List.range (topo.count .cpu)).map .cpuPreferred
    ++ (List.range (topo.count .numa)).map .numaStrict
    ++ (List.range (topo.count .numa)).map .numaPreferred

def containers (topo : Topology) : Finset Container :=
  (.deadline :: .yield :: (queueIds topo).map .queue).toFinset

/-- The places of process `p`. -/
def placesOf (topo : Topology) (p : Nat) : Finset Place :=
  (containers topo).image (Prod.mk p)

theorem mem_placesOf {topo : Topology} {p : Nat} {x : Place} :
    x ∈ placesOf topo p ↔ x.1 = p ∧ x.2 ∈ containers topo := by
  simp only [placesOf, Finset.mem_image]
  constructor
  · rintro ⟨c, hc, rfl⟩
    exact ⟨rfl, hc⟩
  · rintro ⟨rfl, hc⟩
    exact ⟨x.2, hc, rfl⟩

theorem mem_containers_queue {topo : Topology} {i : QueueId} :
    .queue i ∈ containers topo ↔ i ∈ queueIds topo := by
  simp [containers]

theorem main_mem_queueIds (topo : Topology) : .main ∈ queueIds topo := by
  simp [queueIds]

/-! ## Tasks that name a domain of the machine -/

/-- The affinity names a CPU or a NUMA domain, the only levels with
queues of their own. -/
def Affinity.HasQueue (a : Affinity) : Prop := a.level = .cpu ∨ a.level = .numa

/-- A CPU or NUMA domain named by the affinity exists. -/
def Affinity.Valid (topo : Topology) (a : Affinity) : Prop :=
  (a.level = .cpu → topo.Exists .cpu a.index)
    ∧ (a.level = .numa → topo.Exists .numa a.index)

instance (topo : Topology) (a : Affinity) : Decidable (a.Valid topo) :=
  inferInstanceAs (Decidable (_ ∧ _))

theorem hasQueue_of_not_affine {topo : Topology} {a : Affinity} {cpu : Nat}
    (h : taskAffine topo a cpu = false) : a.HasQueue := by
  unfold taskAffine at h
  unfold Affinity.HasQueue
  cases hl : a.level <;> simp_all

theorem affineQueue_mem {topo : Topology} {a : Affinity} (hv : a.Valid topo)
    (hq : a.HasQueue) : affineQueue topo a ∈ queueIds topo := by
  rcases hq with hl | hl
  · obtain ⟨i, hi, -, hlid⟩ := Topology.topoDomLid_of_exists (hv.1 hl)
    simp only [affineQueue, hl, hlid, Int.toNat_natCast]
    split <;> simp [queueIds, hi]
  · obtain ⟨i, hi, -, hlid⟩ := Topology.topoDomLid_of_exists (hv.2 hl)
    simp only [affineQueue, hl, hlid, Int.toNat_natCast]
    split <;> simp [queueIds, hi]

theorem affineQueue_ne_main {topo : Topology} {a : Affinity} (hq : a.HasQueue) :
    affineQueue topo a ≠ .main := by
  rcases hq with hl | hl <;>
  · simp only [affineQueue, hl]
    split <;> simp

theorem isPreferred_affineQueue {topo : Topology} {a : Affinity} (hq : a.HasQueue) :
    (affineQueue topo a).isPreferred = decide (a.type = .preferred) := by
  rcases hq with hl | hl <;>
  · simp only [affineQueue, hl]
    cases a.type <;> rfl

/-! ## Well linked containers and frames -/

/-- No task is linked twice, and the queues are well formed. -/
structure Linked (s : Scheduler) : Prop where
  distinct : Distinct s.places
  ok : ∀ p i, Queue.Ok s.priority ((s.proc p).queues i)

/-- Equal in what the container operations never write. -/
structure SameTask (k k' : Task) : Prop where
  pid : k'.pid = k.pid
  priority : k'.priority = k.priority
  affinity : k'.affinity = k.affinity
  degree : k'.degree = k.degree
  scheduledCount : k'.scheduledCount = k.scheduledCount
  blockingCount : k'.blockingCount = k.blockingCount
  suspend : k'.suspend = k.suspend
  suspendMode : k'.suspendMode = k.suspendMode

theorem SameTask.refl (k : Task) : SameTask k k := ⟨rfl, rfl, rfl, rfl, rfl, rfl, rfl, rfl⟩

theorem SameTask.trans {k k' k'' : Task} (h : SameTask k k') (h' : SameTask k' k'') :
    SameTask k k'' :=
  ⟨h'.pid.trans h.pid, h'.priority.trans h.priority, h'.affinity.trans h.affinity,
    h'.degree.trans h.degree, h'.scheduledCount.trans h.scheduledCount,
    h'.blockingCount.trans h.blockingCount, h'.suspend.trans h.suspend,
    h'.suspendMode.trans h.suspendMode⟩

/-- The counters of the scheduler and the tasks are the same, as far as
the container operations go. -/
structure Frame (s s' : Scheduler) : Prop where
  task : ∀ u, SameTask (s.task u) (s'.task u)
  queues : s'.queues = s.queues
  total : s'.tasks = s.tasks
  tasks : ∀ p, (s'.proc p).tasks = (s.proc p).tasks
  served : ∀ p, (s'.proc p).servedTasks = (s.proc p).servedTasks

def Scheduler.preferred (s : Scheduler) (p : Nat) : Int := (s.proc p).preferredAffinityTasks

/-- Task `t` is linked into place `x`, and nothing else happens. -/
structure Adds (s s' : Scheduler) (x : Place) (t : TaskId) : Prop where
  linked : Linked s'
  places : s'.places = add s.places x t
  frame : Frame s s'
  preferred : s'.preferred = s.preferred

/-- Task `t` is unlinked from place `x`, and nothing else happens. -/
structure Drops (s s' : Scheduler) (x : Place) (t : TaskId) : Prop where
  linked : Linked s'
  places : s.places = add s'.places x t
  frame : Frame s s'
  preferred : s'.preferred = s.preferred

namespace Frame

variable {s s' s'' : Scheduler}

theorem refl (s : Scheduler) : Frame s s :=
  ⟨fun _ => .refl _, rfl, rfl, fun _ => rfl, fun _ => rfl⟩

theorem trans (h : Frame s s') (h' : Frame s' s'') : Frame s s'' :=
  ⟨fun u => (h.task u).trans (h'.task u), h'.queues.trans h.queues,
    h'.total.trans h.total, fun p => (h'.tasks p).trans (h.tasks p),
    fun p => (h'.served p).trans (h.served p)⟩

theorem priority (h : Frame s s') : s'.priority = s.priority :=
  funext fun u => (h.task u).priority

theorem modTask (s : Scheduler) (t : TaskId) {f : Task → Task}
    (hf : ∀ k, SameTask k (f k)) : Frame s (s.modTask t f) := by
  refine ⟨fun u => ?_, rfl, rfl, fun _ => rfl, fun _ => rfl⟩
  by_cases hu : u = t
  · subst hu
    simp only [Scheduler.modTask, Function.update_self]
    exact hf _
  · simp only [Scheduler.modTask, Function.update_of_ne hu]
    exact .refl _

theorem modProc (s : Scheduler) (p : Nat) {f : ProcessScheduler → ProcessScheduler}
    (ht : ∀ ps, (f ps).tasks = ps.tasks) (hs : ∀ ps, (f ps).servedTasks = ps.servedTasks) :
    Frame s (s.modProc p f) := by
  refine ⟨fun _ => .refl _, rfl, rfl, fun q => ?_, fun q => ?_⟩ <;>
  · by_cases hq : q = p
    · subst hq
      simp [Scheduler.modProc, ht, hs]
    · simp [Scheduler.modProc, hq]

end Frame

/-! ## The container operations -/

variable {s s' : Scheduler} {p : Nat} {i : QueueId} {t : TaskId}

/-- A change of one container of one process. -/
theorem places_eq_add {c : Container} (hother : ∀ q, q ≠ p → s'.proc q = s.proc q)
    (hrest : ∀ d, d ≠ c → (s'.proc p).elems d = (s.proc p).elems d)
    (hself : (s'.proc p).elems c = t ::ₘ (s.proc p).elems c) :
    s'.places = add s.places (p, c) t := by
  funext ⟨q, d⟩
  by_cases hqd : (q, d) = (p, c)
  · rw [hqd, add_self]
    exact hself
  · rw [add_ne hqd]
    simp only [Scheduler.places]
    by_cases hq : q = p
    · subst hq
      exact hrest d fun hd => hqd (by rw [hd])
    · rw [hother q hq]

theorem setQueue_proc_ne {q : Nat} (hq : q ≠ p) (new : Queue) :
    (s.setQueue p i new).proc q = s.proc q := by
  simp [Scheduler.setQueue, Scheduler.modProc, hq]

theorem setQueue_elems_ne {c : Container} (hc : c ≠ .queue i) (new : Queue) :
    ((s.setQueue p i new).proc p).elems c = (s.proc p).elems c := by
  cases c with
  | deadline => simp [Scheduler.setQueue, Scheduler.modProc, ProcessScheduler.elems]
  | yield => simp [Scheduler.setQueue, Scheduler.modProc, ProcessScheduler.elems]
  | queue j =>
      have hj : j ≠ i := fun h => hc (by rw [h])
      simp [Scheduler.setQueue, Scheduler.modProc, ProcessScheduler.elems, hj]

theorem setQueue_elems_self (new : Queue) :
    ((s.setQueue p i new).proc p).elems (.queue i) = new.elems := by
  simp [Scheduler.setQueue, Scheduler.modProc, ProcessScheduler.elems]

theorem setQueue_frame (s : Scheduler) (p : Nat) (i : QueueId) (new : Queue) :
    Frame s (s.setQueue p i new) := Frame.modProc s p (fun _ => rfl) (fun _ => rfl)

theorem setQueue_preferred (s : Scheduler) (p : Nat) (i : QueueId) (new : Queue) :
    (s.setQueue p i new).preferred = s.preferred := by
  funext q
  by_cases hq : q = p
  · subst hq
    simp [Scheduler.preferred, Scheduler.setQueue, Scheduler.modProc]
  · rw [Scheduler.preferred, setQueue_proc_ne hq, Scheduler.preferred]

theorem setQueue_ok (hok : ∀ q j, Queue.Ok s.priority ((s.proc q).queues j)) {new : Queue}
    (hnew : Queue.Ok s.priority new) (q : Nat) (j : QueueId) :
    Queue.Ok s.priority (((s.setQueue p i new).proc q).queues j) := by
  by_cases hq : q = p
  · subst hq
    by_cases hj : j = i
    · subst hj
      simpa [Scheduler.setQueue, Scheduler.modProc] using hnew
    · simpa [Scheduler.setQueue, Scheduler.modProc, hj] using hok q j
  · rw [setQueue_proc_ne hq]
    exact hok q j

theorem Linked.contents_nodup (h : Linked s) (p : Nat) (i : QueueId) :
    ((s.proc p).queues i).contents.Nodup :=
  Multiset.coe_nodup.mp (h.distinct.nodup (p, .queue i))

theorem Linked.modTask (h : Linked s) {f : Task → Task} (hf : ∀ k, SameTask k (f k)) :
    Linked (s.modTask t f) := by
  refine ⟨h.distinct, fun p i => ?_⟩
  rw [(Frame.modTask s t hf).priority]
  exact h.ok p i

theorem addQueue_adds (h : Linked s) (ht : Absent s.places t) :
    Adds s (addQueue s p i t) (p, .queue i) t := by
  obtain ⟨helems, hok⟩ := schedulerAddQueue_spec (t := t) (h.ok p i) (h.contents_nodup p i)
  have hplaces : (addQueue s p i t).places = add s.places (p, .queue i) t := by
    refine places_eq_add (fun q hq => setQueue_proc_ne hq _)
      (fun d hd => setQueue_elems_ne hd _) ?_
    rw [addQueue, setQueue_elems_self, helems]
    rfl
  refine ⟨⟨?_, fun q j => ?_⟩, hplaces, setQueue_frame .., setQueue_preferred ..⟩
  · rw [hplaces]
    exact h.distinct.add ht _
  · exact setQueue_ok h.ok hok q j

/-- Unlinking and the writes to the unlinked task that follow it. -/
theorem Drops.modTask {x : Place} (h : Drops s s' x t) {u : TaskId} {f : Task → Task}
    (hf : ∀ k, SameTask k (f k)) : Drops s (s'.modTask u f) x t :=
  ⟨h.linked.modTask hf, h.places, h.frame.trans (Frame.modTask s' u hf), h.preferred⟩

theorem popQueue_drops (h : Linked s)
    (hfind : schedulerFindInQueue ((s.proc p).queues i) = some t) :
    Drops s (popQueue s p i t) (p, .queue i) t := by
  obtain ⟨helems, hok⟩ := schedulerPopQueue_spec (h.ok p i) (h.contents_nodup p i) hfind
  have hset : Drops s (s.setQueue p i (schedulerPopQueue ((s.proc p).queues i)))
      (p, .queue i) t := by
    have hplaces : s.places =
        add (s.setQueue p i (schedulerPopQueue ((s.proc p).queues i))).places (p, .queue i) t := by
      refine places_eq_add (fun q hq => (setQueue_proc_ne hq _).symm)
        (fun d hd => (setQueue_elems_ne hd _).symm) ?_
      rw [setQueue_elems_self]
      exact helems
    refine ⟨⟨?_, fun q j => setQueue_ok h.ok hok q j⟩, hplaces, setQueue_frame ..,
      setQueue_preferred ..⟩
    have hd := h.distinct
    rw [hplaces] at hd
    exact hd.of_add.1
  unfold popQueue
  simp only
  split
  · exact hset.modTask fun k => ⟨rfl, rfl, rfl, rfl, rfl, rfl, rfl, rfl⟩
  · exact hset

/-! ## The deadline tree and the yield list -/

/-- The update `g` changes one container, which is not a queue. -/
structure Relinks (c : Container) (g : ProcessScheduler → ProcessScheduler) : Prop where
  tasks : ∀ ps, (g ps).tasks = ps.tasks
  served : ∀ ps, (g ps).servedTasks = ps.servedTasks
  preferred : ∀ ps, (g ps).preferredAffinityTasks = ps.preferredAffinityTasks
  queues : ∀ ps, (g ps).queues = ps.queues
  rest : ∀ ps d, d ≠ c → (g ps).elems d = ps.elems d

theorem relinks_deadline (tree : RB TaskId) :
    Relinks .deadline fun ps => { ps with deadlineTasks := tree } := by
  refine ⟨fun _ => rfl, fun _ => rfl, fun _ => rfl, fun _ => rfl, fun ps d hd => ?_⟩
  cases d with
  | deadline => exact absurd rfl hd
  | yield => rfl
  | queue j => rfl

theorem relinks_yield (f : List TaskId → List TaskId) :
    Relinks .yield fun ps => { ps with yieldTasks := f ps.yieldTasks } := by
  refine ⟨fun _ => rfl, fun _ => rfl, fun _ => rfl, fun _ => rfl, fun ps d hd => ?_⟩
  cases d with
  | deadline => rfl
  | yield => exact absurd rfl hd
  | queue j => rfl

theorem modProc_proc_self (s : Scheduler) (p : Nat) (g : ProcessScheduler → ProcessScheduler) :
    (s.modProc p g).proc p = g (s.proc p) := Function.update_self ..

theorem modProc_proc_ne {q : Nat} (hq : q ≠ p) (g : ProcessScheduler → ProcessScheduler) :
    (s.modProc p g).proc q = s.proc q := Function.update_of_ne hq ..

theorem modProc_preferred (s : Scheduler) (p : Nat) {g : ProcessScheduler → ProcessScheduler}
    (hg : ∀ ps, (g ps).preferredAffinityTasks = ps.preferredAffinityTasks) :
    (s.modProc p g).preferred = s.preferred := by
  funext q
  by_cases hq : q = p
  · subst hq
    rw [Scheduler.preferred, modProc_proc_self, hg, Scheduler.preferred]
  · rw [Scheduler.preferred, modProc_proc_ne hq, Scheduler.preferred]

theorem Linked.ok_modProc (h : Linked s) {g : ProcessScheduler → ProcessScheduler}
    (hg : ∀ ps, (g ps).queues = ps.queues) (q : Nat) (j : QueueId) :
    Queue.Ok s.priority (((s.modProc p g).proc q).queues j) := by
  by_cases hq : q = p
  · subst hq
    rw [modProc_proc_self, hg]
    exact h.ok q j
  · rw [modProc_proc_ne hq]
    exact h.ok q j

/-- The update `g` writes counters only. -/
structure KeepsContainers (g : ProcessScheduler → ProcessScheduler) : Prop where
  queues : ∀ ps, (g ps).queues = ps.queues
  elems : ∀ ps c, (g ps).elems c = ps.elems c

theorem modProc_places {g : ProcessScheduler → ProcessScheduler} (hg : KeepsContainers g) :
    (s.modProc p g).places = s.places := by
  funext ⟨q, c⟩
  by_cases hq : q = p
  · subst hq
    simp only [Scheduler.places, modProc_proc_self, hg.elems]
  · simp only [Scheduler.places, modProc_proc_ne hq]

theorem Linked.modProc {g : ProcessScheduler → ProcessScheduler} (h : Linked s)
    (hg : KeepsContainers g) : Linked (s.modProc p g) := by
  refine ⟨?_, h.ok_modProc hg.queues⟩
  rw [modProc_places hg]
  exact h.distinct

theorem modProc_drops {c : Container} {g : ProcessScheduler → ProcessScheduler}
    (h : Linked s) (hg : Relinks c g)
    (hself : (s.proc p).elems c = t ::ₘ (g (s.proc p)).elems c) :
    Drops s (s.modProc p g) (p, c) t := by
  have hplaces : s.places = add (s.modProc p g).places (p, c) t := by
    refine places_eq_add (fun q hq => (modProc_proc_ne hq g).symm) (fun d hd => ?_) ?_
    · rw [modProc_proc_self, hg.rest _ d hd]
    · rw [modProc_proc_self]
      exact hself
  refine ⟨⟨?_, h.ok_modProc hg.queues⟩, hplaces, Frame.modProc s p hg.tasks hg.served,
    modProc_preferred s p hg.preferred⟩
  have hd := h.distinct
  rw [hplaces] at hd
  exact hd.of_add.1

theorem modProc_adds {c : Container} {g : ProcessScheduler → ProcessScheduler}
    (h : Linked s) (hg : Relinks c g) (ht : Absent s.places t)
    (hself : (g (s.proc p)).elems c = t ::ₘ (s.proc p).elems c) :
    Adds s (s.modProc p g) (p, c) t := by
  have hplaces : (s.modProc p g).places = add s.places (p, c) t := by
    refine places_eq_add (fun q hq => modProc_proc_ne hq g) (fun d hd => ?_) ?_
    · rw [modProc_proc_self, hg.rest _ d hd]
    · rw [modProc_proc_self]
      exact hself
  refine ⟨⟨?_, h.ok_modProc hg.queues⟩, hplaces, Frame.modProc s p hg.tasks hg.served,
    modProc_preferred s p hg.preferred⟩
  rw [hplaces]
  exact h.distinct.add ht _

/-- Writes to a task do not matter to what is linked afterwards. -/
theorem Drops.of_modTask {x : Place} {u : TaskId} {f : Task → Task}
    (hf : ∀ k, SameTask k (f k)) (h : Drops (s.modTask u f) s' x t) : Drops s s' x t :=
  ⟨h.linked, h.places, (Frame.modTask s u hf).trans h.frame, h.preferred⟩

theorem Adds.of_modTask {x : Place} {u : TaskId} {f : Task → Task}
    (hf : ∀ k, SameTask k (f k)) (h : Adds (s.modTask u f) s' x t) : Adds s s' x t :=
  ⟨h.linked, h.places, (Frame.modTask s u hf).trans h.frame, h.preferred⟩

theorem removeDeadline_drops (h : Linked s) (ht : t ∈ inorder (s.proc p).deadlineTasks) :
    Drops s (removeDeadline s p t) (p, .deadline) t := by
  obtain ⟨l, r, hin, hrem⟩ := inorder_remove ht
  have hf (w : Nat) : ∀ k : Task, SameTask k { k with word := w } :=
    fun _ => ⟨rfl, rfl, rfl, rfl, rfl, rfl, rfl, rfl⟩
  unfold removeDeadline
  refine Drops.of_modTask (hf _) (modProc_drops (h.modTask (hf _)) (relinks_deadline _) ?_)
  simp only [ProcessScheduler.elems, Scheduler.modTask, hin, hrem, Multiset.cons_coe,
    Multiset.coe_eq_coe]
  exact List.perm_middle

theorem popYield_drops (h : Linked s) {rest : List TaskId}
    (hhead : (s.proc p).yieldTasks = t :: rest) :
    Drops s (popYield s p t) (p, .yield) t := by
  have hf : ∀ k : Task, SameTask k { k with word := 0 } := fun _ => ⟨rfl, rfl, rfl, rfl, rfl, rfl, rfl, rfl⟩
  unfold popYield
  refine Drops.of_modTask hf (modProc_drops (h.modTask hf) (relinks_yield List.tail) ?_)
  simp only [ProcessScheduler.elems, Scheduler.modTask, hhead, List.tail_cons, Multiset.cons_coe]

theorem sameTask_wakeUp (k : Task) : SameTask k (deadlineTaskWakeUp k) :=
  ⟨rfl, rfl, rfl, rfl, rfl, rfl, rfl, rfl⟩

theorem expireDeadline_drops (h : Linked s) (ht : t ∈ inorder (s.proc p).deadlineTasks) :
    Drops s (expireDeadline s p t) (p, .deadline) t :=
  (removeDeadline_drops h ht).modTask sameTask_wakeUp

/-! ## Insertion -/

theorem insertDeadline_adds :
    ∀ {n : Nat} {s s' : Scheduler}, Linked s → Absent s.places t →
      insertDeadline s p t n = some s' → Adds s s' (p, .deadline) t
  | 0, s, s', _, _, h => by cases h
  | n + 1, s, s', hl, ht, h => by
      rw [insertDeadline] at h
      split at h
      · rename_i tree hins
        obtain rfl := Option.some.inj h
        obtain ⟨l, r, hin, hnew⟩ := inorder_insert hins
        have hf : ∀ k : Task, SameTask k { k with word := 0 } :=
          fun _ => ⟨rfl, rfl, rfl, rfl, rfl, rfl, rfl, rfl⟩
        refine Adds.of_modTask hf (modProc_adds (hl.modTask hf) (relinks_deadline _) ht ?_)
        simp only [ProcessScheduler.elems, Scheduler.modTask, hin, hnew, Multiset.cons_coe,
          Multiset.coe_eq_coe]
        exact List.perm_middle
      · have hf : ∀ k : Task, SameTask k { k with deadline := u64 (k.deadline + 1) } :=
          fun _ => ⟨rfl, rfl, rfl, rfl, rfl, rfl, rfl, rfl⟩
        exact Adds.of_modTask hf (insertDeadline_adds (hl.modTask hf) ht h)

/-- The container that `scheduler_insert_ready_task` chooses. -/
def readyContainer (k : Task) : Container :=
  if k.yield ≠ 0 then .yield
  else if k.deadline ≠ 0 ∧ k.deadlineState = .pending then .deadline
  else .queue .main

theorem insertContainer_adds (h : Linked s) (ht : Absent s.places t)
    (hins : insertContainer s p t = some s') :
    Adds s s' (p, readyContainer (s.task t)) t := by
  unfold insertContainer at hins
  unfold readyContainer
  split at hins
  · rename_i hy
    rw [if_pos hy]
    obtain rfl := Option.some.inj hins
    have hf (w : Nat) : ∀ k : Task, SameTask k { k with word := w } :=
      fun _ => ⟨rfl, rfl, rfl, rfl, rfl, rfl, rfl, rfl⟩
    refine Adds.of_modTask (hf _)
      (modProc_adds (h.modTask (hf _)) (relinks_yield fun ts => ts ++ [t]) ht ?_)
    simp only [ProcessScheduler.elems, Scheduler.modTask, Multiset.cons_coe, Multiset.coe_eq_coe]
    exact List.perm_append_singleton t _
  · rename_i hy
    rw [if_neg hy]
    split at hins
    · rename_i hd
      split at hins
      · rename_i hp
        rw [if_pos ⟨hd, hp⟩]
        have hf : ∀ k : Task, SameTask k { k with deadlineState := .waiting } :=
          fun _ => ⟨rfl, rfl, rfl, rfl, rfl, rfl, rfl, rfl⟩
        exact Adds.of_modTask hf (insertDeadline_adds (h.modTask hf) ht hins)
      · rename_i hp
        rw [if_neg fun hc => hp hc.2]
        obtain rfl := Option.some.inj hins
        exact Adds.of_modTask sameTask_wakeUp (addQueue_adds (h.modTask sameTask_wakeUp) ht)
    · rename_i hd
      rw [if_neg fun hc => hd hc.1]
      obtain rfl := Option.some.inj hins
      exact addQueue_adds h ht

/-! ## Re-routing -/

/-- What the counter becomes when `scheduler_insert_affine` links a task of
affinity `a` into process `p`. -/
def countPreferred (pref : Nat → Int) (p : Nat) (a : Affinity) : Nat → Int :=
  if a.type = .preferred then Function.update pref p (sizeT (pref p + 1)) else pref

/-- Task `t` goes from container `c` to the affine queue it belongs to. -/
structure Moves (topo : Topology) (s s' : Scheduler) (p : Nat) (c : Container) (t : TaskId) :
    Prop where
  linked : Linked s'
  frame : Frame s s'
  hasQueue : (s.task t).affinity.HasQueue
  places : ∃ g, s.places = add g (p, c) t
    ∧ s'.places = add g (p, .queue (affineQueue topo (s.task t).affinity)) t
  preferred : s'.preferred = countPreferred s.preferred p (s.task t).affinity

theorem Drops.insertAffine {topo : Topology} {s₁ : Scheduler} {c : Container} {cpu : Nat}
    (h : Drops s s₁ (p, c) t) (hl : Linked s)
    (haff : taskAffine topo (s.task t).affinity cpu = false) :
    Moves topo s (schedulerInsertAffine topo s₁ p t) p c t := by
  have ht : Absent s₁.places t := by
    have hd := hl.distinct
    rw [h.places] at hd
    exact hd.of_add.2
  have hq := hasQueue_of_not_affine haff
  unfold schedulerInsertAffine
  rw [(h.frame.task t).affinity]
  simp only
  split
  · rename_i hpref
    have hg : KeepsContainers fun ps =>
        { ps with preferredAffinityTasks := sizeT (ps.preferredAffinityTasks + 1) } :=
      ⟨fun _ => rfl, fun _ c => by cases c <;> rfl⟩
    have ht₁ := ht
    rw [← modProc_places (p := p) hg] at ht₁
    have hadd := addQueue_adds (p := p) (i := affineQueue topo (s.task t).affinity)
      (h.linked.modProc (p := p) hg) ht₁
    have hf : Frame s₁ (s₁.modProc p fun ps =>
        { ps with preferredAffinityTasks := sizeT (ps.preferredAffinityTasks + 1) }) :=
      Frame.modProc s₁ p (fun _ => rfl) (fun _ => rfl)
    refine ⟨hadd.linked, h.frame.trans (hf.trans hadd.frame), hq,
      ⟨s₁.places, h.places, ?_⟩, ?_⟩
    · rw [hadd.places, modProc_places hg]
    · rw [hadd.preferred, countPreferred, if_pos hpref, ← h.preferred]
      funext q
      by_cases hqp : q = p
      · subst hqp
        simp [Scheduler.preferred, modProc_proc_self]
      · simp [Scheduler.preferred, modProc_proc_ne hqp, hqp]
  · rename_i hpref
    have hadd := addQueue_adds (p := p) (i := affineQueue topo (s.task t).affinity) h.linked ht
    refine ⟨hadd.linked, h.frame.trans hadd.frame, hq, ⟨s₁.places, h.places, hadd.places⟩, ?_⟩
    rw [hadd.preferred, h.preferred, countPreferred, if_neg hpref]

/-- Nothing changes but the clock that a process keeps. -/
structure Idles (s s' : Scheduler) : Prop where
  linked : Linked s'
  frame : Frame s s'
  places : s'.places = s.places
  preferred : s'.preferred = s.preferred

theorem updateNow_idles (h : Linked s) (p : Nat) : Idles s (updateNow s p) := by
  have hg (n : Nat) : KeepsContainers fun ps => { ps with now := n } :=
    ⟨fun _ => rfl, fun _ c => by cases c <;> rfl⟩
  have hl := h.modProc (p := p) (hg (s.clock s.ticks))
  have hf := Frame.modProc s p (f := fun ps => { ps with now := s.clock s.ticks })
    (fun _ => rfl) (fun _ => rfl)
  exact ⟨⟨hl.distinct, hl.ok⟩, ⟨hf.task, hf.queues, hf.total, hf.tasks, hf.served⟩,
    modProc_places (hg _),
    modProc_preferred s p (g := fun ps => { ps with now := s.clock s.ticks }) fun _ => rfl⟩

/-- The containers that a search empties into the affine queues. -/
def Container.IsSource (c : Container) : Prop :=
  c = .deadline ∨ c = .yield ∨ c = .queue .main

theorem Reroute.effect {topo : Topology} (h : Linked s) (hr : Reroute topo s s') :
    Idles s s' ∨ ∃ p c t, c.IsSource ∧ Moves topo s s' p c t := by
  cases hr with
  | now p => exact Or.inl (updateNow_idles h p)
  | deadline hmin haff =>
      exact Or.inr ⟨_, _, _, Or.inl rfl,
        (expireDeadline_drops h (min?_mem hmin)).insertAffine h haff⟩
  | yield hhead haff =>
      exact Or.inr ⟨_, _, _, Or.inr (Or.inl rfl), (popYield_drops h hhead).insertAffine h haff⟩
  | main hfind haff =>
      exact Or.inr ⟨_, _, _, Or.inr (Or.inr rfl), (popQueue_drops h hfind).insertAffine h haff⟩

/-- The purge links a woken task into the main queue. -/
theorem PurgeStep.effect (h : Linked s) (hp : PurgeStep s s') :
    ∃ p t s₁, Drops s s₁ (p, .deadline) t ∧ Adds s₁ s' (p, .queue .main) t := by
  obtain ⟨p, t, ht, -, rfl⟩ := hp
  have hd : Drops s ((removeDeadline s p t).modTask t deadlineTaskWakeUp) (p, .deadline) t :=
    expireDeadline_drops h ht
  have habs := h.distinct
  rw [hd.places] at habs
  exact ⟨p, t, _, hd, addQueue_adds hd.linked habs.of_add.2⟩

/-! ## Handing a task out -/

namespace Task

/-- `scheduled_count` after the next hand-out -/
def nextCount (k : Task) : Nat := u32 (k.scheduledCount + 1)

/-- The next hand-out from a queue unlinks the task. -/
def IsLast (k : Task) : Prop := k.degree < 0 ∨ k.degree ≤ k.nextCount

instance (k : Task) : Decidable k.IsLast := inferInstanceAs (Decidable (_ ∨ _))

/-- What `*removed` becomes at the next hand-out from a queue. -/
def removed (k : Task) : Int :=
  if k.degree < 0 then 1 + (-k.degree - k.nextCount) else 1

end Task

def Container.isPreferred : Container → Bool
  | .queue i => i.isPreferred
  | _ => false

/-- Task `t` of container `c` is handed out; `rest` are the places without
it. -/
structure Takes (s s' : Scheduler) (p : Nat) (c : Container) (t : TaskId) (removed : Int)
    (rest : Place → Multiset TaskId) : Prop where
  linked : Linked s'
  queues : s'.queues = s.queues
  total : s'.tasks = s.tasks
  other : ∀ u, u ≠ t → SameTask (s.task u) (s'.task u)
  self : SameTask { s.task t with scheduledCount := (s.task t).nextCount } (s'.task t)
  tasks : ∀ q, (s'.proc q).tasks =
    if q = p then sizeT ((s.proc p).tasks - removed) else (s.proc q).tasks
  served : ∀ q, (s'.proc q).servedTasks = (s.proc q).servedTasks
  preferred : s'.preferred =
    if c.isPreferred then Function.update s.preferred p (sizeT (s.preferred p - removed))
    else s.preferred
  before : s.places = add rest (p, c) t
  after : ((c = .deadline ∨ c = .yield) ∧ removed = 1 ∧ s'.places = rest)
    ∨ ((∃ i, c = .queue i) ∧ removed = (s.task t).removed
      ∧ s'.places = if (s.task t).IsLast then rest else s.places)

theorem schedule_priority (s : Scheduler) (t : TaskId) : (schedule s t).priority = s.priority := by
  funext u
  by_cases hu : u = t
  · subst hu
    simp [Scheduler.priority, schedule, Scheduler.modTask]
  · simp [Scheduler.priority, schedule, Scheduler.modTask, hu]

theorem Linked.schedule (h : Linked s) (t : TaskId) : Linked (schedule s t) := by
  refine ⟨h.distinct, fun p i => ?_⟩
  rw [schedule_priority]
  exact h.ok p i

theorem Frame.schedule (h : Frame s s') (t : TaskId) :
    Frame (Nosv.schedule s t) (Nosv.schedule s' t) := by
  refine ⟨fun u => ?_, h.queues, h.total, h.tasks, h.served⟩
  by_cases hu : u = t
  · subst hu
    have hk := h.task u
    simp only [Nosv.schedule, Scheduler.modTask, Function.update_self]
    exact ⟨hk.pid, hk.priority, hk.affinity, hk.degree, by simp [hk.scheduledCount],
      hk.blockingCount, hk.suspend, hk.suspendMode⟩
  · simpa only [Nosv.schedule, Scheduler.modTask, Function.update_of_ne hu] using h.task u

theorem keepsContainers_taskObtained (preferred : Bool) (removed : Int) :
    KeepsContainers fun ps =>
      { ps with
        preferredAffinityTasks :=
          if preferred then sizeT (ps.preferredAffinityTasks - removed)
          else ps.preferredAffinityTasks
        tasks := sizeT (ps.tasks - removed) } :=
  ⟨fun _ => rfl, fun _ c => by cases c <;> rfl⟩

/-- The end of a hand-out: the counters of the process. -/
theorem takes_taskObtained {s₁ : Scheduler} {c : Container} {removed : Int}
    {rest : Place → Multiset TaskId} (hl : Linked s₁) (hf : Frame (schedule s t) s₁)
    (hpref : s₁.preferred = s.preferred) (hbefore : s.places = add rest (p, c) t)
    (hafter : ((c = .deadline ∨ c = .yield) ∧ removed = 1 ∧ s₁.places = rest)
      ∨ ((∃ i, c = .queue i) ∧ removed = (s.task t).removed
        ∧ s₁.places = if (s.task t).IsLast then rest else s.places)) :
    Takes s (taskObtained s₁ p c.isPreferred removed) p c t removed rest := by
  have hg := keepsContainers_taskObtained c.isPreferred removed
  have hplaces : (taskObtained s₁ p c.isPreferred removed).places = s₁.places :=
    modProc_places hg
  refine ⟨hl.modProc hg, hf.queues, hf.total, fun u hu => ?_, ?_, fun q => ?_, fun q => ?_,
    ?_, hbefore, ?_⟩
  · have := hf.task u
    simp only [schedule, Scheduler.modTask, Function.update_of_ne hu] at this
    exact this
  · have := hf.task t
    simp only [schedule, Scheduler.modTask, Function.update_self] at this
    exact this
  · by_cases hq : q = p
    · subst hq
      rw [if_pos rfl, taskObtained, modProc_proc_self]
      exact congrArg (fun x => sizeT (x - removed)) (hf.tasks q)
    · rw [if_neg hq, taskObtained, modProc_proc_ne hq]
      exact hf.tasks q
  · by_cases hq : q = p
    · subst hq
      rw [taskObtained, modProc_proc_self]
      exact hf.served q
    · rw [taskObtained, modProc_proc_ne hq]
      exact hf.served q
  · rw [← hpref]
    funext q
    by_cases hq : q = p
    · subst hq
      by_cases hc : c.isPreferred = true <;>
        simp [Scheduler.preferred, taskObtained, modProc_proc_self, hc]
    · by_cases hc : c.isPreferred = true <;>
        simp [Scheduler.preferred, taskObtained, modProc_proc_ne hq, hc, hq]
  · rw [hplaces]
    exact hafter

/-- What `scheduler_get_from_queue` returns for the task it finds. -/
theorem schedulerGetFromQueue_some {removed : Int}
    (h : schedulerGetFromQueue s p i = (some (t, removed), s')) :
    schedulerFindInQueue ((s.proc p).queues i) = some t ∧ removed = (s.task t).removed
      ∧ s' = if (s.task t).IsLast then popQueue (schedule s t) p i t
          else (schedule s t).modTask t
            fun k => { k with eventCount := u32 (k.eventCount + 1) } := by
  unfold schedulerGetFromQueue at h
  split at h
  · cases h
  · rename_i u hfind
    have hcount : ((schedule s u).task u).scheduledCount = (s.task u).nextCount := by
      simp [schedule, Scheduler.modTask, Task.nextCount]
    simp only [hcount] at h
    split at h
    · rename_i hlast
      simp only [Prod.mk.injEq, Option.some.injEq] at h
      obtain ⟨⟨rfl, rfl⟩, rfl⟩ := h
      have hl : (s.task u).IsLast := hlast
      refine ⟨hfind, rfl, ?_⟩
      rw [if_pos hl]
    · rename_i hlast
      simp only [Prod.mk.injEq, Option.some.injEq] at h
      obtain ⟨⟨rfl, rfl⟩, rfl⟩ := h
      refine ⟨hfind, ?_, ?_⟩
      · rw [Task.removed, if_neg fun hd => hlast (Or.inl hd)]
      · have hl : ¬ (s.task u).IsLast := hlast
        rw [if_neg hl]

theorem Take.effect {topo : Topology} {cpu : Nat} {removed : Int} (h : Linked s)
    (ht : Take topo cpu s p t removed s') :
    ∃ c rest, Takes s s' p c t removed rest := by
  cases ht with
  | deadline hmin haff =>
      have hd := expireDeadline_drops h (min?_mem hmin)
      exact ⟨.deadline, _, takes_taskObtained (hd.linked.schedule t) (hd.frame.schedule t)
        hd.preferred hd.places (Or.inl ⟨Or.inl rfl, rfl, rfl⟩)⟩
  | yield hhead haff =>
      have hd := popYield_drops h hhead
      exact ⟨.yield, _, takes_taskObtained (hd.linked.schedule t) (hd.frame.schedule t)
        hd.preferred hd.places (Or.inl ⟨Or.inr rfl, rfl, rfl⟩)⟩
  | @queue i t removed s₁ hpoll hget =>
      obtain ⟨hfind, hrem, rfl⟩ := schedulerGetFromQueue_some hget
      have hd := popQueue_drops (h.schedule t) hfind
      refine ⟨.queue i, _, takes_taskObtained (c := .queue i) ?_ ?_ ?_ hd.places
        (Or.inr ⟨⟨i, rfl⟩, hrem, ?_⟩)⟩
      · split
        · exact hd.linked
        · exact (h.schedule t).modTask fun k => ⟨rfl, rfl, rfl, rfl, rfl, rfl, rfl, rfl⟩
      · split
        · exact hd.frame
        · exact Frame.modTask _ t fun k => ⟨rfl, rfl, rfl, rfl, rfl, rfl, rfl, rfl⟩
      · split
        · exact hd.preferred
        · rfl
      · split
        · rfl
        · rfl

end Nosv
