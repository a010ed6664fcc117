import Nosv.SchedulerRuns

/-!
# The shared word of a task

`yield`, `suspend_args` and the left link of `tree_hook` are one word of
the task. The scheduler tests it as `yield` when a task arrives, so it
has to be zero again when a task leaves. What the containers do to it:

* the priority tree clears it when a task is popped, a list does not
  touch it;
* the yield list clears it;
* the deadline tree leaves in it the left child of the removed node,
  which is nothing for the first node of the tree and only for that.

`ListClean` says that the tasks in queues that are lists have a zero
word. Every operation keeps it, except a purge that takes a node with a
left child out of the deadline tree (`CleanPurge`).
-/

namespace Nosv

open RBTree Relation Places

/-- The tasks of the queues that are lists have a zero word. -/
def ListClean (s : Scheduler) : Prop :=
  ∀ p i t, t ∈ s.places (p, .queue i) → ((s.proc p).queues i).priorityEnabled = false →
    (s.task t).word = 0

/-- Task `t` was unlinked with a zero word; no other word changed. -/
structure CleanDrop (s s' : Scheduler) (t : TaskId) : Prop where
  clean : ListClean s'
  zero : (s'.task t).word = 0
  other : ∀ u, u ≠ t → (s'.task u).word = (s.task u).word

variable {s s' : Scheduler} {p : Nat} {i : QueueId} {t : TaskId}

/-! ## Queues -/

/-- A queue that is a tree stays one. -/
theorem schedulerAddQueue_enabled (priority : TaskId → Int) (q : Queue) (t : TaskId) :
    (schedulerAddQueue priority q t).priorityEnabled
      = (q.priorityEnabled || decide (priority t ≠ 0)) := by
  unfold schedulerAddQueue
  split
  · rename_i hp
    split <;> simp [hp]
  · rename_i hp
    split
    · rename_i ht
      simp [ht]
    · rename_i ht
      simpa [hp] using ht

theorem schedulerPopQueue_enabled (q : Queue) :
    (schedulerPopQueue q).priorityEnabled = q.priorityEnabled := by
  unfold schedulerPopQueue
  split
  · split
    · rfl
    · split <;> rfl
  · rfl

/-- The queues of a process before and after a change of one of them. -/
theorem setQueue_queues (s : Scheduler) (p : Nat) (i : QueueId) (new : Queue) (q : Nat)
    (j : QueueId) :
    ((s.setQueue p i new).proc q).queues j
      = if q = p ∧ j = i then new else (s.proc q).queues j := by
  by_cases hq : q = p
  · subst hq
    by_cases hj : j = i
    · subst hj
      simp [Scheduler.setQueue, Scheduler.modProc]
    · simp [Scheduler.setQueue, Scheduler.modProc, hj]
  · simp [Scheduler.setQueue, Scheduler.modProc, hq]

/-- `ListClean` after a step that concerns one task. -/
theorem ListClean.of (h : ListClean s)
    (hword : ∀ u, u ≠ t → (s'.task u).word = (s.task u).word)
    (hsub : ∀ x u, u ≠ t → u ∈ s'.places x → u ∈ s.places x)
    (hmode : ∀ q j, ((s'.proc q).queues j).priorityEnabled = false →
      ((s.proc q).queues j).priorityEnabled = false)
    (ht : ∀ q j, t ∈ s'.places (q, .queue j) →
      ((s'.proc q).queues j).priorityEnabled = false → (s'.task t).word = 0) :
    ListClean s' := by
  intro q j u hu hlist
  by_cases hut : u = t
  · subst hut
    exact ht q j hu hlist
  · rw [hword u hut]
    exact h q j u (hsub _ u hut hu) (hmode q j hlist)

/-- A task is linked into a queue: if that is a list, with a zero word. -/
theorem ListClean.addQueue (h : ListClean s) (hl : Linked s) (ht : Absent s.places t)
    (hzero : ((s.proc p).queues i).priorityEnabled = false → s.priority t = 0 →
      (s.task t).word = 0) :
    ListClean (addQueue s p i t) := by
  have hadds := addQueue_adds (p := p) (i := i) hl ht
  refine h.of (t := t) (fun u _ => rfl) (fun x u hut hu => ?_) (fun q j hlist => ?_)
    (fun q j hmem hlist => ?_)
  · rw [hadds.places, mem_add] at hu
    rcases hu with ⟨-, rfl⟩ | hu
    · exact absurd rfl hut
    · exact hu
  · rw [Nosv.addQueue, setQueue_queues] at hlist
    split at hlist
    · rename_i hqj
      rw [schedulerAddQueue_enabled, Bool.or_eq_false_iff] at hlist
      rw [hqj.1, hqj.2]
      exact hlist.1
    · exact hlist
  · rw [hadds.places, mem_add] at hmem
    rcases hmem with ⟨hqj, -⟩ | hmem
    · obtain ⟨rfl, hj⟩ := Prod.mk.injEq .. |>.mp hqj
      injection hj with hj
      subst hj
      rw [Nosv.addQueue, setQueue_queues, if_pos ⟨rfl, rfl⟩, schedulerAddQueue_enabled,
        Bool.or_eq_false_iff] at hlist
      exact hzero hlist.1 (by simpa using hlist.2)
    · exact absurd hmem (ht _)

/-- What is left when a task is unlinked keeps its words. -/
theorem cleanDrop_of {x : Place} (h : ListClean s) (hd : Drops s s' x t)
    (hword : ∀ u, u ≠ t → (s'.task u).word = (s.task u).word)
    (hmode : ∀ q j, ((s'.proc q).queues j).priorityEnabled
      = ((s.proc q).queues j).priorityEnabled)
    (hzero : (s'.task t).word = 0) : CleanDrop s s' t := by
  refine ⟨h.of hword (fun y u _ hu => ?_) (fun q j hlist => ?_) (fun _ _ _ _ => hzero), hzero,
    hword⟩
  · rw [hd.places, mem_add]
    exact Or.inr hu
  · rwa [hmode] at hlist

theorem popQueue_cleanDrop (h : ListClean s) (hl : Linked s)
    (hfind : schedulerFindInQueue ((s.proc p).queues i) = some t) :
    CleanDrop s (popQueue s p i t) t := by
  have hmem : t ∈ s.places (p, .queue i) := Multiset.mem_coe.mpr (find_mem_contents hfind)
  have hd := popQueue_drops hl hfind
  refine cleanDrop_of h hd (fun u hu => ?_) (fun q j => ?_) ?_
  · unfold popQueue
    simp only
    split
    · simp [Scheduler.modTask, Scheduler.setQueue, Scheduler.modProc, hu]
    · rfl
  · have hproc : (popQueue s p i t).proc
        = (s.setQueue p i (schedulerPopQueue ((s.proc p).queues i))).proc := by
      unfold popQueue
      simp only
      split <;> rfl
    rw [hproc, setQueue_queues]
    split
    · rename_i hqj
      rw [schedulerPopQueue_enabled, hqj.1, hqj.2]
    · rfl
  · unfold popQueue
    simp only
    split
    · simp [Scheduler.modTask]
    · rename_i hlist
      exact h p i t hmem (by simpa using hlist)

/-! ## The deadline tree and the yield list -/

/-- The word of a task removed from the deadline tree. -/
def leftWord (s : Scheduler) (p : Nat) (t : TaskId) : Nat :=
  match leftLink t (s.proc p).deadlineTasks with
  | none => 0
  | some u => ptr u

theorem expireDeadline_word (s : Scheduler) (p : Nat) (t : TaskId) :
    ((expireDeadline s p t).task t).word = leftWord s p t := by
  simp only [expireDeadline, removeDeadline, Scheduler.modTask, Scheduler.modProc,
    deadlineTaskWakeUp, Function.update_self]
  rfl

theorem expireDeadline_word_ne (s : Scheduler) (p : Nat) {t u : TaskId} (hu : u ≠ t) :
    ((expireDeadline s p t).task u).word = (s.task u).word := by
  simp [expireDeadline, removeDeadline, Scheduler.modTask, Scheduler.modProc, hu]

theorem expireDeadline_queues (s : Scheduler) (p : Nat) (t : TaskId) (q : Nat) :
    ((expireDeadline s p t).proc q).queues = (s.proc q).queues := by
  by_cases hq : q = p
  · subst hq
    simp [expireDeadline, removeDeadline, Scheduler.modTask, Scheduler.modProc]
  · simp [expireDeadline, removeDeadline, Scheduler.modTask, Scheduler.modProc, hq]

/-- A node without a left child leaves the deadline tree with a zero word. -/
theorem expireDeadline_cleanDrop (h : ListClean s) (hl : Linked s)
    (ht : t ∈ inorder (s.proc p).deadlineTasks)
    (hleft : leftLink t (s.proc p).deadlineTasks = none) :
    CleanDrop s (expireDeadline s p t) t := by
  refine cleanDrop_of h (expireDeadline_drops hl ht) (fun u hu => expireDeadline_word_ne s p hu)
    (fun q j => by rw [expireDeadline_queues]) ?_
  rw [expireDeadline_word, leftWord, hleft]

theorem leftLink_of_min (hl : Linked s) (hmin : min? (s.proc p).deadlineTasks = some t) :
    leftLink t (s.proc p).deadlineTasks = none :=
  leftLink_min (Multiset.coe_nodup.mp (hl.distinct.nodup (p, .deadline))) hmin

theorem popYield_cleanDrop (h : ListClean s) (hl : Linked s) {rest : List TaskId}
    (hhead : (s.proc p).yieldTasks = t :: rest) : CleanDrop s (popYield s p t) t := by
  refine cleanDrop_of h (popYield_drops hl hhead) (fun u hu => ?_) (fun q j => ?_) ?_
  · simp [popYield, Scheduler.modTask, Scheduler.modProc, hu]
  · by_cases hq : q = p
    · subst hq
      simp [popYield, Scheduler.modTask, Scheduler.modProc]
    · simp [popYield, Scheduler.modTask, Scheduler.modProc, hq]
  · simp [popYield, Scheduler.modTask, Scheduler.modProc]

/-! ## Re-routing -/

theorem ListClean.insertAffine {topo : Topology} (h : ListClean s) (hl : Linked s)
    (ht : Absent s.places t) (hzero : (s.task t).word = 0) :
    ListClean (schedulerInsertAffine topo s p t) := by
  unfold schedulerInsertAffine
  simp only
  split
  · have hg : KeepsContainers fun ps =>
        { ps with preferredAffinityTasks := sizeT (ps.preferredAffinityTasks + 1) } :=
      ⟨fun _ => rfl, fun _ c => by cases c <;> rfl⟩
    refine ListClean.addQueue ?_ (hl.modProc hg) ?_ fun _ _ => hzero
    · intro q j u hu hlist
      rw [modProc_places hg] at hu
      refine h q j u hu ?_
      by_cases hq : q = p
      · subst hq
        simpa [modProc_proc_self] using hlist
      · simpa [modProc_proc_ne hq] using hlist
    · rw [modProc_places hg]
      exact ht
  · exact h.addQueue hl ht fun _ _ => hzero

/-- Re-routing moves a task with a zero word. -/
theorem CleanDrop.insertAffine {topo : Topology} {s₁ : Scheduler} {x : Place}
    (h : CleanDrop s s₁ t) (hl : Linked s) (hd : Drops s s₁ x t) :
    ListClean (schedulerInsertAffine topo s₁ p t)
      ∧ ∀ u, Absent s.places u →
        ((schedulerInsertAffine topo s₁ p t).task u).word = (s.task u).word := by
  have hdis := hl.distinct
  rw [hd.places] at hdis
  refine ⟨h.clean.insertAffine hd.linked hdis.of_add.2 h.zero, fun u hu => ?_⟩
  have hut : u ≠ t := by
    rintro rfl
    refine hu x ?_
    rw [hd.places, mem_add]
    exact Or.inl ⟨rfl, rfl⟩
  rw [schedulerInsertAffine_task]
  exact h.other u hut

theorem Reroute.word {topo : Topology} (h : ListClean s) (hl : Linked s)
    (hr : Reroute topo s s') :
    ListClean s' ∧ ∀ u, Absent s.places u → (s'.task u).word = (s.task u).word := by
  cases hr with
  | now p =>
      refine ⟨fun q j u hu hlist => ?_, fun _ _ => rfl⟩
      rw [(updateNow_idles hl p).places] at hu
      refine h q j u hu ?_
      by_cases hq : q = p
      · subst hq
        simpa [updateNow, Scheduler.modProc] using hlist
      · simpa [updateNow, Scheduler.modProc, hq] using hlist
  | deadline hmin haff =>
      have hmem := min?_mem hmin
      exact (expireDeadline_cleanDrop h hl hmem (leftLink_of_min hl hmin)).insertAffine hl
        (expireDeadline_drops hl hmem)
  | yield hhead haff =>
      exact (popYield_cleanDrop h hl hhead).insertAffine hl (popYield_drops hl hhead)
  | main hfind haff =>
      exact (popQueue_cleanDrop h hl hfind).insertAffine hl (popQueue_drops hl hfind)

/-- Re-routing stores the same tasks. -/
theorem Reroute.absent {topo : Topology} (hl : Linked s) (hr : Reroute topo s s') {u : TaskId}
    (hu : Absent s.places u) : Absent s'.places u := by
  rcases hr.effect hl with hi | ⟨p, c, t, -, hm⟩
  · rw [hi.places]
    exact hu
  · obtain ⟨g, hs, hs'⟩ := hm.places
    intro x hx
    rw [hs', mem_add] at hx
    rcases hx with ⟨-, rfl⟩ | hx
    · refine hu (p, c) ?_
      rw [hs, mem_add]
      exact Or.inl ⟨rfl, rfl⟩
    · refine hu x ?_
      rw [hs, mem_add]
      exact Or.inr hx

theorem reroutes_word {topo : Topology} (h : ListClean s) (hb : Base topo s)
    (hr : ReflTransGen (Reroute topo) s s') :
    ListClean s' ∧ ∀ u, Absent s.places u →
      Absent s'.places u ∧ (s'.task u).word = (s.task u).word := by
  induction hr with
  | refl => exact ⟨h, fun u hu => ⟨hu, rfl⟩⟩
  | tail hrest hstep ih =>
      have hl := (hb.reroutes hrest).linked
      obtain ⟨hclean, hword⟩ := hstep.word ih.1 hl
      refine ⟨hclean, fun u hu => ?_⟩
      obtain ⟨habs, heq⟩ := ih.2 u hu
      exact ⟨hstep.absent hl habs, (hword u habs).trans heq⟩

/-! ## Hand-outs -/

theorem taskObtained_task (s : Scheduler) (p : Nat) (preferred : Bool) (removed : Int) :
    (taskObtained s p preferred removed).task = s.task := rfl

theorem ListClean.schedule (h : ListClean s) (t : TaskId) : ListClean (schedule s t) := by
  intro q j u hu hlist
  rw [schedule_word]
  exact h q j u hu hlist

theorem ListClean.taskObtained (h : ListClean s) (preferred : Bool) (removed : Int) :
    ListClean (taskObtained s p preferred removed) := by
  intro q j u hu hlist
  have hg := keepsContainers_taskObtained preferred removed
  have hplaces : (Nosv.taskObtained s p preferred removed).places = s.places := modProc_places hg
  rw [hplaces] at hu
  refine h q j u hu ?_
  by_cases hq : q = p
  · subst hq
    simpa [Nosv.taskObtained, modProc_proc_self] using hlist
  · simpa [Nosv.taskObtained, modProc_proc_ne hq] using hlist

/-- A task that is unlinked when it is handed out leaves with a zero word. -/
theorem Take.word {topo : Topology} {cpu : Nat} {removed : Int} (h : ListClean s)
    (hl : Linked s) (ht : Take topo cpu s p t removed s') :
    ListClean s' ∧ (Absent s'.places t → (s'.task t).word = 0)
      ∧ ∀ u, u ≠ t → (s'.task u).word = (s.task u).word := by
  cases ht with
  | deadline hmin haff =>
      have hc := expireDeadline_cleanDrop h hl (min?_mem hmin) (leftLink_of_min hl hmin)
      refine ⟨(hc.clean.schedule t).taskObtained _ _, fun _ => ?_, fun u hu => ?_⟩
      · rw [taskObtained_task, schedule_word]
        exact hc.zero
      · rw [taskObtained_task, schedule_word]
        exact hc.other u hu
  | yield hhead haff =>
      have hc := popYield_cleanDrop h hl hhead
      refine ⟨(hc.clean.schedule t).taskObtained _ _, fun _ => ?_, fun u hu => ?_⟩
      · rw [taskObtained_task, schedule_word]
        exact hc.zero
      · rw [taskObtained_task, schedule_word]
        exact hc.other u hu
  | @queue i t removed s₁ hpoll hget =>
      obtain ⟨hfind, -, rfl⟩ := schedulerGetFromQueue_some hget
      by_cases hlast : (s.task t).IsLast
      · rw [if_pos hlast]
        have hc := popQueue_cleanDrop (h.schedule t) (hl.schedule t) hfind
        refine ⟨hc.clean.taskObtained _ _, fun _ => hc.zero, fun u hu => ?_⟩
        rw [taskObtained_task, hc.other u hu, schedule_word]
      · rw [if_neg hlast]
        refine ⟨ListClean.taskObtained (fun q j u hu hlist => ?_) _ _, fun habs => ?_,
          fun u hu => ?_⟩
        · have hword := (h.schedule t) q j u hu hlist
          by_cases hut : u = t
          · subst hut
            simpa [Scheduler.modTask] using hword
          · simpa [Scheduler.modTask, hut] using hword
        · -- it is still in its queue
          have hmem : t ∈ s.places (p, .queue i) :=
            Multiset.mem_coe.mpr (find_mem_contents hfind)
          have hplaces : (taskObtained ((schedule s t).modTask t
              fun k => { k with eventCount := u32 (k.eventCount + 1) }) p i.isPreferred
                removed).places = s.places :=
            modProc_places (keepsContainers_taskObtained _ _)
          rw [hplaces] at habs
          exact absurd hmem (habs _)
        · rw [taskObtained_task]
          simp only [Scheduler.modTask, Function.update_of_ne hu]
          exact schedule_word s t u

/-- What a search does to the words: nothing outside the scheduler, and
the task it unlinks leaves with a zero word. -/
theorem get_word {topo : Topology} {cpu pid ts : Nat} {external : Bool} {r : Option TaskId}
    (hb : Base topo s) (h : ListClean s)
    (hget : schedulerGetInternal topo s cpu pid external ts = (r, s')) :
    ListClean s' ∧ (∀ u, Absent s.places u → (s'.task u).word = (s.task u).word)
      ∧ ∀ t, r = some t → Absent s'.places t → (s'.task t).word = 0 := by
  obtain ⟨s₀, hsearch, hsame⟩ := schedulerGetInternal_spec hget
  have hstore : s₀.places = s'.places := by
    unfold Scheduler.places
    rw [hsame.proc]
  have hclean (hc : ListClean s₀) : ListClean s' := by
    intro q j u hu hlist
    rw [hsame.task]
    rw [hsame.proc] at hlist
    exact hc q j u (hstore ▸ hu) hlist
  cases r with
  | none =>
      obtain ⟨hc, hword⟩ := reroutes_word h hb hsearch
      refine ⟨hclean hc, fun u hu => ?_, fun t ht => by cases ht⟩
      rw [hsame.task]
      exact (hword u hu).2
  | some t =>
      obtain ⟨p, -, s₁, removed, s₂, hr, htake, rfl⟩ := hsearch
      obtain ⟨hc₁, hword₁⟩ := reroutes_word h hb hr
      have hb₁ := hb.reroutes hr
      obtain ⟨hc₂, hzero, hother⟩ := htake.word hc₁ hb₁.linked
      have hserves := countServed_serves s₂ p removed
      refine ⟨hclean fun q j u hu hlist => ?_, fun u hu => ?_, fun v hv habs => ?_⟩
      · rw [hserves.places] at hu
        refine hc₂ q j u hu ?_
        by_cases hq : q = p
        · subst hq
          simpa [countServed, Scheduler.modProc] using hlist
        · simpa [countServed, Scheduler.modProc, hq] using hlist
      · obtain ⟨habs, heq⟩ := hword₁ u hu
        obtain ⟨c, rest, htakes⟩ := htake.effect hb₁.linked
        have hut : u ≠ t := by
          rintro rfl
          exact habs _ htakes.mem
        rw [hsame.task, hserves.task, hother u hut, heq]
      · obtain rfl := Option.some.inj hv
        rw [hsame.task, hserves.task]
        refine hzero ?_
        rw [← hstore, hserves.places] at habs
        exact habs

/-! ## The purge -/

/-- Removing `t` leaves no link in its word, or it goes to a tree that
will clear it. -/
def CleanPurge (s : Scheduler) (p : Nat) (t : TaskId) : Prop :=
  leftLink t (s.proc p).deadlineTasks = none
    ∨ ((s.proc p).queues .main).priorityEnabled = true ∨ (s.task t).priority ≠ 0

instance (s : Scheduler) (p : Nat) (t : TaskId) : Decidable (CleanPurge s p t) :=
  inferInstanceAs (Decidable (_ ∨ _))

/-- Every task that the loop over one tree takes out meets `CleanPurge`. -/
def CleanPurgeProcess (s : Scheduler) (p : Nat) : List TaskId → Nat → Prop
  | [], _ => True
  | t :: ts, n =>
      if (s.task t).deadlineState = .ready then
        CleanPurge s p t ∧ (n - 1 ≠ 0 → CleanPurgeProcess (purgeTask s p t) p ts (n - 1))
      else CleanPurgeProcess s p ts n

def CleanPurgeProcesses (s : Scheduler) : List Nat → Nat → Prop
  | [], _ => True
  | p :: ps, n =>
      CleanPurgeProcess s p (inorder (s.proc p).deadlineTasks) n ∧
        match purgeProcess s p (inorder (s.proc p).deadlineTasks) n with
        | (s', n') => n' ≠ 0 → CleanPurgeProcesses s' ps n'

/-- Every task that `scheduler_deadline_purge` takes out meets
`CleanPurge`. -/
def CleanDeadlinePurge (s : Scheduler) (logicPid : Nat) : Prop :=
  s.deadlinePurge ≠ 0 → s.tasks ≠ 0 →
    CleanPurgeProcesses s (circularFrom s.queues (startPid s logicPid)) s.deadlinePurge

instance decidableCleanPurgeProcess (s : Scheduler) (p : Nat) :
    ∀ ts n, Decidable (CleanPurgeProcess s p ts n)
  | [], _ => isTrue trivial
  | t :: ts, n =>
      have := decidableCleanPurgeProcess s p ts n
      have := decidableCleanPurgeProcess (purgeTask s p t) p ts (n - 1)
      inferInstanceAs (Decidable (if (s.task t).deadlineState = .ready then
        CleanPurge s p t ∧ (n - 1 ≠ 0 → CleanPurgeProcess (purgeTask s p t) p ts (n - 1))
      else CleanPurgeProcess s p ts n))

instance decidableCleanPurgeProcesses (s : Scheduler) :
    ∀ ps n, Decidable (CleanPurgeProcesses s ps n)
  | [], _ => isTrue trivial
  | p :: ps, n =>
      have := decidableCleanPurgeProcesses
        (purgeProcess s p (inorder (s.proc p).deadlineTasks) n).1 ps
        (purgeProcess s p (inorder (s.proc p).deadlineTasks) n).2
      inferInstanceAs (Decidable (CleanPurgeProcess s p (inorder (s.proc p).deadlineTasks) n ∧
        ((purgeProcess s p (inorder (s.proc p).deadlineTasks) n).2 ≠ 0 →
          CleanPurgeProcesses (purgeProcess s p (inorder (s.proc p).deadlineTasks) n).1 ps
            (purgeProcess s p (inorder (s.proc p).deadlineTasks) n).2)))

instance (s : Scheduler) (logicPid : Nat) : Decidable (CleanDeadlinePurge s logicPid) :=
  inferInstanceAs (Decidable (_ → _ → _))

theorem purgeTask_word (h : ListClean s) (hl : Linked s)
    (ht : t ∈ inorder (s.proc p).deadlineTasks) (hclean : CleanPurge s p t) :
    ListClean (purgeTask s p t)
      ∧ ∀ u, u ≠ t → ((purgeTask s p t).task u).word = (s.task u).word := by
  have hd := expireDeadline_drops hl ht
  have hdis := hl.distinct
  rw [hd.places] at hdis
  have hlist : ListClean (expireDeadline s p t) := by
    refine h.of (t := t) (fun u hu => expireDeadline_word_ne s p hu) (fun x u _ hu => ?_)
      (fun q j hlist => by rwa [expireDeadline_queues] at hlist) (fun q j hmem _ => ?_)
    · rw [hd.places, mem_add]
      exact Or.inr hu
    · exact absurd hmem (hdis.of_add.2 _)
  have hpurge : purgeTask s p t = addQueue (expireDeadline s p t) p .main t := rfl
  rw [hpurge]
  refine ⟨?_, fun u hu => expireDeadline_word_ne s p hu⟩
  refine ListClean.addQueue hlist hd.linked hdis.of_add.2 fun hmode hprio => ?_
  rw [expireDeadline_word, leftWord]
  rcases hclean with hleft | hmain | hp
  · rw [hleft]
  · rw [expireDeadline_queues, hmain] at hmode
    cases hmode
  · exact absurd ((hd.frame.task t).priority.symm.trans hprio) hp

/-- One purged task: what the containers and the words become. -/
theorem purgeTask_spec {topo : Topology} (h : ListClean s) (hb : Base topo s)
    (ht : t ∈ inorder (s.proc p).deadlineTasks) (hready : (s.task t).deadlineState = .ready)
    (hclean : CleanPurge s p t) :
    Base topo (purgeTask s p t) ∧ ListClean (purgeTask s p t)
      ∧ (∀ u, Absent (purgeTask s p t).places u ↔ Absent s.places u)
      ∧ ∀ u, Absent s.places u → ((purgeTask s p t).task u).word = (s.task u).word := by
  have hstep : PurgeStep s (purgeTask s p t) := ⟨p, t, ht, hready, rfl⟩
  obtain ⟨hlist, hword⟩ := purgeTask_word h hb.linked ht hclean
  have hmem : t ∈ s.places (p, .deadline) := Multiset.mem_coe.mpr ht
  have hd := expireDeadline_drops hb.linked ht
  have hdis := hb.linked.distinct
  rw [hd.places] at hdis
  have ha : Adds (expireDeadline s p t) (purgeTask s p t) (p, .queue .main) t :=
    addQueue_adds hd.linked hdis.of_add.2
  refine ⟨hb.purgeStep hstep, hlist, fun u => ?_, fun u hu => hword u ?_⟩
  · simp only [Absent, ha.places, hd.places, mem_add, not_or, not_and]
    constructor
    · intro hu x
      refine ⟨fun _ heq => ?_, (hu x).2⟩
      exact (hu (p, .queue .main)).1 rfl heq
    · intro hu x
      refine ⟨fun _ heq => ?_, (hu x).2⟩
      exact (hu (p, .deadline)).1 rfl heq
  · rintro rfl
    exact hu _ hmem

/-- What a clean purge keeps. -/
structure PurgeKeeps (topo : Topology) (s s' : Scheduler) : Prop where
  base : Base topo s'
  clean : ListClean s'
  absent : ∀ u, Absent s'.places u ↔ Absent s.places u
  word : ∀ u, Absent s.places u → (s'.task u).word = (s.task u).word

theorem PurgeKeeps.trans {topo : Topology} {s₁ s₂ : Scheduler} (h : PurgeKeeps topo s s₁)
    (h' : PurgeKeeps topo s₁ s₂) : PurgeKeeps topo s s₂ :=
  ⟨h'.base, h'.clean, fun u => (h'.absent u).trans (h.absent u),
    fun u hu => (h'.word u ((h.absent u).mpr hu)).trans (h.word u hu)⟩

theorem purgeProcess_keeps {topo : Topology} :
    ∀ {ts : List TaskId} {n : Nat} {s s' : Scheduler} {n' : Nat}, Base topo s → ListClean s →
      ts.Nodup → (∀ t ∈ ts, t ∈ inorder (s.proc p).deadlineTasks) →
      CleanPurgeProcess s p ts n → purgeProcess s p ts n = (s', n') → PurgeKeeps topo s s'
  | [], n, s, s', n', hb, hc, _, _, _, h => by
      obtain ⟨rfl, rfl⟩ := Prod.mk.injEq .. |>.mp h
      exact ⟨hb, hc, fun _ => Iff.rfl, fun _ _ => rfl⟩
  | t :: ts, n, s, s', n', hb, hc, hts, hmem, hclean, h => by
      rw [List.nodup_cons] at hts
      rw [purgeProcess] at h
      rw [CleanPurgeProcess] at hclean
      split at h
      · rename_i hready
        rw [if_pos hready] at hclean
        obtain ⟨hb', hc', habs, hword⟩ :=
          purgeTask_spec hc hb (hmem t (by simp)) hready hclean.1
        have hkeep : PurgeKeeps topo s (purgeTask s p t) := ⟨hb', hc', habs, hword⟩
        split at h
        · obtain ⟨rfl, rfl⟩ := Prod.mk.injEq .. |>.mp h
          exact hkeep
        · rename_i hn
          refine hkeep.trans (purgeProcess_keeps hb' hc' hts.2 (fun u hu => ?_)
            (hclean.2 hn) h)
          rw [purgeTask_deadlineTasks, if_pos rfl]
          obtain ⟨l, r, hin, hrem⟩ := inorder_remove (hmem t (by simp))
          have hu' := hmem u (by simp [hu])
          have hne : u ≠ t := fun heq => hts.1 (heq ▸ hu)
          rw [hin] at hu'
          rw [hrem]
          simp only [List.mem_append, List.mem_cons] at hu' ⊢
          tauto
      · rename_i hready
        rw [if_neg hready] at hclean
        exact purgeProcess_keeps hb hc hts.2 (fun u hu => hmem u (by simp [hu])) hclean h

theorem purgeProcesses_keeps {topo : Topology} :
    ∀ {ps : List Nat} {n : Nat} {s : Scheduler}, Base topo s → ListClean s →
      CleanPurgeProcesses s ps n → PurgeKeeps topo s (purgeProcesses s ps n)
  | [], _, s, hb, hc, _ => ⟨hb, hc, fun _ => Iff.rfl, fun _ _ => rfl⟩
  | p :: ps, n, s, hb, hc, hclean => by
      rw [purgeProcesses]
      rw [CleanPurgeProcesses] at hclean
      cases hp : purgeProcess s p (inorder (s.proc p).deadlineTasks) n with
      | mk s' n' =>
          rw [hp] at hclean
          have hkeep := purgeProcess_keeps hb hc (hb.deadlineNodup p) (fun t ht => ht)
            hclean.1 hp
          simp only
          split
          · exact hkeep
          · rename_i hn
            exact hkeep.trans (purgeProcesses_keeps hkeep.base hkeep.clean (hclean.2 hn))

theorem schedulerDeadlinePurge_keeps {topo : Topology} (hb : Base topo s) (hc : ListClean s)
    {logicPid : Nat} (hclean : CleanDeadlinePurge s logicPid) :
    PurgeKeeps topo s (schedulerDeadlinePurge s logicPid) := by
  unfold schedulerDeadlinePurge
  simp only
  split
  · exact ⟨hb, hc, fun _ => Iff.rfl, fun _ _ => rfl⟩
  · rename_i hpurge
    have hkeep : PurgeKeeps topo s (schedulerDeadlinePurgeInternal s logicPid s.deadlinePurge) := by
      unfold schedulerDeadlinePurgeInternal
      split
      · exact ⟨hb, hc, fun _ => Iff.rfl, fun _ _ => rfl⟩
      · rename_i htasks
        exact purgeProcesses_keeps hb hc (hclean hpurge htasks)
    generalize schedulerDeadlinePurgeInternal s logicPid s.deadlinePurge = s₁ at hkeep
    have hidle : Idles s₁ { s₁ with deadlinePurge := s₁.deadlinePurge - s.deadlinePurge } :=
      idles_sameStore hkeep.base.linked ⟨rfl, rfl, rfl, rfl⟩
    exact ⟨hkeep.base.idles hidle, hkeep.clean, hkeep.absent, hkeep.word⟩

/-! ## Insertion -/

theorem modTask_word_ne {f : Task → Task} {u : TaskId} (hu : u ≠ t) :
    ((s.modTask t f).task u).word = (s.task u).word := by
  simp [Scheduler.modTask, hu]

/-- Writes to a task that is in no list. -/
theorem ListClean.modTask (h : ListClean s) (ht : Absent s.places t) {f : Task → Task} :
    ListClean (s.modTask t f) := by
  intro q j u hu hlist
  have hut : u ≠ t := by
    rintro rfl
    exact ht _ hu
  rw [modTask_word_ne hut]
  exact h q j u hu hlist

/-- A change of a container that is not a queue. -/
theorem ListClean.modProc {c : Container} {g : ProcessScheduler → ProcessScheduler}
    (h : ListClean s) (hg : Relinks c g) (hc : ∀ j, c ≠ .queue j) :
    ListClean (s.modProc p g) := by
  intro q j u hu hlist
  by_cases hq : q = p
  · subst hq
    simp only [Scheduler.places, modProc_proc_self] at hu
    rw [hg.rest _ _ fun heq => hc j heq.symm] at hu
    rw [modProc_proc_self, hg.queues] at hlist
    exact h q j u hu hlist
  · simp only [Scheduler.places, modProc_proc_ne hq] at hu
    rw [modProc_proc_ne hq] at hlist
    exact h q j u hu hlist

theorem insertDeadline_word :
    ∀ {n : Nat} {s s' : Scheduler}, ListClean s → Absent s.places t →
      insertDeadline s p t n = some s' →
      ListClean s' ∧ ∀ u, u ≠ t → (s'.task u).word = (s.task u).word
  | 0, s, s', _, _, h => by cases h
  | n + 1, s, s', hc, ht, h => by
      rw [insertDeadline] at h
      split at h
      · rename_i tree hins
        obtain rfl := Option.some.inj h
        refine ⟨(hc.modTask ht).modProc (relinks_deadline _) (fun j => by simp), fun u hu => ?_⟩
        simp [Scheduler.modTask, Scheduler.modProc, hu]
      · obtain ⟨h₁, h₂⟩ := insertDeadline_word (hc.modTask ht) ht h
        exact ⟨h₁, fun u hu => (h₂ u hu).trans (modTask_word_ne hu)⟩

theorem insertContainer_word (h : ListClean s) (hl : Linked s) (ht : Absent s.places t)
    (hins : insertContainer s p t = some s') :
    ListClean s' ∧ ∀ u, u ≠ t → (s'.task u).word = (s.task u).word := by
  unfold insertContainer at hins
  split at hins
  · obtain rfl := Option.some.inj hins
    refine ⟨(h.modTask ht).modProc (relinks_yield fun ts => ts ++ [t]) (fun j => by simp),
      fun u hu => ?_⟩
    simp [Scheduler.modTask, Scheduler.modProc, hu]
  · rename_i hy
    have hzero : (s.task t).word = 0 := not_not.mp hy
    split at hins
    · split at hins
      · obtain ⟨h₁, h₂⟩ := insertDeadline_word (h.modTask ht) ht hins
        exact ⟨h₁, fun u hu => (h₂ u hu).trans (modTask_word_ne hu)⟩
      · obtain rfl := Option.some.inj hins
        refine ⟨(h.modTask ht).addQueue (hl.modTask sameTask_wakeUp) ht fun _ _ => ?_,
          fun u hu => modTask_word_ne hu⟩
        simpa [Scheduler.modTask, deadlineTaskWakeUp] using hzero
    · obtain rfl := Option.some.inj hins
      exact ⟨h.addQueue hl ht fun _ _ => hzero, fun u hu => rfl⟩

theorem insert_word {topo : Topology} (hb : Base topo s) (h : ListClean s)
    (ht : Absent s.places t) (hins : schedulerInsertReadyTask s t = some s') :
    ListClean s' ∧ ∀ u, u ≠ t → (s'.task u).word = (s.task u).word := by
  unfold schedulerInsertReadyTask at hins
  simp only at hins
  split at hins
  · cases hins
  · rename_i s₁ hcont
    obtain rfl := Option.some.inj hins
    obtain ⟨hb₀, hplaces₀, -⟩ := hb.ensurePid (s.task t).pid
    have hc₀ : ListClean (ensurePid s (s.task t).pid) := by
      intro q j u hu hlist
      rw [hplaces₀] at hu
      rw [ensurePid_task]
      refine h q j u hu ?_
      have hknown := (hb.fits _ u hu).known
      unfold ensurePid at hlist
      split at hlist
      · exact hlist
      · rename_i hmem
        have hq : q ≠ (s.task t).pid := fun heq => hmem (heq ▸ hknown)
        simpa [schedulerInitPid, hq] using hlist
    have ht₀ : Absent (ensurePid s (s.task t).pid).places t := by
      rw [hplaces₀]
      exact ht
    obtain ⟨h₁, h₂⟩ := insertContainer_word hc₀ hb₀.linked ht₀ hcont
    refine ⟨fun q j u hu hlist => ?_, fun u hu => ?_⟩
    · rw [addDegree_places] at hu
      refine h₁ q j u hu ?_
      by_cases hq : q = (s.task t).pid
      · subst hq
        simpa [addDegree, Scheduler.modProc] using hlist
      · simpa [addDegree, Scheduler.modProc, hq] using hlist
    · have := h₂ u hu
      rw [ensurePid_task] at this
      exact this

end Nosv
