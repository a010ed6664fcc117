import Nosv.AffinityRouting

/-!
# What a search in one process finds

`scheduler_find_task_process` moves tasks from one container to another
while it looks for a task, and every stage of it reads what the stages
before it have moved. This file says in terms of the state *before* the
search when it comes back empty-handed (`find_none_iff`):

* the expired deadlines (`Scheduler.expiredDeadlines`) and the expired
  yields (`Scheduler.expiredYields`) are not for this CPU, and not for a
  queue that it polls;
* the queues that it polls are empty;
* nothing in the main queue is for this CPU.

What an unsuccessful search leaves behind is described by `Routes`: some
tasks of the process have gone to the affine queues they belong to, and
nothing of another process has changed.
-/

namespace Nosv

open RBTree Relation Places

variable {topo : Topology} {cpu p : Nat} {s s' s'' : Scheduler} {t : TaskId}

/-! ## Tasks that have been re-routed -/

/-- The tasks `moved` of process `p` have gone to their affine queues. -/
structure Routes (topo : Topology) (p : Nat) (moved : List TaskId) (s s' : Scheduler) :
    Prop where
  base : Base topo s'
  frame : Frame s s'
  proc : ∀ q, q ≠ p → s'.proc q = s.proc q
  task : ∀ u, u ∉ moved → s'.task u = s.task u
  clock : s'.clock = s.clock
  ticks : s.ticks ≤ s'.ticks
  own : ∀ u ∈ moved, (s.task u).pid = p
  queue : ∀ i, i ≠ .main → ∀ u, u ∈ s'.places (p, .queue i)
    ↔ u ∈ s.places (p, .queue i) ∨ (u ∈ moved ∧ i = affineQueue topo (s.task u).affinity)
  preferred : 0 ≤ s.preferred p → s.preferred p + moved.length < 18446744073709551616 →
    s'.preferred p = s.preferred p
      + (moved.countP fun u => (s.task u).affinity.type = .preferred : Nat)

theorem Routes.refl (h : Base topo s) : Routes topo p [] s s :=
  ⟨h, Frame.refl s, fun _ _ => rfl, fun _ _ => rfl, rfl, le_refl _,
    fun _ hu => (List.not_mem_nil hu).elim, fun i _ u => by simp, fun _ _ => by simp⟩

theorem Routes.trans {m m' : List TaskId} (h : Routes topo p m s s')
    (h' : Routes topo p m' s' s'') : Routes topo p (m ++ m') s s'' := by
  refine ⟨h'.base, h.frame.trans h'.frame, fun q hq => (h'.proc q hq).trans (h.proc q hq),
    fun u hu => ?_, h'.clock.trans h.clock, h.ticks.trans h'.ticks, fun u hu => ?_,
    fun i hi u => ?_, fun hnonneg hbound => ?_⟩
  · rw [List.mem_append, not_or] at hu
    exact (h'.task u hu.2).trans (h.task u hu.1)
  · rcases List.mem_append.mp hu with hu | hu
    · exact h.own u hu
    · exact (h.frame.task u).pid.symm.trans (h'.own u hu)
  · rw [h'.queue i hi, h.queue i hi, (h.frame.task u).affinity, List.mem_append, or_and_right,
      or_assoc]
  · rw [List.length_append, Int.natCast_add] at hbound
    have hcount : m.countP (fun u => (s.task u).affinity.type = .preferred) ≤ m.length :=
      List.countP_le_length
    have hpref := h.preferred hnonneg (by omega)
    have hpref' := h'.preferred (by omega) (by omega)
    simp only [(h.frame.task _).affinity] at hpref'
    rw [hpref', hpref, List.countP_append, Int.natCast_add, add_assoc]

/-- The search reads the clock. -/
theorem routes_updateNow (h : Base topo s) (p : Nat) : Routes topo p [] s (updateNow s p) := by
  have hi := updateNow_idles h.linked p
  refine ⟨h.idles hi, hi.frame, fun q hq => ?_, fun _ _ => rfl, rfl, Nat.le_succ _,
    fun _ hu => (List.not_mem_nil hu).elim, fun i _ u => ?_, fun _ _ => ?_⟩
  · simp [updateNow, Scheduler.modProc, hq]
  · simp [hi.places]
  · simp [hi.preferred]

@[simp] theorem schedulerInsertAffine_clock (topo : Topology) (s : Scheduler) (p : Nat)
    (t : TaskId) : (schedulerInsertAffine topo s p t).clock = s.clock := by
  unfold schedulerInsertAffine addQueue Scheduler.setQueue Scheduler.modProc
  simp only
  split <;> rfl

@[simp] theorem schedulerInsertAffine_ticks (topo : Topology) (s : Scheduler) (p : Nat)
    (t : TaskId) : (schedulerInsertAffine topo s p t).ticks = s.ticks := by
  unfold schedulerInsertAffine addQueue Scheduler.setQueue Scheduler.modProc
  simp only
  split <;> rfl

/-- What `scheduler_insert_affine` leaves alone in the process schedulers. -/
theorem schedulerInsertAffine_proc (topo : Topology) (s : Scheduler) (p : Nat) (t : TaskId)
    (q : Nat) :
    ∃ pref queue, (schedulerInsertAffine topo s p t).proc q =
      if q = p then
        { s.proc p with
          preferredAffinityTasks := pref
          queues := Function.update (s.proc p).queues
            (affineQueue topo (s.task t).affinity) queue }
      else s.proc q := by
  unfold schedulerInsertAffine addQueue Scheduler.setQueue Scheduler.modProc
  simp only
  by_cases hq : q = p
  · subst hq
    split
    · exact ⟨_, _, by simp only [Function.update_self, if_true]; rfl⟩
    · exact ⟨_, _, by simp only [Function.update_self, if_true]; rfl⟩
  · refine ⟨0, schedulerInitQueue, ?_⟩
    split <;> simp [hq]

/-- One task leaves the container `c` and is routed. -/
theorem Drops.routes {s₁ : Scheduler} {c : Container} (h : Drops s s₁ (p, c) t)
    (hb : Base topo s) (hc : c.IsSource) (haff : taskAffine topo (s.task t).affinity cpu = false)
    (hproc : ∀ q, q ≠ p → s₁.proc q = s.proc q) (htask : ∀ u, u ≠ t → s₁.task u = s.task u)
    (hclock : s₁.clock = s.clock) (hticks : s₁.ticks = s.ticks) :
    Routes topo p [t] s (schedulerInsertAffine topo s₁ p t) := by
  have hm := h.insertAffine hb.linked haff
  have hmem : t ∈ s.places (p, c) := by
    rw [h.places, mem_add]
    exact Or.inl ⟨rfl, rfl⟩
  refine ⟨hb.moves hm, hm.frame, fun q hq => ?_, fun u hu => ?_, ?_, ?_, fun u hu => ?_,
    fun i hi u => ?_, fun hnonneg hbound => ?_⟩
  · obtain ⟨pref, queue, heq⟩ := schedulerInsertAffine_proc topo s₁ p t q
    rw [heq, if_neg hq, hproc q hq]
  · rw [schedulerInsertAffine_task]
    exact htask u (by simpa using hu)
  · rw [schedulerInsertAffine_clock, hclock]
  · rw [schedulerInsertAffine_ticks, hticks]
  · rw [List.mem_singleton.mp hu]
    exact (hb.fits _ _ hmem).own
  · obtain ⟨g, hbefore, hafter⟩ := hm.places
    have hne : (p, Container.queue i) ≠ (p, c) := by
      rintro heq
      obtain rfl := (Prod.mk.injEq .. |>.mp heq).2
      rcases hc with hc | hc | hc
      · cases hc
      · cases hc
      · injection hc with hc
        exact hi hc
    rw [hafter, hbefore, mem_add, mem_add]
    simp only [hne, false_and, false_or, Prod.mk.injEq, true_and, Container.queue.injEq,
      List.mem_singleton]
    constructor
    · rintro (⟨rfl, rfl⟩ | hu)
      · exact Or.inr ⟨rfl, rfl⟩
      · exact Or.inl hu
    · rintro (hu | ⟨rfl, rfl⟩)
      · exact Or.inr hu
      · exact Or.inl ⟨rfl, rfl⟩
  · rw [List.length_singleton] at hbound
    rw [hm.preferred, countPreferred]
    split
    · rename_i hpref
      rw [Function.update_self, sizeT, Int.emod_eq_of_lt (by omega) (by omega)]
      simp [hpref]
    · rename_i hpref
      simp [hpref]

/-! ## Expired deadlines -/

/-- The tasks of a deadline list that the expired-deadline loop takes: it
compares with the time `now` that the process keeps, and reads the clock
(reading `n`) when that does not suffice. -/
def expired (clock : Nat → Nat) (deadline : TaskId → Nat) :
    Nat → Nat → List TaskId → List TaskId
  | _, _, [] => []
  | now, n, t :: ts =>
      if deadline t < now then t :: expired clock deadline now n ts
      else if deadline t < clock n then t :: expired clock deadline (clock n) (n + 1) ts
      else []

theorem expired_congr {clock : Nat → Nat} {d d' : TaskId → Nat} :
    ∀ {l : List TaskId} (now n : Nat), (∀ t ∈ l, d' t = d t) →
      expired clock d' now n l = expired clock d now n l
  | [], _, _, _ => rfl
  | t :: ts, now, n, h => by
      have hts : ∀ u ∈ ts, d' u = d u := fun u hu => h u (List.mem_cons_of_mem t hu)
      rw [expired, expired, h t List.mem_cons_self, expired_congr now n hts,
        expired_congr (clock n) (n + 1) hts]

theorem expired_initial {clock : Nat → Nat} {d : TaskId → Nat} :
    ∀ {now n : Nat} {l : List TaskId}, expired clock d now n l <+: l
  | _, _, [] => List.nil_prefix
  | now, n, t :: ts => by
      rw [expired]
      split
      · exact List.cons_prefix_cons.mpr ⟨rfl, expired_initial⟩
      · split
        · exact List.cons_prefix_cons.mpr ⟨rfl, expired_initial⟩
        · exact List.nil_prefix

/-- The later search is as far as the earlier one, or ahead of it: both
have kept the same time, or each keeps the last value it has read. -/
def Ahead (clock : Nat → Nat) (now n now' n' : Nat) : Prop :=
  n ≤ n' ∧ (now = now' ∨ ∃ a b, n = a + 1 ∧ n' = b + 1 ∧ now = clock a ∧ now' = clock b)

/-- A search that starts later finds at least as many deadlines expired. -/
theorem expired_mono {clock : Nat → Nat} (hmono : Monotone clock) {d : TaskId → Nat} :
    ∀ {l : List TaskId} {now n now' n' : Nat}, Ahead clock now n now' n' →
      expired clock d now n l <+: expired clock d now' n' l
  | [], _, _, _, _, _ => List.nil_prefix
  | t :: ts, now, n, now', n', h => by
      obtain ⟨hn, hnow⟩ := h
      have hclock : clock n ≤ clock n' := hmono hn
      have hle : now ≤ now' := by
        rcases hnow with heq | ⟨a, b, ha, hb, rfl, rfl⟩
        · exact heq.le
        · exact hmono (by omega)
      rw [expired, expired]
      by_cases h₁ : d t < now
      · rw [if_pos h₁, if_pos (lt_of_lt_of_le h₁ hle)]
        exact List.cons_prefix_cons.mpr ⟨rfl, expired_mono hmono ⟨hn, hnow⟩⟩
      · rw [if_neg h₁]
        by_cases h₂ : d t < clock n
        · rw [if_pos h₂]
          by_cases h₃ : d t < now'
          · -- only the earlier search reads the clock, so it was behind
            rw [if_pos h₃]
            obtain ⟨a, b, rfl, rfl, rfl, rfl⟩ : ∃ a b, n = a + 1 ∧ n' = b + 1 ∧ now = clock a
                ∧ now' = clock b := by
              rcases hnow with heq | hread
              · exact absurd (heq ▸ h₃) h₁
              · exact hread
            have hne : a ≠ b := by
              rintro rfl
              exact h₁ h₃
            refine List.cons_prefix_cons.mpr ⟨rfl, expired_mono hmono ⟨by omega, Or.inr ?_⟩⟩
            exact ⟨a + 1, b, rfl, rfl, rfl, rfl⟩
          · rw [if_neg h₃, if_pos (lt_of_lt_of_le h₂ hclock)]
            refine List.cons_prefix_cons.mpr ⟨rfl, expired_mono hmono ⟨by omega, Or.inr ?_⟩⟩
            exact ⟨n, n', rfl, rfl, rfl, rfl⟩
        · rw [if_neg h₂]
          exact List.nil_prefix

namespace Scheduler

/-- The deadline tasks of process `p` that a search takes out of the tree. -/
def expiredDeadlines (s : Scheduler) (p : Nat) : List TaskId :=
  expired s.clock (fun t => (s.task t).deadline) (s.proc p).now s.ticks
    (inorder (s.proc p).deadlineTasks)

/-- The yielded tasks of process `p` that a search takes off the list. -/
def expiredYields (s : Scheduler) (p : Nat) : List TaskId :=
  (s.proc p).yieldTasks.takeWhile fun t => ((s.task t).yield : Int) ≤ (s.proc p).servedTasks

end Scheduler

theorem expireDeadline_proc (s : Scheduler) (p : Nat) (t : TaskId) (q : Nat) :
    (expireDeadline s p t).proc q =
      if q = p then { s.proc p with deadlineTasks := remove t (s.proc p).deadlineTasks }
      else s.proc q := by
  by_cases hq : q = p
  · subst hq
    simp [expireDeadline, removeDeadline, Scheduler.modTask, Scheduler.modProc]
  · simp [expireDeadline, removeDeadline, Scheduler.modTask, Scheduler.modProc, hq]

theorem expireDeadline_task_ne {u : TaskId} (h : u ≠ t) :
    (expireDeadline s p t).task u = s.task u := by
  simp [expireDeadline, removeDeadline, Scheduler.modTask, Scheduler.modProc, h]

theorem inorder_remove_min {l : List TaskId} {tree : RB TaskId} (hin : inorder tree = t :: l)
    (hnd : (inorder tree).Nodup) : inorder (remove t tree) = l := by
  obtain ⟨a, b, hsplit, hrem⟩ := inorder_remove (x := t) (t := tree) (by simp [hin])
  rw [hsplit] at hin hnd
  cases a with
  | nil =>
      rw [hrem]
      exact (List.cons.injEq .. |>.mp hin).2
  | cons u a =>
      obtain ⟨rfl, -⟩ := List.cons.injEq .. |>.mp hin
      exact absurd (List.mem_append_right a List.mem_cons_self) (List.nodup_cons.mp hnd).1

/-- The first deadline left in the tree had not passed at a reading of the
clock between `s` and `s'`. -/
def FirstUnexpired (p : Nat) (s s' : Scheduler) : Prop :=
  ∀ t l, inorder (s'.proc p).deadlineTasks = t :: l →
    ∃ n, s.ticks ≤ n ∧ n < s'.ticks ∧ s.clock n ≤ (s'.task t).deadline

/-- What the deadline loop leaves alone in its process. -/
structure KeepsReady (p : Nat) (s s' : Scheduler) : Prop where
  yieldTasks : (s'.proc p).yieldTasks = (s.proc p).yieldTasks
  main : (s'.proc p).queues .main = (s.proc p).queues .main

theorem KeepsReady.trans (h : KeepsReady p s s') (h' : KeepsReady p s' s'') :
    KeepsReady p s s'' :=
  ⟨h'.yieldTasks.trans h.yieldTasks, h'.main.trans h.main⟩

theorem keepsReady_updateNow (s : Scheduler) (p : Nat) : KeepsReady p s (updateNow s p) := by
  constructor <;> simp [updateNow, Scheduler.modProc]

/-- The state after the first deadline has expired and been routed. -/
def routeDeadline (topo : Topology) (s : Scheduler) (p : Nat) (t : TaskId) : Scheduler :=
  schedulerInsertAffine topo (expireDeadline s p t) p t

theorem routeDeadline_proc (topo : Topology) (p : Nat) (hq : (s.task t).affinity.HasQueue) :
    KeepsReady p s (routeDeadline topo s p t)
      ∧ ((routeDeadline topo s p t).proc p).now = (s.proc p).now
      ∧ ((routeDeadline topo s p t).proc p).deadlineTasks
          = remove t (s.proc p).deadlineTasks := by
  obtain ⟨pref, queue, heq⟩ := schedulerInsertAffine_proc topo (expireDeadline s p t) p t p
  rw [if_pos rfl, expireDeadline_proc, if_pos rfl, expireDeadline_affinity] at heq
  refine ⟨⟨?_, ?_⟩, ?_, ?_⟩ <;> rw [routeDeadline, heq]
  exact Function.update_of_ne (affineQueue_ne_main hq).symm ..

theorem routes_routeDeadline (hb : Base topo s) {l : List TaskId}
    (hin : inorder (s.proc p).deadlineTasks = t :: l)
    (haff : taskAffine topo (s.task t).affinity cpu = false) :
    Routes topo p [t] s (routeDeadline topo s p t) := by
  refine (expireDeadline_drops hb.linked (by simp [hin])).routes hb (Or.inl rfl) haff
    (fun q hq => ?_) (fun u hu => expireDeadline_task_ne hu) rfl rfl
  rw [expireDeadline_proc, if_neg hq]

/-- The rest of the expired deadlines, after the first. -/
theorem expired_routeDeadline (hb : Base topo s) {l : List TaskId}
    (hin : inorder (s.proc p).deadlineTasks = t :: l) (hq : (s.task t).affinity.HasQueue) :
    (routeDeadline topo s p t).expiredDeadlines p =
      expired s.clock (fun u => (s.task u).deadline) (s.proc p).now s.ticks l := by
  obtain ⟨-, hnow, htree⟩ := routeDeadline_proc topo p hq
  have hnd : (inorder (s.proc p).deadlineTasks).Nodup := hb.deadlineNodup p
  have htail := inorder_remove_min hin hnd
  rw [hin] at hnd
  rw [Scheduler.expiredDeadlines, hnow, htree, htail]
  simp only [routeDeadline, schedulerInsertAffine_clock, schedulerInsertAffine_ticks,
    schedulerInsertAffine_task]
  refine expired_congr _ _ fun u hu => ?_
  rw [expireDeadline_task_ne]
  rintro rfl
  exact (List.nodup_cons.mp hnd).1 hu

/-- One call of `scheduler_get_deadline_expired`: either nothing has
expired, or the first expired task is taken, at the time `s₀`. -/
theorem getDeadlineExpired_cases (hb : Base topo s) (p : Nat) :
    (s.expiredDeadlines p = [] ∧ ∃ s₀, schedulerGetDeadlineExpired s p = (none, s₀)
        ∧ Routes topo p [] s s₀ ∧ KeepsReady p s s₀ ∧ FirstUnexpired p s s₀)
      ∨ ∃ t l s₀, inorder (s₀.proc p).deadlineTasks = t :: l ∧ Routes topo p [] s s₀
        ∧ KeepsReady p s s₀ ∧ s₀.task = s.task
        ∧ schedulerGetDeadlineExpired s p = (some t, expireDeadline s₀ p t)
        ∧ s.expiredDeadlines p = t :: expired s₀.clock (fun u => (s₀.task u).deadline)
            (s₀.proc p).now s₀.ticks l
        ∧ inorder (s.proc p).deadlineTasks = t :: l := by
  cases hl : inorder (s.proc p).deadlineTasks with
  | nil =>
      refine Or.inl ⟨?_, s, ?_, .refl hb, ⟨rfl, rfl⟩, fun t l hcons => ?_⟩
      · rw [Scheduler.expiredDeadlines, hl, expired]
      · rw [schedulerGetDeadlineExpired, min?_eq_head?, hl]
        rfl
      · rw [hl] at hcons
        cases hcons
  | cons t l =>
      have hmin : min? (s.proc p).deadlineTasks = some t := by
        rw [min?_eq_head?, hl]
        rfl
      rw [schedulerGetDeadlineExpired, hmin, Scheduler.expiredDeadlines, hl, expired]
      simp only
      by_cases h₁ : (s.task t).deadline < (s.proc p).now
      · refine Or.inr ⟨t, l, s, hl, .refl hb, ⟨rfl, rfl⟩, rfl, ?_, ?_, rfl⟩
        · rw [if_pos h₁]
        · rw [if_pos h₁]
      · rw [if_neg h₁, if_neg h₁]
        have hnow : ((updateNow s p).proc p).now = s.clock s.ticks := by
          simp [updateNow, Scheduler.modProc]
        rw [hnow, updateNow_task]
        by_cases h₂ : (s.task t).deadline < s.clock s.ticks
        · refine Or.inr ⟨t, l, updateNow s p, ?_, routes_updateNow hb p,
            keepsReady_updateNow s p, rfl, ?_, ?_, rfl⟩
          · rw [updateNow_deadlineTasks, hl]
          · rw [if_pos h₂]
          · rw [if_pos h₂, hnow]
            rfl
        · refine Or.inl ⟨?_, updateNow s p, ?_, routes_updateNow hb p, keepsReady_updateNow s p,
            fun u k hcons => ?_⟩
          · rw [if_neg h₂]
          · rw [if_neg h₂]
          · rw [updateNow_deadlineTasks, hl] at hcons
            obtain ⟨rfl, -⟩ := List.cons.injEq .. |>.mp hcons
            exact ⟨s.ticks, le_refl _, Nat.lt_succ_self _, Nat.le_of_not_lt h₂⟩

theorem FirstUnexpired.after (h : FirstUnexpired p s' s'') (hticks : s.ticks ≤ s'.ticks)
    (hclock : s'.clock = s.clock) : FirstUnexpired p s s'' := by
  intro t l hl
  obtain ⟨n, hn, hlt, hle⟩ := h t l hl
  exact ⟨n, hticks.trans hn, hlt, hclock ▸ hle⟩

/-- One turn of the deadline loop: it ends because nothing has expired,
it finds a task, or it routes the first expired task and goes on. -/
theorem findDeadline_succ (hb : Base topo s) (p cpu n : Nat) :
    (s.expiredDeadlines p = [] ∧ ∃ s₀, findDeadline topo p cpu (n + 1) s = (none, s₀)
        ∧ Routes topo p [] s s₀ ∧ KeepsReady p s s₀ ∧ FirstUnexpired p s s₀)
      ∨ (∃ t l s', s.expiredDeadlines p = t :: l
        ∧ taskAffine topo (s.task t).affinity cpu = true
        ∧ findDeadline topo p cpu (n + 1) s = (some t, s'))
      ∨ ∃ t s₁, taskAffine topo (s.task t).affinity cpu = false
        ∧ s.expiredDeadlines p = t :: s₁.expiredDeadlines p
        ∧ (inorder (s.proc p).deadlineTasks).length
            = (inorder (s₁.proc p).deadlineTasks).length + 1
        ∧ findDeadline topo p cpu (n + 1) s = findDeadline topo p cpu n s₁
        ∧ Routes topo p [t] s s₁ ∧ KeepsReady p s s₁ := by
  rw [findDeadline]
  rcases getDeadlineExpired_cases hb p with
    ⟨hnil, s₀, hget, hend⟩ | ⟨t, l, s₀, hl₀, hroutes, hkeeps, htask, hget, hexp, hl⟩
  · refine Or.inl ⟨hnil, s₀, ?_, hend⟩
    rw [hget]
  · rw [hget, ← htask]
    simp only [expireDeadline_affinity]
    cases haff : taskAffine topo (s₀.task t).affinity cpu with
    | true => exact Or.inr (Or.inl ⟨t, _, _, hexp, haff, rfl⟩)
    | false =>
        have hq := hasQueue_of_not_affine haff
        obtain ⟨hkeeps₁, -, htree⟩ := routeDeadline_proc topo p hq
        refine Or.inr (Or.inr ⟨t, routeDeadline topo s₀ p t, haff, ?_, ?_, rfl, ?_,
          hkeeps.trans hkeeps₁⟩)
        · rw [hexp, expired_routeDeadline hroutes.base hl₀ hq]
        · rw [htree, inorder_remove_min hl₀ (hroutes.base.deadlineNodup p), hl]
          rfl
        · exact hroutes.trans (routes_routeDeadline hroutes.base hl₀ haff)

theorem expiredDeadlines_nil (h : (inorder (s.proc p).deadlineTasks).length ≤ 0) :
    s.expiredDeadlines p = [] := by
  have hl : inorder (s.proc p).deadlineTasks = [] :=
    List.length_eq_zero_iff.mp (Nat.le_zero.mp h)
  rw [Scheduler.expiredDeadlines, hl, expired]

/-- The deadline loop, when nothing that has expired is for this CPU. -/
theorem findDeadline_none :
    ∀ {n : Nat} {s : Scheduler}, Base topo s →
      (inorder (s.proc p).deadlineTasks).length ≤ n →
      (∀ t ∈ s.expiredDeadlines p, taskAffine topo (s.task t).affinity cpu = false) →
      ∃ s', findDeadline topo p cpu n s = (none, s')
        ∧ Routes topo p (s.expiredDeadlines p) s s' ∧ KeepsReady p s s' ∧ FirstUnexpired p s s'
  | 0, s, hb, hlen, _ => by
      refine ⟨s, rfl, ?_, ⟨rfl, rfl⟩, fun t l hcons => ?_⟩
      · rw [expiredDeadlines_nil hlen]
        exact .refl hb
      · rw [hcons] at hlen
        exact absurd hlen (Nat.not_succ_le_zero _)
  | n + 1, s, hb, hlen, hno => by
      rcases findDeadline_succ hb p cpu n with
        ⟨hnil, s₀, hfind, hroutes, hend⟩ | ⟨t, l, s', hexp, haff, -⟩
        | ⟨t, s₁, haff, hexp, hlen₁, hfind, hroute, hkeeps⟩
      · rw [hnil]
        exact ⟨s₀, hfind, hroutes, hend⟩
      · have := hno t (by rw [hexp]; exact List.mem_cons_self)
        rw [haff] at this
        cases this
      · have hno₁ : ∀ u ∈ s₁.expiredDeadlines p,
            taskAffine topo (s₁.task u).affinity cpu = false := by
          intro u hu
          rw [(hroute.frame.task u).affinity]
          exact hno u (by rw [hexp]; exact List.mem_cons_of_mem t hu)
        obtain ⟨s', hfind', hrest, hkeeps', hfirst⟩ :=
          findDeadline_none (n := n) hroute.base (by omega) hno₁
        refine ⟨s', hfind.trans hfind', ?_, hkeeps.trans hkeeps', ?_⟩
        · rw [hexp]
          exact hroute.trans hrest
        · exact hfirst.after hroute.ticks hroute.clock

/-- The deadline loop, when something that has expired is for this CPU. -/
theorem findDeadline_some :
    ∀ {n : Nat} {s : Scheduler}, Base topo s →
      (inorder (s.proc p).deadlineTasks).length ≤ n →
      (∃ t ∈ s.expiredDeadlines p, taskAffine topo (s.task t).affinity cpu = true) →
      ∃ t s', findDeadline topo p cpu n s = (some t, s')
  | 0, s, hb, hlen, ⟨u, hu, _⟩ => by
      rw [expiredDeadlines_nil hlen] at hu
      cases hu
  | n + 1, s, hb, hlen, ⟨u, hu, hyes⟩ => by
      rcases findDeadline_succ hb p cpu n with
        ⟨hnil, -⟩ | ⟨t, l, s', -, -, hfind⟩
        | ⟨t, s₁, haff, hexp, hlen₁, hfind, hroute, -⟩
      · rw [hnil] at hu
        cases hu
      · exact ⟨t, s', hfind⟩
      · rw [hexp] at hu
        rcases List.mem_cons.mp hu with rfl | hu
        · rw [haff] at hyes
          cases hyes
        · rw [hfind]
          refine findDeadline_some hroute.base (by omega) ⟨u, hu, ?_⟩
          rw [(hroute.frame.task u).affinity]
          exact hyes

/-! ## Expired yields -/

theorem takeWhile_congr {α : Type*} {f g : α → Bool} :
    ∀ {l : List α}, (∀ a ∈ l, f a = g a) → l.takeWhile f = l.takeWhile g
  | [], _ => rfl
  | a :: l, h => by
      rw [List.takeWhile_cons, List.takeWhile_cons, h a List.mem_cons_self,
        takeWhile_congr fun b hb => h b (List.mem_cons_of_mem a hb)]

theorem popYield_proc (s : Scheduler) (p : Nat) (t : TaskId) (q : Nat) :
    (popYield s p t).proc q =
      if q = p then { s.proc p with yieldTasks := (s.proc p).yieldTasks.tail }
      else s.proc q := by
  by_cases hq : q = p
  · subst hq
    simp [popYield, Scheduler.modTask, Scheduler.modProc]
  · simp [popYield, Scheduler.modTask, Scheduler.modProc, hq]

theorem popYield_deadline (s : Scheduler) (p : Nat) (t u : TaskId) :
    ((popYield s p t).task u).deadline = (s.task u).deadline := by
  by_cases hu : u = t <;> simp [popYield, Scheduler.modTask, Scheduler.modProc, hu]

theorem popYield_task_ne {u : TaskId} (h : u ≠ t) : (popYield s p t).task u = s.task u := by
  simp [popYield, Scheduler.modTask, Scheduler.modProc, h]

/-- What the yield loops leave alone in their process. -/
structure KeepsOthers (p : Nat) (s s' : Scheduler) : Prop where
  deadline : ∀ u, (s'.task u).deadline = (s.task u).deadline
  deadlineTasks : (s'.proc p).deadlineTasks = (s.proc p).deadlineTasks
  main : (s'.proc p).queues .main = (s.proc p).queues .main

theorem KeepsOthers.trans (h : KeepsOthers p s s') (h' : KeepsOthers p s' s'') :
    KeepsOthers p s s'' :=
  ⟨fun u => (h'.deadline u).trans (h.deadline u), h'.deadlineTasks.trans h.deadlineTasks, h'.main.trans h.main⟩

/-- The state after the first yielded task has been taken off and routed. -/
def routeYield (topo : Topology) (s : Scheduler) (p : Nat) (t : TaskId) : Scheduler :=
  schedulerInsertAffine topo (popYield s p t) p t

theorem routeYield_proc (topo : Topology) (p : Nat) (hq : (s.task t).affinity.HasQueue) :
    KeepsOthers p s (routeYield topo s p t)
      ∧ ((routeYield topo s p t).proc p).yieldTasks = (s.proc p).yieldTasks.tail := by
  obtain ⟨pref, queue, heq⟩ := schedulerInsertAffine_proc topo (popYield s p t) p t p
  rw [if_pos rfl, popYield_proc, if_pos rfl, popYield_affinity] at heq
  refine ⟨⟨fun u => ?_, ?_, ?_⟩, ?_⟩
  · rw [routeYield, schedulerInsertAffine_task, popYield_deadline]
  · rw [routeYield, heq]
  · rw [routeYield, heq]
    exact Function.update_of_ne (affineQueue_ne_main hq).symm ..
  · rw [routeYield, heq]

theorem routes_routeYield (hb : Base topo s) {l : List TaskId}
    (hy : (s.proc p).yieldTasks = t :: l)
    (haff : taskAffine topo (s.task t).affinity cpu = false) :
    Routes topo p [t] s (routeYield topo s p t) := by
  refine (popYield_drops hb.linked hy).routes hb (Or.inr (Or.inl rfl)) haff
    (fun q hq => ?_) (fun u hu => popYield_task_ne hu) rfl rfl
  rw [popYield_proc, if_neg hq]

theorem routeYield_task_ne {u : TaskId} (h : u ≠ t) :
    (routeYield topo s p t).task u = s.task u := by
  rw [routeYield, schedulerInsertAffine_task, popYield_task_ne h]

theorem Base.yieldNodup (h : Base topo s) (p : Nat) : (s.proc p).yieldTasks.Nodup :=
  Multiset.coe_nodup.mp (h.linked.distinct.nodup (p, .yield))

/-- The expired yields after the first has been routed. -/
theorem expiredYields_routeYield (hb : Base topo s) {l : List TaskId}
    (hy : (s.proc p).yieldTasks = t :: l) (haff : taskAffine topo (s.task t).affinity cpu = false) :
    (routeYield topo s p t).expiredYields p =
      l.takeWhile fun u => ((s.task u).yield : Int) ≤ (s.proc p).servedTasks := by
  have hroute := routes_routeYield hb hy haff
  obtain ⟨-, hyield⟩ := routeYield_proc topo p (hasQueue_of_not_affine haff)
  have hnd := hb.yieldNodup p
  rw [hy, List.nodup_cons] at hnd
  rw [Scheduler.expiredYields, hyield, hy, List.tail_cons, hroute.frame.served]
  refine takeWhile_congr fun u hu => ?_
  rw [routeYield_task_ne (by rintro rfl; exact hnd.1 hu)]

/-- One turn of the yield loop: it ends because the first task has not
expired, it finds a task, or it routes the first task and goes on. -/
theorem findYield_succ (hb : Base topo s) (p cpu n : Nat) :
    (s.expiredYields p = [] ∧ findYield topo p cpu (n + 1) s = (none, s))
      ∨ (∃ t l s', s.expiredYields p = t :: l ∧ taskAffine topo (s.task t).affinity cpu = true
        ∧ findYield topo p cpu (n + 1) s = (some t, s'))
      ∨ ∃ t s₁, taskAffine topo (s.task t).affinity cpu = false
        ∧ s.expiredYields p = t :: s₁.expiredYields p
        ∧ (s.proc p).yieldTasks = t :: (s₁.proc p).yieldTasks
        ∧ findYield topo p cpu (n + 1) s = findYield topo p cpu n s₁
        ∧ Routes topo p [t] s s₁ ∧ KeepsOthers p s s₁ := by
  rw [findYield, schedulerGetYieldExpired, Scheduler.expiredYields]
  cases hy : (s.proc p).yieldTasks with
  | nil => exact Or.inl ⟨rfl, rfl⟩
  | cons t l =>
      by_cases hexp : ((s.task t).yield : Int) ≤ (s.proc p).servedTasks
      · simp only [hexp, if_true, popYield_affinity, List.takeWhile_cons, decide_true]
        cases haff : taskAffine topo (s.task t).affinity cpu with
        | true => exact Or.inr (Or.inl ⟨t, _, _, rfl, haff, rfl⟩)
        | false =>
            have hq := hasQueue_of_not_affine haff
            obtain ⟨hkeeps, hyield⟩ := routeYield_proc topo p hq
            refine Or.inr (Or.inr ⟨t, routeYield topo s p t, haff, ?_, ?_, rfl,
              routes_routeYield hb hy haff, hkeeps⟩)
            · rw [expiredYields_routeYield hb hy haff]
            · rw [hyield, hy, List.tail_cons]
      · simp only [hexp, if_false, List.takeWhile_cons, decide_false]
        exact Or.inl ⟨if_neg Bool.false_ne_true, trivial⟩

theorem expiredYields_nil (h : (s.proc p).yieldTasks.length ≤ 0) : s.expiredYields p = [] := by
  rw [Scheduler.expiredYields, List.length_eq_zero_iff.mp (Nat.le_zero.mp h)]
  rfl

/-- The yield loop, when nothing that has expired is for this CPU. -/
theorem findYield_none :
    ∀ {n : Nat} {s : Scheduler}, Base topo s → (s.proc p).yieldTasks.length ≤ n →
      (∀ t ∈ s.expiredYields p, taskAffine topo (s.task t).affinity cpu = false) →
      ∃ s', findYield topo p cpu n s = (none, s') ∧ Routes topo p (s.expiredYields p) s s'
        ∧ KeepsOthers p s s' ∧ ∃ l, (s.proc p).yieldTasks = l ++ (s'.proc p).yieldTasks
  | 0, s, hb, hlen, _ => by
      refine ⟨s, rfl, ?_, ⟨fun _ => rfl, rfl, rfl⟩, [], rfl⟩
      rw [expiredYields_nil hlen]
      exact .refl hb
  | n + 1, s, hb, hlen, hno => by
      rcases findYield_succ hb p cpu n with
        ⟨hnil, hfind⟩ | ⟨t, l, s', hexp, haff, -⟩ | ⟨t, s₁, haff, hexp, hy, hfind, hroute, hkeeps⟩
      · rw [hnil]
        exact ⟨s, hfind, .refl hb, ⟨fun _ => rfl, rfl, rfl⟩, [], rfl⟩
      · have := hno t (by rw [hexp]; exact List.mem_cons_self)
        rw [haff] at this
        cases this
      · have hno₁ : ∀ u ∈ s₁.expiredYields p,
            taskAffine topo (s₁.task u).affinity cpu = false := by
          intro u hu
          rw [(hroute.frame.task u).affinity]
          exact hno u (by rw [hexp]; exact List.mem_cons_of_mem t hu)
        rw [hy, List.length_cons] at hlen
        obtain ⟨s', hfind', hrest, hkeeps', l, hl⟩ :=
          findYield_none (n := n) hroute.base (by omega) hno₁
        refine ⟨s', hfind.trans hfind', ?_, hkeeps.trans hkeeps', t :: l, ?_⟩
        · rw [hexp]
          exact hroute.trans hrest
        · rw [hy, hl]
          rfl

/-- The yield loop, when something that has expired is for this CPU. -/
theorem findYield_some :
    ∀ {n : Nat} {s : Scheduler}, Base topo s → (s.proc p).yieldTasks.length ≤ n →
      (∃ t ∈ s.expiredYields p, taskAffine topo (s.task t).affinity cpu = true) →
      ∃ t s', findYield topo p cpu n s = (some t, s')
  | 0, s, hb, hlen, ⟨u, hu, _⟩ => by
      rw [expiredYields_nil hlen] at hu
      cases hu
  | n + 1, s, hb, hlen, ⟨u, hu, hyes⟩ => by
      rcases findYield_succ hb p cpu n with
        ⟨hnil, -⟩ | ⟨t, l, s', -, -, hfind⟩ | ⟨t, s₁, haff, hexp, hy, hfind, hroute, -⟩
      · rw [hnil] at hu
        cases hu
      · exact ⟨t, s', hfind⟩
      · rw [hexp] at hu
        rcases List.mem_cons.mp hu with rfl | hu
        · rw [haff] at hyes
          cases hyes
        · rw [hy, List.length_cons] at hlen
          rw [hfind]
          refine findYield_some hroute.base (by omega) ⟨u, hu, ?_⟩
          rw [(hroute.frame.task u).affinity]
          exact hyes

/-! ## Queues -/

theorem mem_places_queue {i : QueueId} :
    t ∈ s.places (p, .queue i) ↔ t ∈ ((s.proc p).queues i).contents := Multiset.mem_coe

theorem Base.find_eq_none_iff (h : Base topo s) {p : Nat} {i : QueueId} :
    schedulerFindInQueue ((s.proc p).queues i) = none ↔ ∀ t, t ∉ s.places (p, .queue i) := by
  constructor
  · intro hnone t ht
    rw [mem_places_queue, find_eq_none (h.linked.ok p i) hnone] at ht
    cases ht
  · intro hempty
    cases hfind : schedulerFindInQueue ((s.proc p).queues i) with
    | none => rfl
    | some t => exact absurd (mem_places_queue.mpr (find_mem_contents hfind)) (hempty t)

theorem getFromQueue_ne_none {i : QueueId}
    (h : schedulerFindInQueue ((s.proc p).queues i) = some t) :
    ∃ removed s', schedulerGetFromQueue s p i = (some (t, removed), s') := by
  rw [schedulerGetFromQueue, h]
  simp only
  split
  · exact ⟨_, _, rfl⟩
  · exact ⟨_, _, rfl⟩

/-- Polling finds nothing exactly when all the queues are empty. -/
theorem getFromQueues_none_iff (hb : Base topo s) :
    ∀ {is : List QueueId}, (getFromQueues p is s).1 = none
      ↔ ∀ i ∈ is, ∀ t, t ∉ s.places (p, .queue i)
  | [] => by simp [getFromQueues]
  | i :: is => by
      rw [getFromQueues, List.forall_mem_cons, ← hb.find_eq_none_iff]
      cases hfind : schedulerFindInQueue ((s.proc p).queues i) with
      | some t =>
          obtain ⟨removed, s', hget⟩ := getFromQueue_ne_none hfind
          simp [hget]
      | none =>
          have hget : schedulerGetFromQueue s p i = (none, s) := by
            rw [schedulerGetFromQueue, hfind]
          simp only [hget, true_and]
          exact getFromQueues_none_iff hb

theorem getFromQueues_none_eq {s' : Scheduler} :
    ∀ {is : List QueueId}, getFromQueues p is s = (none, s') → s' = s
  | [], h => (congrArg Prod.snd h).symm
  | i :: is, h => by
      rw [getFromQueues] at h
      split at h
      · cases h
      · rename_i s₁ hget
        rw [schedulerGetFromQueue_none hget] at h
        exact getFromQueues_none_eq h

theorem popQueue_proc (s : Scheduler) (p : Nat) (i : QueueId) (t : TaskId) (q : Nat) :
    (popQueue s p i t).proc q =
      if q = p then
        { s.proc p with
          queues := Function.update (s.proc p).queues i
            (schedulerPopQueue ((s.proc p).queues i)) }
      else s.proc q := by
  unfold popQueue Scheduler.setQueue Scheduler.modTask Scheduler.modProc
  simp only
  by_cases hq : q = p
  · subst hq
    split <;> simp
  · split <;> simp [hq]

theorem popQueue_affinity (s : Scheduler) (p : Nat) (i : QueueId) (t u : TaskId) :
    ((popQueue s p i t).task u).affinity = (s.task u).affinity := by
  unfold popQueue Scheduler.setQueue Scheduler.modTask Scheduler.modProc
  simp only
  split
  · by_cases hu : u = t <;> simp [hu]
  · rfl

theorem popQueue_deadline (s : Scheduler) (p : Nat) (i : QueueId) (t u : TaskId) :
    ((popQueue s p i t).task u).deadline = (s.task u).deadline := by
  unfold popQueue Scheduler.setQueue Scheduler.modTask Scheduler.modProc
  simp only
  split
  · by_cases hu : u = t <;> simp [hu]
  · rfl

theorem popQueue_task_ne {i : QueueId} {u : TaskId} (h : u ≠ t) :
    (popQueue s p i t).task u = s.task u := by
  unfold popQueue Scheduler.setQueue Scheduler.modTask Scheduler.modProc
  simp only
  split
  · exact Function.update_of_ne h ..
  · rfl

theorem popQueue_times (s : Scheduler) (p : Nat) (i : QueueId) (t : TaskId) :
    (popQueue s p i t).clock = s.clock ∧ (popQueue s p i t).ticks = s.ticks := by
  unfold popQueue Scheduler.setQueue Scheduler.modTask Scheduler.modProc
  simp only
  split <;> exact ⟨rfl, rfl⟩

/-- What the loop over the main queue leaves alone in its process. -/
structure KeepsLists (p : Nat) (s s' : Scheduler) : Prop where
  deadline : ∀ u, (s'.task u).deadline = (s.task u).deadline
  deadlineTasks : (s'.proc p).deadlineTasks = (s.proc p).deadlineTasks
  yieldTasks : (s'.proc p).yieldTasks = (s.proc p).yieldTasks

theorem KeepsLists.trans (h : KeepsLists p s s') (h' : KeepsLists p s' s'') :
    KeepsLists p s s'' :=
  ⟨fun u => (h'.deadline u).trans (h.deadline u), h'.deadlineTasks.trans h.deadlineTasks, h'.yieldTasks.trans h.yieldTasks⟩

/-- The state after the first task of the main queue has been routed. -/
def routeMain (topo : Topology) (s : Scheduler) (p : Nat) (t : TaskId) : Scheduler :=
  schedulerInsertAffine topo (popQueue s p .main t) p t

theorem routes_routeMain (hb : Base topo s)
    (hfind : schedulerFindInQueue ((s.proc p).queues .main) = some t)
    (haff : taskAffine topo (s.task t).affinity cpu = false) :
    Routes topo p [t] s (routeMain topo s p t) := by
  refine (popQueue_drops hb.linked hfind).routes hb (Or.inr (Or.inr rfl)) haff
    (fun q hq => ?_) (fun u hu => popQueue_task_ne hu) (popQueue_times ..).1 (popQueue_times ..).2
  rw [popQueue_proc, if_neg hq]

theorem routeMain_proc (hb : Base topo s)
    (hfind : schedulerFindInQueue ((s.proc p).queues .main) = some t)
    (hq : (s.task t).affinity.HasQueue) :
    KeepsLists p s (routeMain topo s p t)
      ∧ (s.places (p, .queue .main)) = t ::ₘ (routeMain topo s p t).places (p, .queue .main) := by
  obtain ⟨pref, queue, heq⟩ := schedulerInsertAffine_proc topo (popQueue s p .main t) p t p
  rw [if_pos rfl, popQueue_proc, if_pos rfl, popQueue_affinity] at heq
  refine ⟨⟨fun u => ?_, ?_, ?_⟩, ?_⟩
  · rw [routeMain, schedulerInsertAffine_task, popQueue_deadline]
  · rw [routeMain, heq]
  · rw [routeMain, heq]
  · obtain ⟨helems, -⟩ :=
      schedulerPopQueue_spec (hb.linked.ok p .main) (hb.linked.contents_nodup p .main) hfind
    simp only [Scheduler.places, routeMain, heq, ProcessScheduler.elems]
    rw [Function.update_of_ne (affineQueue_ne_main hq).symm, Function.update_self]
    exact helems

/-- The loop over the main queue, when nothing in it is for this CPU. -/
theorem findMain_none :
    ∀ {n : Nat} {s : Scheduler}, Base topo s → (s.places (p, .queue .main)).card ≤ n →
      (∀ t ∈ s.places (p, .queue .main), taskAffine topo (s.task t).affinity cpu = false) →
      ∃ m s', findMain topo p cpu n s = (none, s') ∧ Routes topo p m s s' ∧ KeepsLists p s s'
        ∧ s'.places (p, .queue .main) = 0 ∧ s.places (p, .queue .main) = ↑m
  | 0, s, hb, hlen, _ => by
      have hempty := Multiset.card_eq_zero.mp (Nat.le_zero.mp hlen)
      exact ⟨[], s, rfl, .refl hb, ⟨fun _ => rfl, rfl, rfl⟩, hempty, hempty⟩
  | n + 1, s, hb, hlen, hno => by
      rw [findMain]
      cases hfind : schedulerFindInQueue ((s.proc p).queues .main) with
      | none =>
          have hempty := Multiset.eq_zero_of_forall_notMem (hb.find_eq_none_iff.mp hfind)
          exact ⟨[], s, rfl, .refl hb, ⟨fun _ => rfl, rfl, rfl⟩, hempty, hempty⟩
      | some t =>
          have haff := hno t (mem_places_queue.mpr (find_mem_contents hfind))
          have hroute := routes_routeMain hb hfind haff
          obtain ⟨hkeeps, hmain⟩ := routeMain_proc hb hfind (hasQueue_of_not_affine haff)
          rw [hmain, Multiset.card_cons] at hlen
          obtain ⟨m, s', hfind', hrest, hkeeps', hempty, hmem⟩ :=
            findMain_none (n := n) hroute.base (by omega) fun u hu => by
              rw [(hroute.frame.task u).affinity]
              exact hno u (by rw [hmain]; exact Multiset.mem_cons_of_mem hu)
          refine ⟨t :: m, s', ?_, hroute.trans hrest, hkeeps.trans hkeeps', hempty, ?_⟩
          · simp only [haff]
            exact hfind'
          · rw [hmain, hmem, Multiset.cons_coe]

/-- The loop over the main queue, when something in it is for this CPU. -/
theorem findMain_some :
    ∀ {n : Nat} {s : Scheduler}, Base topo s → (s.places (p, .queue .main)).card ≤ n →
      (∃ t ∈ s.places (p, .queue .main), taskAffine topo (s.task t).affinity cpu = true) →
      ∃ r s', findMain topo p cpu n s = (some r, s')
  | 0, s, hb, hlen, ⟨u, hu, _⟩ => by
      rw [Multiset.card_eq_zero.mp (Nat.le_zero.mp hlen)] at hu
      exact absurd hu (Multiset.notMem_zero u)
  | n + 1, s, hb, hlen, ⟨u, hu, hyes⟩ => by
      rw [findMain]
      cases hfind : schedulerFindInQueue ((s.proc p).queues .main) with
      | none => exact absurd hu (hb.find_eq_none_iff.mp hfind u)
      | some t =>
          cases haff : taskAffine topo (s.task t).affinity cpu with
          | true =>
              obtain ⟨removed, s', hget⟩ := getFromQueue_ne_none hfind
              simp only [haff, if_true, getFromQueues, hget]
              exact ⟨_, _, rfl⟩
          | false =>
              have hroute := routes_routeMain hb hfind haff
              obtain ⟨-, hmain⟩ := routeMain_proc hb hfind (hasQueue_of_not_affine haff)
              rw [hmain, Multiset.card_cons] at hlen
              rw [hmain, Multiset.mem_cons] at hu
              rcases hu with rfl | hu
              · rw [haff] at hyes
                cases hyes
              · have hyes' : taskAffine topo ((routeMain topo s p t).task u).affinity cpu = true := by
                  rw [(hroute.frame.task u).affinity]
                  exact hyes
                obtain ⟨r, s', hrest⟩ := findMain_some (n := n) hroute.base (by omega)
                  ⟨u, hu, hyes'⟩
                simp only [haff]
                exact ⟨r, s', hrest⟩

/-! ## The whole search -/

/-- Nothing in process `p` is for this CPU: what has expired goes elsewhere,
the queues it polls are empty and the main queue holds nothing for it. -/
structure NothingFor (topo : Topology) (cpu : Nat) (s : Scheduler) (p : Nat) : Prop where
  deadlines : ∀ t ∈ s.expiredDeadlines p, taskAffine topo (s.task t).affinity cpu = false
    ∧ affineQueue topo (s.task t).affinity ∉ polledQueues topo cpu
  yields : ∀ t ∈ s.expiredYields p, taskAffine topo (s.task t).affinity cpu = false
    ∧ affineQueue topo (s.task t).affinity ∉ polledQueues topo cpu
  polled : ∀ i ∈ polledQueues topo cpu, ∀ t, t ∉ s.places (p, .queue i)
  main : ∀ t ∈ s.places (p, .queue .main), taskAffine topo (s.task t).affinity cpu = false

/-- The tasks of process `p` that a search may re-route. -/
def Scheduler.waiting (s : Scheduler) (p : Nat) : Nat :=
  size (s.proc p).deadlineTasks + (s.proc p).yieldTasks.length
    + ((s.proc p).queues .main).contents.length

/-- What a search that finds nothing in process `p` leaves behind. -/
structure Exhausts (topo : Topology) (cpu p : Nat) (s s' : Scheduler) : Prop where
  routes : ∃ m, Routes topo p m s s' ∧ m.length ≤ s.waiting p
  yields : ∃ l, (s.proc p).yieldTasks = l ++ (s'.proc p).yieldTasks
  first : FirstUnexpired p s s'
  polled : ∀ i ∈ polledQueues topo cpu, ∀ t ∈ s'.places (p, .queue i),
    taskAffine topo (s.task t).affinity cpu = false
  main : s'.places (p, .queue .main) = 0

/-- The stages before the queues: what they route and what they keep. -/
structure Prepares (topo : Topology) (p : Nat) (s s' : Scheduler) : Prop where
  routes : Routes topo p (s.expiredDeadlines p ++ s.expiredYields p) s s'
  main : (s'.proc p).queues .main = (s.proc p).queues .main
  yields : ∃ l, (s.proc p).yieldTasks = l ++ (s'.proc p).yieldTasks
  first : FirstUnexpired p s s'

theorem not_mem_expiredDeadlines {u : TaskId} (hb : Base topo s)
    (hu : u ∈ (s.proc p).yieldTasks) : u ∉ s.expiredDeadlines p := by
  intro hmem
  have h₁ : u ∈ s.places (p, .deadline) := Multiset.mem_coe.mpr (expired_initial.subset hmem)
  have h₂ : u ∈ s.places (p, .yield) := Multiset.mem_coe.mpr hu
  cases hb.linked.distinct.inj h₁ h₂

/-- The expired yields are the same after the deadline loop. -/
theorem expiredYields_eq (hb : Base topo s)
    (hroutes : Routes topo p (s.expiredDeadlines p) s s') (hkeeps : KeepsReady p s s') :
    s'.expiredYields p = s.expiredYields p := by
  rw [Scheduler.expiredYields, Scheduler.expiredYields, hkeeps.yieldTasks,
    hroutes.frame.served]
  refine takeWhile_congr fun u hu => ?_
  rw [hroutes.task u (not_mem_expiredDeadlines hb hu)]

theorem FirstUnexpired.keep (h : FirstUnexpired p s s')
    (hdeadline : ∀ u, (s''.task u).deadline = (s'.task u).deadline)
    (htree : (s''.proc p).deadlineTasks = (s'.proc p).deadlineTasks)
    (hticks : s'.ticks ≤ s''.ticks) : FirstUnexpired p s s'' := by
  intro t l hl
  rw [htree] at hl
  obtain ⟨n, hn, hlt, hle⟩ := h t l hl
  refine ⟨n, hn, hlt.trans_le hticks, ?_⟩
  rw [hdeadline]
  exact hle

/-- The first two loops find nothing, and go on to the queues. -/
theorem find_prepares (hb : Base topo s)
    (hd : ∀ t ∈ s.expiredDeadlines p, taskAffine topo (s.task t).affinity cpu = false)
    (hy : ∀ t ∈ s.expiredYields p, taskAffine topo (s.task t).affinity cpu = false) :
    ∃ s₁ s₂, findDeadline topo p cpu (size (s.proc p).deadlineTasks) s = (none, s₁)
      ∧ findYield topo p cpu (s₁.proc p).yieldTasks.length s₁ = (none, s₂)
      ∧ Prepares topo p s s₂ := by
  obtain ⟨s₁, hfind₁, hroutes₁, hkeeps₁, hfirst⟩ := findDeadline_none hb (le_refl _) hd
  have hyields := expiredYields_eq hb hroutes₁ hkeeps₁
  have hy₁ : ∀ t ∈ s₁.expiredYields p, taskAffine topo (s₁.task t).affinity cpu = false := by
    intro t ht
    rw [(hroutes₁.frame.task t).affinity]
    exact hy t (hyields ▸ ht)
  obtain ⟨s₂, hfind₂, hroutes₂, hkeeps₂, l, hl⟩ := findYield_none hroutes₁.base (le_refl _) hy₁
  rw [hyields] at hroutes₂
  refine ⟨s₁, s₂, hfind₁, hfind₂, hroutes₁.trans hroutes₂, hkeeps₂.main.trans hkeeps₁.main,
    ⟨l, hkeeps₁.yieldTasks ▸ hl⟩, ?_⟩
  exact hfirst.keep hkeeps₂.deadline hkeeps₂.deadlineTasks hroutes₂.ticks

/-- The polled queues after the first two loops. -/
theorem Prepares.polled_empty_iff (h : Prepares topo p s s') :
    (∀ i ∈ polledQueues topo cpu, ∀ t, t ∉ s'.places (p, .queue i))
      ↔ (∀ i ∈ polledQueues topo cpu, ∀ t, t ∉ s.places (p, .queue i))
        ∧ ∀ t ∈ s.expiredDeadlines p ++ s.expiredYields p,
          affineQueue topo (s.task t).affinity ∉ polledQueues topo cpu := by
  constructor
  · intro hempty
    refine ⟨fun i hi t ht => hempty i hi t ?_, fun t ht hi => hempty _ hi t ?_⟩
    · exact (h.routes.queue i (not_main_of_polled hi) t).mpr (Or.inl ht)
    · exact (h.routes.queue _ (not_main_of_polled hi) t).mpr (Or.inr ⟨ht, rfl⟩)
  · rintro ⟨hempty, hmoved⟩ i hi t ht
    rcases (h.routes.queue i (not_main_of_polled hi) t).mp ht with hold | ⟨hm, rfl⟩
    · exact hempty i hi t hold
    · exact hmoved t hm hi

theorem Prepares.main_places (h : Prepares topo p s s') :
    s'.places (p, .queue .main) = s.places (p, .queue .main) := by
  simp only [Scheduler.places, ProcessScheduler.elems, h.main]

/-- A search in a process that has nothing for this CPU. -/
theorem find_none (hb : Base topo s) (hne : (s.proc p).tasks ≠ 0)
    (h : NothingFor topo cpu s p) :
    ∃ s', schedulerFindTaskProcess topo cpu s p = (none, s') ∧ Exhausts topo cpu p s s' := by
  obtain ⟨s₁, s₂, hfind₁, hfind₂, hprep⟩ :=
    find_prepares hb (fun t ht => (h.deadlines t ht).1) (fun t ht => (h.yields t ht).1)
  have hpolled : ∀ i ∈ polledQueues topo cpu, ∀ t, t ∉ s₂.places (p, .queue i) := by
    refine hprep.polled_empty_iff.mpr ⟨h.polled, fun t ht => ?_⟩
    rcases List.mem_append.mp ht with ht | ht
    · exact (h.deadlines t ht).2
    · exact (h.yields t ht).2
  have hmain : ∀ t ∈ s₂.places (p, .queue .main),
      taskAffine topo (s₂.task t).affinity cpu = false := by
    intro t ht
    rw [(hprep.routes.frame.task t).affinity]
    exact h.main t (hprep.main_places ▸ ht)
  obtain ⟨m, s', hfind₃, hroutes, hkeeps, hempty, hmem⟩ :=
    findMain_none (n := ((s₂.proc p).queues .main).contents.length)
      hprep.routes.base (le_refl _) hmain
  have hpoll := (getFromQueues_none_iff hprep.routes.base).mpr hpolled
  refine ⟨s', ?_, ⟨_, hprep.routes.trans hroutes, ?_⟩, ?_, ?_, fun i hi t ht => ?_, hempty⟩
  · rw [schedulerFindTaskProcess, if_neg hne, hfind₁]
    simp only [hfind₂]
    cases hget : getFromQueues p (polledQueues topo cpu) s₂ with
    | mk r s₃ =>
        rw [hget] at hpoll
        obtain rfl : r = none := hpoll
        obtain rfl := getFromQueues_none_eq hget
        exact hfind₃
  · have hd : (s.expiredDeadlines p).length ≤ size (s.proc p).deadlineTasks :=
      expired_initial.length_le
    have hy : (s.expiredYields p).length ≤ (s.proc p).yieldTasks.length :=
      (List.takeWhile_sublist _).length_le
    have hm : m.length = ((s.proc p).queues .main).contents.length := by
      rw [← hprep.main, ← Multiset.coe_card, ← hmem]
      rfl
    rw [List.length_append, List.length_append, Scheduler.waiting]
    omega
  · obtain ⟨l, hl⟩ := hprep.yields
    exact ⟨l, by rw [hkeeps.yieldTasks]; exact hl⟩
  · exact hprep.first.keep hkeeps.deadline hkeeps.deadlineTasks hroutes.ticks
  · -- only the main queue was emptied after the polling
    rcases (hroutes.queue i (not_main_of_polled hi) t).mp ht with hold | ⟨hm, -⟩
    · exact absurd hold (hpolled i hi t)
    · refine h.main t ?_
      rw [← hprep.main_places, hmem]
      exact Multiset.mem_coe.mpr hm

/-- A search in a process that has something for this CPU. -/
theorem find_some (hb : Base topo s) (hne : (s.proc p).tasks ≠ 0)
    (h : ¬ NothingFor topo cpu s p) :
    ∃ r s', schedulerFindTaskProcess topo cpu s p = (some r, s') := by
  rw [schedulerFindTaskProcess, if_neg hne]
  by_cases hd : ∃ t ∈ s.expiredDeadlines p, taskAffine topo (s.task t).affinity cpu = true
  · obtain ⟨t, s₁, hfind⟩ := findDeadline_some hb (le_refl _) hd
    exact ⟨_, _, by rw [size, hfind]⟩
  by_cases hy : ∃ t ∈ s.expiredYields p, taskAffine topo (s.task t).affinity cpu = true
  · have hd' : ∀ t ∈ s.expiredDeadlines p, taskAffine topo (s.task t).affinity cpu = false := by
      intro t ht
      exact Bool.eq_false_iff.mpr fun haff => hd ⟨t, ht, haff⟩
    obtain ⟨s₁, hfind₁, hroutes, hkeeps, -⟩ := findDeadline_none hb (le_refl _) hd'
    obtain ⟨t, ht, haff⟩ := hy
    obtain ⟨u, s₂, hfind₂⟩ := findYield_some hroutes.base (le_refl _)
      ⟨t, expiredYields_eq hb hroutes hkeeps ▸ ht, (hroutes.frame.task t).affinity ▸ haff⟩
    refine ⟨(u, 1), taskObtained s₂ p false 1, ?_⟩
    rw [size, hfind₁]
    simp only [hfind₂]
  · have hd' : ∀ t ∈ s.expiredDeadlines p, taskAffine topo (s.task t).affinity cpu = false := by
      intro t ht
      exact Bool.eq_false_iff.mpr fun haff => hd ⟨t, ht, haff⟩
    have hy' : ∀ t ∈ s.expiredYields p, taskAffine topo (s.task t).affinity cpu = false := by
      intro t ht
      exact Bool.eq_false_iff.mpr fun haff => hy ⟨t, ht, haff⟩
    obtain ⟨s₁, s₂, hfind₁, hfind₂, hprep⟩ := find_prepares hb hd' hy'
    rw [hfind₁]
    simp only [hfind₂]
    cases hget : getFromQueues p (polledQueues topo cpu) s₂ with
    | mk r s₃ =>
        cases r with
        | some r => exact ⟨_, _, rfl⟩
        | none =>
            -- the polled queues were empty, so the main queue has it
            have hpolled := (getFromQueues_none_iff hprep.routes.base).mp
              (congrArg Prod.fst hget)
            obtain ⟨hempty, hmoved⟩ := hprep.polled_empty_iff.mp hpolled
            obtain rfl := getFromQueues_none_eq hget
            by_contra hnone
            refine h ⟨fun t ht => ⟨hd' t ht, hmoved t (List.mem_append_left _ ht)⟩,
              fun t ht => ⟨hy' t ht, hmoved t (List.mem_append_right _ ht)⟩, hempty,
              fun t ht => Bool.eq_false_iff.mpr fun haff => hnone ?_⟩
            refine findMain_some hprep.routes.base (le_refl _) ⟨t, ?_, ?_⟩
            · exact hprep.main_places ▸ ht
            · rw [(hprep.routes.frame.task t).affinity]
              exact haff

/-- A search comes back empty-handed exactly when the process counts no
task, or has nothing for this CPU. -/
theorem find_none_iff (hb : Base topo s) :
    (schedulerFindTaskProcess topo cpu s p).1 = none
      ↔ (s.proc p).tasks = 0 ∨ NothingFor topo cpu s p := by
  by_cases hz : (s.proc p).tasks = 0
  · simp [schedulerFindTaskProcess, hz]
  · simp only [hz, false_or]
    constructor
    · intro hnone
      by_contra hsome
      obtain ⟨r, s', hfind⟩ := find_some hb hz hsome
      rw [hfind] at hnone
      cases hnone
    · intro h
      obtain ⟨s', hfind, -⟩ := find_none hb hz h
      rw [hfind]

/-- What a search that finds nothing has done. -/
theorem find_none_cases (hb : Base topo s)
    (h : schedulerFindTaskProcess topo cpu s p = (none, s')) :
    ((s.proc p).tasks = 0 ∧ s' = s) ∨ ((s.proc p).tasks ≠ 0 ∧ Exhausts topo cpu p s s') := by
  by_cases hz : (s.proc p).tasks = 0
  · rw [schedulerFindTaskProcess, if_pos hz] at h
    exact Or.inl ⟨hz, (congrArg Prod.snd h).symm⟩
  · have hno := (find_none_iff hb).mp (congrArg Prod.fst h)
    obtain ⟨s₁, hfind, hex⟩ := find_none hb hz (hno.resolve_left hz)
    rw [hfind] at h
    obtain rfl := congrArg Prod.snd h
    exact Or.inr ⟨hz, hex⟩

theorem find_none_routes (hb : Base topo s)
    (h : schedulerFindTaskProcess topo cpu s p = (none, s')) : ∃ m, Routes topo p m s s' := by
  rcases find_none_cases hb h with ⟨-, rfl⟩ | ⟨-, hex⟩
  · exact ⟨[], .refl hb⟩
  · obtain ⟨m, hroutes, -⟩ := hex.routes
    exact ⟨m, hroutes⟩

end Nosv
