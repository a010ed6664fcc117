import Nosv.ProcessSelection

/-!
# The thresholds of yielded tasks

A task that yields is put at the end of the yield list with the threshold
`served_tasks + tasks`. That sum is what has been inserted so far, whatever
is handed out or cancelled, so the list stays sorted and looking at its head
is enough. `YieldLog` remembers, for each task, how many executions its
process had served and how many it stored when the task was inserted.
-/

namespace Nosv

open RBTree Relation Places

variable {topo : Topology} {s s₀ s₁ s' : Scheduler} {p cpu : Nat} {t : TaskId}
  {E : Nat → TaskId → Prop}

/-! ## What leaves the yield lists -/

/-- From `s₀` to `s` only tasks with `E` have left the yield lists, and from
the front; the marks of the others are as they were. -/
structure YieldsLeft (E : Nat → TaskId → Prop) (s₀ s : Scheduler) : Prop where
  gone : ∀ q, ∃ l, (s₀.proc q).yieldTasks = l ++ (s.proc q).yieldTasks ∧ ∀ t ∈ l, E q t
  word : ∀ q, ∀ t ∈ (s.proc q).yieldTasks, (s.task t).word = (s₀.task t).word

theorem YieldsLeft.of_same (hl : ∀ q, (s'.proc q).yieldTasks = (s.proc q).yieldTasks)
    (hw : ∀ q, ∀ t ∈ (s.proc q).yieldTasks, (s'.task t).word = (s.task t).word) :
    YieldsLeft E s s' := by
  refine ⟨fun q => ⟨[], ?_, fun t ht => by cases ht⟩, fun q t ht => ?_⟩
  · rw [hl, List.nil_append]
  · rw [hl] at ht
    exact hw q t ht

theorem YieldsLeft.refl (s : Scheduler) : YieldsLeft E s s :=
  .of_same (fun _ => rfl) fun _ _ _ => rfl

theorem YieldsLeft.trans (h : YieldsLeft E s₀ s) (h' : YieldsLeft E s s') : YieldsLeft E s₀ s' := by
  refine ⟨fun q => ?_, fun q t ht => ?_⟩
  · obtain ⟨l, hl, hE⟩ := h.gone q
    obtain ⟨l', hl', hE'⟩ := h'.gone q
    refine ⟨l ++ l', by rw [hl, hl', List.append_assoc], fun t ht => ?_⟩
    exact (List.mem_append.mp ht).elim (hE t) (hE' t)
  · obtain ⟨l, hl, -⟩ := h'.gone q
    rw [h'.word q t ht]
    exact h.word q t (by rw [hl]; exact List.mem_append_right l ht)

theorem YieldsLeft.mono {F : Nat → TaskId → Prop} (h : YieldsLeft E s s') (hEF : ∀ q t, E q t → F q t) :
    YieldsLeft F s s' := by
  refine ⟨fun q => ?_, h.word⟩
  obtain ⟨l, hl, hE⟩ := h.gone q
  exact ⟨l, hl, fun t ht => hEF q t (hE t ht)⟩

/-- A task that is in a yield list no more was one of them. -/
theorem YieldsLeft.of_gone (h : YieldsLeft E s s') {q : Nat} (ht : t ∈ (s.proc q).yieldTasks)
    (ht' : t ∉ (s'.proc q).yieldTasks) : E q t := by
  obtain ⟨l, hl, hE⟩ := h.gone q
  rw [hl] at ht
  exact hE t ((List.mem_append.mp ht).resolve_right ht')

theorem YieldsLeft.sameStore (h : SameStore s s') : YieldsLeft E s s' :=
  .of_same (fun q => by rw [h.proc]) fun _ t _ => by rw [h.task]

/-- A change to one task that is stored elsewhere. -/
theorem YieldsLeft.elsewhere (hb : Base topo s) {c : Container} (ht : t ∈ s.places (p, c))
    (hc : c ≠ .yield) (hl : ∀ q, (s'.proc q).yieldTasks = (s.proc q).yieldTasks)
    (hw : ∀ u, u ≠ t → (s'.task u).word = (s.task u).word) : YieldsLeft E s s' := by
  refine .of_same hl fun q u hu => hw u ?_
  rintro rfl
  have hplace : u ∈ s.places (q, .yield) := Multiset.mem_coe.mpr hu
  exact hc (congrArg Prod.snd (hb.linked.distinct.inj ht hplace))

theorem schedulerInsertAffine_yieldTasks (topo : Topology) (s : Scheduler) (p : Nat) (t : TaskId)
    (q : Nat) : ((schedulerInsertAffine topo s p t).proc q).yieldTasks = (s.proc q).yieldTasks := by
  obtain ⟨pref, queue, heq⟩ := schedulerInsertAffine_proc topo s p t q
  rw [heq]
  split
  · rename_i hq
    rw [hq]
  · rfl

theorem expireDeadline_yieldTasks (s : Scheduler) (p : Nat) (t : TaskId) (q : Nat) :
    ((expireDeadline s p t).proc q).yieldTasks = (s.proc q).yieldTasks := by
  rw [expireDeadline_proc]
  split
  · rename_i hq
    rw [hq]
  · rfl

theorem popQueue_yieldTasks (s : Scheduler) (p : Nat) (i : QueueId) (t : TaskId) (q : Nat) :
    ((popQueue s p i t).proc q).yieldTasks = (s.proc q).yieldTasks := by
  rw [popQueue_proc]
  split
  · rename_i hq
    rw [hq]
  · rfl

theorem taskObtained_yieldTasks (s : Scheduler) (p : Nat) (preferred : Bool) (removed : Int)
    (q : Nat) : ((taskObtained s p preferred removed).proc q).yieldTasks = (s.proc q).yieldTasks := by
  by_cases hq : q = p
  · subst hq
    rw [taskObtained, modProc_proc_self]
  · rw [taskObtained, modProc_proc_ne hq]

/-- The head of a list is taken off. -/
theorem YieldsLeft.pop (hb : Base topo s) {rest : List TaskId} (hhead : (s.proc p).yieldTasks = t :: rest)
    (hE : E p t) (hl : ∀ q, (s'.proc q).yieldTasks = ((popYield s p t).proc q).yieldTasks)
    (hw : ∀ u, u ≠ t → (s'.task u).word = (s.task u).word) : YieldsLeft E s s' := by
  have hnd := hb.yieldNodup p
  rw [hhead, List.nodup_cons] at hnd
  have hlist : ∀ q, (s'.proc q).yieldTasks = if q = p then rest else (s.proc q).yieldTasks := by
    intro q
    rw [hl, popYield_proc]
    split
    · rw [hhead, List.tail_cons]
    · rfl
  refine ⟨fun q => ?_, fun q u hu => hw u ?_⟩
  · rw [hlist]
    by_cases hq : q = p
    · subst hq
      refine ⟨[t], by rw [hhead, if_pos rfl, List.singleton_append], fun u hu => ?_⟩
      rwa [List.mem_singleton.mp hu]
    · exact ⟨[], by rw [if_neg hq, List.nil_append], fun u hu => by cases hu⟩
  · rintro rfl
    rw [hlist] at hu
    split at hu
    · exact hnd.1 hu
    · rename_i hq
      -- a task is in one yield list only
      have hhere : u ∈ s.places (p, .yield) := by
        refine Multiset.mem_coe.mpr ?_
        show u ∈ (s.proc p).yieldTasks
        rw [hhead]
        exact List.mem_cons_self
      have hthere : u ∈ s.places (q, .yield) := Multiset.mem_coe.mpr hu
      exact hq (congrArg Prod.fst (hb.linked.distinct.inj hthere hhere))

/-- A task is taken from a queue. -/
theorem getFromQueue_yieldsLeft {i : QueueId} {removed : Int} (hb : Base topo s)
    (hget : schedulerGetFromQueue s p i = (some (t, removed), s₁)) (preferred : Bool) :
    YieldsLeft E s (taskObtained s₁ p preferred removed) := by
  obtain ⟨hfind, -, rfl⟩ := schedulerGetFromQueue_some hget
  refine .elsewhere hb (c := .queue i) (mem_places_queue.mpr (find_mem_contents hfind)) (by simp) (fun q => ?_) fun u hu => ?_
  · rw [taskObtained_yieldTasks]
    split
    · exact popQueue_yieldTasks (schedule s t) p i t q
    · rfl
  · show ((if _ then _ else _ : Scheduler).task u).word = _
    split
    · rw [popQueue_task_ne hu, schedule_word]
    · simp [schedule, Scheduler.modTask, hu]

theorem Reroute.yieldsLeft (hb : Base topo s) (h : Reroute topo s s') :
    YieldsLeft (fun _ _ => True) s s' := by
  cases h with
  | now p =>
      refine .of_same (fun q => ?_) fun _ _ _ => rfl
      by_cases hq : q = p <;> simp [updateNow, Scheduler.modProc, hq]
  | @deadline p cpu t hmin haff =>
      refine .elsewhere hb (c := .deadline) (Multiset.mem_coe.mpr (min?_mem hmin)) (by decide) (fun q => ?_)
        fun u hu => ?_
      · rw [schedulerInsertAffine_yieldTasks, expireDeadline_yieldTasks]
      · rw [schedulerInsertAffine_task, expireDeadline_task_ne hu]
  | @yield p cpu t rest hhead haff =>
      refine .pop hb hhead trivial (fun q => ?_) fun u hu => ?_
      · rw [schedulerInsertAffine_yieldTasks]
      · rw [schedulerInsertAffine_task, popYield_task_ne hu]
  | @main p cpu t hfind haff =>
      refine .elsewhere hb (c := .queue .main) (mem_places_queue.mpr (find_mem_contents hfind)) (by decide)
        (fun q => ?_) fun u hu => ?_
      · rw [schedulerInsertAffine_yieldTasks, popQueue_yieldTasks]
      · rw [schedulerInsertAffine_task, popQueue_task_ne hu]

theorem yieldsLeft_reroutes (hb : Base topo s) (h : ReflTransGen (Reroute topo) s s') :
    YieldsLeft (fun _ _ => True) s s' := by
  induction h with
  | refl => exact .refl s
  | tail hrest hstep ih => exact ih.trans (hstep.yieldsLeft (hb.reroutes hrest))

theorem Take.yieldsLeft {removed : Int} (hb : Base topo s) (h : Take topo cpu s p t removed s') :
    YieldsLeft (fun _ _ => True) s s' := by
  cases h with
  | deadline hmin haff =>
      refine .elsewhere hb (c := .deadline) (Multiset.mem_coe.mpr (min?_mem hmin)) (by decide) (fun q => ?_)
        fun u hu => ?_
      · rw [taskObtained_yieldTasks]
        exact expireDeadline_yieldTasks s p t q
      · show ((schedule (expireDeadline s p t) t).task u).word = _
        rw [schedule_word, expireDeadline_task_ne hu]
  | yield hhead haff =>
      refine .pop hb hhead trivial (fun q => ?_) fun u hu => ?_
      · rw [taskObtained_yieldTasks]
        rfl
      · show ((schedule (popYield s p t) t).task u).word = _
        rw [schedule_word, popYield_task_ne hu]
  | @queue i t removed s₁ hpoll hget => exact getFromQueue_yieldsLeft hb hget _

/-! ## The first pass -/

/-- The threshold of the task has been reached. -/
def Expired (s : Scheduler) (q : Nat) (t : TaskId) : Prop :=
  ((s.task t).yield : Int) ≤ (s.proc q).servedTasks

/-- Only expired tasks have left the yield lists. -/
structure ExpiresOnly (s s' : Scheduler) : Prop where
  yields : YieldsLeft (Expired s) s s'
  served : ∀ q, (s'.proc q).servedTasks = (s.proc q).servedTasks

theorem ExpiresOnly.refl (s : Scheduler) : ExpiresOnly s s := ⟨.refl s, fun _ => rfl⟩

theorem ExpiresOnly.trans (h : ExpiresOnly s s₁) (h' : ExpiresOnly s₁ s') : ExpiresOnly s s' := by
  refine ⟨h.yields.trans ⟨fun q => ?_, h'.yields.word⟩, fun q => (h'.served q).trans (h.served q)⟩
  obtain ⟨l, hl, hE⟩ := h'.yields.gone q
  refine ⟨l, hl, fun t ht => ?_⟩
  have hmark := h.yields.word q t (by rw [hl]; exact List.mem_append_left _ ht)
  have hexp := hE t ht
  unfold Expired Task.yield at hexp ⊢
  rwa [hmark, h.served] at hexp

theorem schedulerInsertAffine_servedTasks (topo : Topology) (s : Scheduler) (p : Nat) (t : TaskId)
    (q : Nat) : ((schedulerInsertAffine topo s p t).proc q).servedTasks = (s.proc q).servedTasks := by
  obtain ⟨pref, queue, heq⟩ := schedulerInsertAffine_proc topo s p t q
  rw [heq]
  split
  · rename_i hq
    rw [hq]
  · rfl

theorem expireDeadline_expiresOnly (hb : Base topo s) (hmin : min? (s.proc p).deadlineTasks = some t) :
    ExpiresOnly s (expireDeadline s p t) := by
  refine ⟨.elsewhere hb (c := .deadline) (Multiset.mem_coe.mpr (min?_mem hmin)) (by decide)
    (expireDeadline_yieldTasks s p t) fun u hu => by rw [expireDeadline_task_ne hu], fun q => ?_⟩
  rw [expireDeadline_proc]
  split
  · rename_i hq
    rw [hq]
  · rfl

theorem getDeadlineExpired_expiresOnly {r : Option TaskId} (hb : Base topo s)
    (h : schedulerGetDeadlineExpired s p = (r, s')) : ExpiresOnly s s' := by
  have hnow : ExpiresOnly s (updateNow s p) := by
    refine ⟨.of_same (fun q => ?_) fun _ _ _ => rfl, fun q => ?_⟩ <;>
      by_cases hq : q = p <;> simp [updateNow, Scheduler.modProc, hq]
  unfold schedulerGetDeadlineExpired at h
  split at h
  · obtain ⟨rfl, rfl⟩ := Prod.mk.injEq .. |>.mp h
    exact .refl s
  · rename_i t hmin
    split at h
    · obtain ⟨rfl, rfl⟩ := Prod.mk.injEq .. |>.mp h
      exact expireDeadline_expiresOnly hb hmin
    · simp only at h
      split at h
      · obtain ⟨rfl, rfl⟩ := Prod.mk.injEq .. |>.mp h
        exact hnow.trans (expireDeadline_expiresOnly (hb.reroute (.now s p)) (by simpa using hmin))
      · obtain ⟨rfl, rfl⟩ := Prod.mk.injEq .. |>.mp h
        exact hnow

theorem schedule_expiresOnly (s : Scheduler) (t : TaskId) : ExpiresOnly s (schedule s t) :=
  ⟨.of_same (fun _ => rfl) fun _ u _ => schedule_word s t u, fun _ => rfl⟩

theorem insertAffine_expiresOnly (topo : Topology) (s : Scheduler) (p : Nat) (t : TaskId) :
    ExpiresOnly s (schedulerInsertAffine topo s p t) :=
  ⟨.of_same (schedulerInsertAffine_yieldTasks topo s p t) fun _ _ _ => by rw [schedulerInsertAffine_task],
    schedulerInsertAffine_servedTasks topo s p t⟩

theorem taskObtained_expiresOnly (s : Scheduler) (p : Nat) (preferred : Bool) (removed : Int) :
    ExpiresOnly s (taskObtained s p preferred removed) := by
  refine ⟨.of_same (taskObtained_yieldTasks s p preferred removed) fun _ _ _ => rfl, fun q => ?_⟩
  by_cases hq : q = p
  · subst hq
    rw [taskObtained, modProc_proc_self]
  · rw [taskObtained, modProc_proc_ne hq]

theorem findDeadline_expiresOnly :
    ∀ {n : Nat} {s s' : Scheduler} {r : Option TaskId}, Base topo s →
      findDeadline topo p cpu n s = (r, s') → ExpiresOnly s s'
  | 0, s, s', r, _, h => by
      obtain ⟨rfl, rfl⟩ := Prod.mk.injEq .. |>.mp h
      exact .refl s
  | n + 1, s, s', r, hb, h => by
      rw [findDeadline] at h
      split at h
      · rename_i s₂ hget
        obtain ⟨rfl, rfl⟩ := Prod.mk.injEq .. |>.mp h
        exact getDeadlineExpired_expiresOnly hb hget
      · rename_i t s₂ hget
        have hfirst := getDeadlineExpired_expiresOnly hb hget
        obtain ⟨s₁, h₁, hmin, rfl⟩ := schedulerGetDeadlineExpired_spec topo hget
        split at h
        · obtain ⟨rfl, rfl⟩ := Prod.mk.injEq .. |>.mp h
          exact hfirst.trans (schedule_expiresOnly _ t)
        · rename_i haff
          rw [expireDeadline_affinity] at haff
          have hb₁ := (hb.reroutes h₁).reroute (.deadline hmin (Bool.eq_false_iff.mpr haff))
          exact (hfirst.trans (insertAffine_expiresOnly topo _ p t)).trans
            (findDeadline_expiresOnly hb₁ h)

theorem findYield_expiresOnly :
    ∀ {n : Nat} {s s' : Scheduler} {r : Option TaskId}, Base topo s →
      findYield topo p cpu n s = (r, s') → ExpiresOnly s s'
  | 0, s, s', r, _, h => by
      obtain ⟨rfl, rfl⟩ := Prod.mk.injEq .. |>.mp h
      exact .refl s
  | n + 1, s, s', r, hb, h => by
      rw [findYield, schedulerGetYieldExpired] at h
      cases hy : (s.proc p).yieldTasks with
      | nil =>
          simp only [hy] at h
          obtain ⟨rfl, rfl⟩ := Prod.mk.injEq .. |>.mp h
          exact .refl s
      | cons t rest =>
          simp only [hy] at h
          by_cases hexp : ((s.task t).yield : Int) ≤ (s.proc p).servedTasks
          · have hpop : ExpiresOnly s (popYield s p t) := by
              refine ⟨.pop hb hy hexp (fun _ => rfl) fun u hu => by rw [popYield_task_ne hu], fun q => ?_⟩
              rw [popYield_proc]
              split
              · rename_i hq
                rw [hq]
              · rfl
            simp only [hexp, if_true, popYield_affinity] at h
            split at h
            · obtain ⟨rfl, rfl⟩ := Prod.mk.injEq .. |>.mp h
              exact hpop.trans (schedule_expiresOnly _ t)
            · rename_i haff
              have hb₁ := hb.reroute (.yield hy (Bool.eq_false_iff.mpr haff))
              exact (hpop.trans (insertAffine_expiresOnly topo _ p t)).trans (findYield_expiresOnly hb₁ h)
          · simp only [hexp, if_false] at h
            obtain ⟨rfl, rfl⟩ := Prod.mk.injEq .. |>.mp h
            exact .refl s

theorem getFromQueue_served {i : QueueId} {removed : Int}
    (hget : schedulerGetFromQueue s p i = (some (t, removed), s₁)) (q : Nat) :
    (s₁.proc q).servedTasks = (s.proc q).servedTasks := by
  obtain ⟨-, -, rfl⟩ := schedulerGetFromQueue_some hget
  split
  · rw [popQueue_proc]
    split
    · rename_i hq
      rw [hq]
      rfl
    · rfl
  · rfl

theorem getFromQueues_expiresOnly (hb : Base topo s) :
    ∀ {is : List QueueId} {r : Option (TaskId × Int)},
      getFromQueues p is s = (r, s') → ExpiresOnly s s'
  | [], r, h => by
      obtain ⟨rfl, rfl⟩ := Prod.mk.injEq .. |>.mp h
      exact .refl s
  | i :: is, r, h => by
      rw [getFromQueues] at h
      split at h
      · rename_i t removed s₁ hget
        obtain ⟨rfl, rfl⟩ := Prod.mk.injEq .. |>.mp h
        refine ⟨getFromQueue_yieldsLeft hb hget _, fun q => ?_⟩
        rw [(taskObtained_expiresOnly s₁ p _ removed).served, getFromQueue_served hget]
      · rename_i s₁ hget
        rw [schedulerGetFromQueue_none hget] at h
        exact getFromQueues_expiresOnly hb h

theorem findMain_expiresOnly :
    ∀ {n : Nat} {s s' : Scheduler} {r : Option (TaskId × Int)}, Base topo s →
      findMain topo p cpu n s = (r, s') → ExpiresOnly s s'
  | 0, s, s', r, _, h => by
      obtain ⟨rfl, rfl⟩ := Prod.mk.injEq .. |>.mp h
      exact .refl s
  | n + 1, s, s', r, hb, h => by
      rw [findMain] at h
      split at h
      · obtain ⟨rfl, rfl⟩ := Prod.mk.injEq .. |>.mp h
        exact .refl s
      · rename_i t hfind
        split at h
        · exact getFromQueues_expiresOnly hb h
        · rename_i haff
          have hpop : ExpiresOnly s (popQueue s p .main t) := by
            refine ⟨.elsewhere hb (c := .queue .main) (mem_places_queue.mpr (find_mem_contents hfind))
              (by decide) (popQueue_yieldTasks s p .main t) fun u hu => by rw [popQueue_task_ne hu],
              fun q => ?_⟩
            rw [popQueue_proc]
            split
            · rename_i hq
              rw [hq]
            · rfl
          have hb₁ := hb.reroute (.main hfind (Bool.eq_false_iff.mpr haff))
          exact (hpop.trans (insertAffine_expiresOnly topo _ p t)).trans (findMain_expiresOnly hb₁ h)

theorem findTaskProcess_expiresOnly {r : Option (TaskId × Int)} (hb : Base topo s)
    (h : schedulerFindTaskProcess topo cpu s p = (r, s')) : ExpiresOnly s s' := by
  unfold schedulerFindTaskProcess at h
  split at h
  · obtain ⟨rfl, rfl⟩ := Prod.mk.injEq .. |>.mp h
    exact .refl s
  · split at h
    · rename_i t s₁ hdl
      obtain ⟨rfl, rfl⟩ := Prod.mk.injEq .. |>.mp h
      exact (findDeadline_expiresOnly hb hdl).trans (taskObtained_expiresOnly ..)
    · rename_i s₁ hdl
      have h₁ := findDeadline_expiresOnly hb hdl
      obtain ⟨s₂, hr₁, rfl⟩ := findDeadline_spec hdl
      have hb₁ := hb.reroutes hr₁
      split at h
      · rename_i t s₃ hy
        obtain ⟨rfl, rfl⟩ := Prod.mk.injEq .. |>.mp h
        exact (h₁.trans (findYield_expiresOnly hb₁ hy)).trans (taskObtained_expiresOnly ..)
      · rename_i s₃ hy
        have h₂ := h₁.trans (findYield_expiresOnly hb₁ hy)
        obtain ⟨s₄, hr₂, rfl⟩ := findYield_spec hy
        have hb₂ := hb₁.reroutes hr₂
        split at h
        · rename_i r₁ s₅ hq
          obtain ⟨rfl, rfl⟩ := Prod.mk.injEq .. |>.mp h
          exact h₂.trans (getFromQueues_expiresOnly hb₂ hq)
        · rename_i s₅ hq
          rw [getFromQueues_none_eq hq] at h
          exact h₂.trans (findMain_expiresOnly hb₂ h)

theorem countServed_yieldsLeft (s : Scheduler) (p : Nat) (removed : Int) :
    YieldsLeft E s (countServed s p removed) := by
  refine .of_same (fun q => ?_) fun _ _ _ => rfl
  by_cases hq : q = p <;> simp [countServed, Scheduler.modProc, hq]

theorem walk_expiresOnly {external : Bool} {pid : Nat} {r : Option TaskId} :
    ∀ {order : List Nat} {s : Scheduler}, Base topo s →
      schedulerForeachDo (schedulerFindTaskProcess topo cpu) external pid order s = (r, s') →
      YieldsLeft (Expired s) s s'
  | [], s, _, h => by
      obtain ⟨rfl, rfl⟩ := Prod.mk.injEq .. |>.mp h
      exact .refl s
  | p :: order, s, hb, h => by
      rw [schedulerForeachDo] at h
      split at h
      · exact walk_expiresOnly hb h
      · split at h
        · rename_i t removed s₁ hfind
          obtain ⟨rfl, rfl⟩ := Prod.mk.injEq .. |>.mp h
          exact (findTaskProcess_expiresOnly hb hfind).yields.trans (countServed_yieldsLeft s₁ p removed)
        · rename_i s₁ hfind
          have hfirst := findTaskProcess_expiresOnly hb hfind
          have hb₁ : Base topo s₁ := hb.reroutes (schedulerFindTaskProcess_spec hfind)
          have hrest := walk_expiresOnly hb₁ h
          refine hfirst.yields.trans ⟨fun q => ?_, hrest.word⟩
          obtain ⟨l, hl, hE⟩ := hrest.gone q
          refine ⟨l, hl, fun t ht => ?_⟩
          have hmark := hfirst.yields.word q t (by rw [hl]; exact List.mem_append_left _ ht)
          have hexp := hE t ht
          unfold Expired Task.yield at hexp ⊢
          rwa [hmark, hfirst.served] at hexp

/-! ## The second pass -/

theorem findNoaffine_stays {r : Option (TaskId × Int)} (hb : Base topo s)
    (h : schedulerFindTaskNoaffineProcess topo s p = (r, s')) :
    YieldsLeft E s s' ∧ (r = none → s' = s) := by
  have hqueues : ∀ {is : List QueueId} {r : Option (TaskId × Int)}, getFromQueues p is s = (r, s') →
      YieldsLeft E s s' ∧ (r = none → s' = s) := by
    intro is
    induction is with
    | nil =>
        intro r h
        obtain ⟨rfl, rfl⟩ := Prod.mk.injEq .. |>.mp h
        exact ⟨.refl s, fun _ => rfl⟩
    | cons i is ih =>
        intro r h
        rw [getFromQueues] at h
        split at h
        · rename_i t removed s₁ hget
          obtain ⟨rfl, rfl⟩ := Prod.mk.injEq .. |>.mp h
          exact ⟨getFromQueue_yieldsLeft hb hget _, fun hr => by cases hr⟩
        · rename_i s₁ hget
          rw [schedulerGetFromQueue_none hget] at h
          exact ih h
  unfold schedulerFindTaskNoaffineProcess at h
  split at h
  · obtain ⟨rfl, rfl⟩ := Prod.mk.injEq .. |>.mp h
    exact ⟨.refl s, fun _ => rfl⟩
  · split at h
    · obtain ⟨rfl, rfl⟩ := Prod.mk.injEq .. |>.mp h
      exact ⟨.refl s, fun _ => rfl⟩
    · exact hqueues h

theorem walk_stays {external : Bool} {pid : Nat} {r : Option TaskId} (hb : Base topo s) :
    ∀ {order : List Nat},
      schedulerForeachDo (schedulerFindTaskNoaffineProcess topo) external pid order s = (r, s') →
      YieldsLeft E s s'
  | [], h => by
      obtain ⟨rfl, rfl⟩ := Prod.mk.injEq .. |>.mp h
      exact .refl s
  | p :: order, h => by
      rw [schedulerForeachDo] at h
      split at h
      · exact walk_stays hb h
      · split at h
        · rename_i t removed s₁ hfind
          obtain ⟨rfl, rfl⟩ := Prod.mk.injEq .. |>.mp h
          exact (findNoaffine_stays hb hfind).1.trans (countServed_yieldsLeft s₁ p removed)
        · rename_i s₁ hfind
          rw [(findNoaffine_stays (E := E) hb hfind).2 rfl] at h
          exact walk_stays hb h

/-! ## A whole search -/

/-- The walk of `scheduler_get_internal` over `scheduler_find_task_process` -/
def firstPass (topo : Topology) (s : Scheduler) (cpu pid : Nat) (external : Bool) (ts : Nat) :
    Option TaskId × Scheduler :=
  schedulerForeachDo (schedulerFindTaskProcess topo cpu) external pid
    (circularFrom s.queues (walkStart s pid (schedulerShouldYield s pid cpu ts))) s

/-- The walk over `scheduler_find_task_noaffine_process`, after the first -/
def secondPass (topo : Topology) (s : Scheduler) (cpu pid : Nat) (external : Bool) (ts : Nat) :
    Option TaskId × Scheduler :=
  schedulerForeachDo (schedulerFindTaskNoaffineProcess topo) external pid
    (circularFrom s.queues (walkStart s pid (schedulerShouldYield s pid cpu ts)))
    (firstPass topo s cpu pid external ts).2

/-- Where a search ends. -/
theorem get_passes {pid ts : Nat} {external : Bool} {r : Option TaskId}
    (h : schedulerGetInternal topo s cpu pid external ts = (r, s')) :
    SameStore s s'
      ∨ SameStore (firstPass topo s cpu pid external ts).2 s'
      ∨ (firstPass topo s cpu pid external ts).1 = none
        ∧ SameStore (secondPass topo s cpu pid external ts).2 s'
      ∨ (firstPass topo s cpu pid external ts).1 = none
        ∧ (secondPass topo s cpu pid external ts).1 = none := by
  unfold schedulerGetInternal at h
  split at h
  · obtain ⟨rfl, rfl⟩ := Prod.mk.injEq .. |>.mp h
    exact .inl (schedulerUpdateAccounting_same ..)
  · cases hfirst : firstPass topo s cpu pid external ts with
    | mk r₁ s₁ =>
        have hwalk := hfirst
        unfold firstPass walkStart at hwalk
        simp only [hwalk] at h
        cases r₁ with
        | some t =>
            obtain ⟨rfl, rfl⟩ := Prod.mk.injEq .. |>.mp h
            exact .inr (.inl (schedulerUpdateAccounting_same ..))
        | none =>
            cases hsecond : secondPass topo s cpu pid external ts with
            | mk r₂ s₂ =>
                cases r₂ with
                | some t =>
                    unfold secondPass walkStart at hsecond
                    rw [hfirst] at hsecond
                    simp only [hsecond] at h
                    obtain ⟨rfl, rfl⟩ := Prod.mk.injEq .. |>.mp h
                    exact .inr (.inr (.inl ⟨rfl, schedulerUpdateAccounting_same ..⟩))
                | none => exact .inr (.inr (.inr ⟨rfl, rfl⟩))

theorem yieldsLeft_get {pid ts : Nat} {external : Bool} (hb : Base topo s) :
    YieldsLeft (fun _ _ => True) s (schedulerGetInternal topo s cpu pid external ts).2 := by
  cases hget : schedulerGetInternal topo s cpu pid external ts with
  | mk r s' =>
      obtain ⟨s₁, hsearch, hsame⟩ := schedulerGetInternal_spec hget
      refine YieldsLeft.trans ?_ (.sameStore hsame)
      cases r with
      | none => exact yieldsLeft_reroutes hb hsearch
      | some t =>
          obtain ⟨p, -, s₀, removed, s₂, hr, htake, rfl⟩ := hsearch
          exact ((yieldsLeft_reroutes hb hr).trans (htake.yieldsLeft (hb.reroutes hr))).trans
            (countServed_yieldsLeft s₂ p removed)

/-! ## The other steps -/

theorem yieldsLeft_purge (hb : Base topo s) (logicPid : Nat) :
    YieldsLeft (fun _ _ => False) s (schedulerDeadlinePurge s logicPid) := by
  obtain ⟨s₁, hp, hsame⟩ := schedulerDeadlinePurge_spec hb.deadlineNodup logicPid
  refine YieldsLeft.trans ?_ (.sameStore hsame)
  have hboth : Base topo s₁ ∧ YieldsLeft (fun _ _ => False) s s₁ := by
    clear hsame
    induction hp with
    | refl => exact ⟨hb, .refl s⟩
    | tail _ hstep ih =>
        obtain ⟨hb₂, hleft⟩ := ih
        refine ⟨hb₂.purgeStep hstep, hleft.trans ?_⟩
        obtain ⟨p, t, ht, -, rfl⟩ := hstep
        refine .elsewhere hb₂ (c := .deadline) (Multiset.mem_coe.mpr ht) (by decide) (fun q => ?_)
          fun u hu => ?_
        · by_cases hq : q = p <;>
            simp [purgeTask, addQueue, removeDeadline, Scheduler.setQueue, Scheduler.modProc,
              Scheduler.modTask, hq]
        · simp [purgeTask, addQueue, removeDeadline, Scheduler.setQueue, Scheduler.modProc,
            Scheduler.modTask, hu]
  exact hboth.2

/-- A write to a task, not to its mark if it is stored. -/
theorem yieldsLeft_modTask (hb : Base topo s) {f : Task → Task}
    (hf : ¬ s.Holding topo t ∨ (f (s.task t)).word = (s.task t).word) :
    YieldsLeft E s (s.modTask t f) := by
  refine .of_same (fun _ => rfl) fun q u hu => ?_
  by_cases hut : u = t
  · subst hut
    rcases hf with hnot | hf
    · exact absurd (Multiset.mem_coe.mpr hu) (hb.absent_iff.mpr hnot (q, .yield))
    · simpa [Scheduler.modTask] using hf
  · simp [Scheduler.modTask, hut]

theorem insertDeadline_yields :
    ∀ {n : Nat} {s s' : Scheduler}, insertDeadline s p t n = some s' →
      (∀ u, u ≠ t → s'.task u = s.task u) ∧ ∀ q, (s'.proc q).yieldTasks = (s.proc q).yieldTasks
  | 0, s, s', h => by cases h
  | n + 1, s, s', h => by
      rw [insertDeadline] at h
      split at h
      · obtain rfl := Option.some.inj h
        refine ⟨fun u hu => by simp [Scheduler.modTask, Scheduler.modProc, hu], fun q => ?_⟩
        by_cases hq : q = p <;> simp [Scheduler.modTask, Scheduler.modProc, hq]
      · obtain ⟨htask, hlist⟩ := insertDeadline_yields h
        refine ⟨fun u hu => ?_, hlist⟩
        rw [htask u hu]
        simp [Scheduler.modTask, hu]

/-- An insertion puts the task at the end of the yield list, if it yields,
with the sum of the two counters. -/
theorem insertContainer_yields (h : insertContainer s p t = some s') :
    (∀ u, u ≠ t → s'.task u = s.task u)
    ∧ (∀ q, (s'.proc q).yieldTasks =
        if (s.task t).yield ≠ 0 ∧ q = p then (s.proc p).yieldTasks ++ [t] else (s.proc q).yieldTasks)
    ∧ ((s.task t).yield ≠ 0 →
        (s'.task t).word = (sizeT ((s.proc p).servedTasks + (s.proc p).tasks)).toNat) := by
  unfold insertContainer at h
  split at h
  · rename_i hy
    obtain rfl := Option.some.inj h
    refine ⟨fun u hu => by simp [Scheduler.modTask, Scheduler.modProc, hu], fun q => ?_, fun _ => ?_⟩
    · by_cases hq : q = p
      · subst hq
        simp [Scheduler.modTask, Scheduler.modProc, hy]
      · simp [Scheduler.modTask, Scheduler.modProc, hq]
    · simp [Scheduler.modTask, Scheduler.modProc]
  · rename_i hy
    have hother : (∀ u, u ≠ t → s'.task u = s.task u)
        ∧ ∀ q, (s'.proc q).yieldTasks = (s.proc q).yieldTasks := by
      split at h
      · split at h
        · obtain ⟨htask, hlist⟩ := insertDeadline_yields h
          refine ⟨fun u hu => ?_, hlist⟩
          rw [htask u hu]
          simp [Scheduler.modTask, hu]
        · obtain rfl := Option.some.inj h
          refine ⟨fun u hu => by simp [addQueue, Scheduler.setQueue, Scheduler.modTask, Scheduler.modProc, hu],
            fun q => ?_⟩
          by_cases hq : q = p <;>
            simp [addQueue, Scheduler.setQueue, Scheduler.modTask, Scheduler.modProc, hq]
      · obtain rfl := Option.some.inj h
        refine ⟨fun u hu => rfl, fun q => ?_⟩
        by_cases hq : q = p <;> simp [addQueue, Scheduler.setQueue, Scheduler.modProc, hq]
    refine ⟨hother.1, fun q => ?_, fun hne => absurd hne hy⟩
    rw [hother.2, if_neg fun hc => hy hc.1]

/-! ## Runs -/

/-- The scheduler with what the process of each task had served and stored
when the task was last inserted. -/
structure YieldLog where
  accounts : Accounts
  servedAt : TaskId → Int
  storedAt : TaskId → Int

namespace YieldLog

def init (task : TaskId → Task) (quantumNs : Nat) (clock : Nat → Nat) : YieldLog :=
  ⟨.init task quantumNs clock, fun _ => 0, fun _ => 0⟩

def step (topo : Topology) (l : YieldLog) (op : SchedOp) : Option YieldLog :=
  match l.accounts.step topo op with
  | none => none
  | some a =>
      match op with
      | .insert t =>
          let s := l.accounts.sched
          let pid := (s.task t).pid
          some ⟨a, Function.update l.servedAt t (s.proc pid).servedTasks,
            Function.update l.storedAt t (s.owed topo pid)⟩
      | _ => some { l with accounts := a }

/-- The yield lists are sorted, so that no expired task is behind one that
is not. -/
structure Sorted (l : YieldLog) : Prop where
  sorted : ∀ p, (l.accounts.sched.proc p).yieldTasks.Pairwise
    fun t u => (l.accounts.sched.task t).yield ≤ (l.accounts.sched.task u).yield
  head : ∀ p t rest, (l.accounts.sched.proc p).yieldTasks = t :: rest →
    ¬ Expired l.accounts.sched p t → ∀ u ∈ rest, ¬ Expired l.accounts.sched p u

/-- Task `t` has waited for the executions stored before it. -/
def Waited (l : YieldLog) (p : Nat) (t : TaskId) : Prop :=
  l.storedAt t ≤ (l.accounts.sched.proc p).servedTasks - l.servedAt t

/-- A task that a search takes off a yield list has waited and leaves in the
first pass, or it leaves in the last one after two that found nothing. No
other step takes a task off a yield list. -/
def Fair (topo : Topology) (l : YieldLog) (op : SchedOp) : Prop :=
  let s := l.accounts.sched
  match op with
  | .get cpu pid external ts =>
      let s' := (schedulerGetInternal topo s cpu pid external ts).2
      ∀ p ∈ s.queues, ∀ t ∈ (s.proc p).yieldTasks, t ∉ (s'.proc p).yieldTasks →
        if t ∉ ((firstPass topo s cpu pid external ts).2.proc p).yieldTasks then l.Waited p t
        else (firstPass topo s cpu pid external ts).1 = none
          ∧ (secondPass topo s cpu pid external ts).1 = none
  | _ => ∀ a ∈ l.accounts.step topo op, ∀ p ∈ s.queues, ∀ t ∈ (s.proc p).yieldTasks,
      t ∈ (a.sched.proc p).yieldTasks

/-- The invariant: the marks are what was inserted before, in their order. -/
structure Ordered (topo : Topology) (l : YieldLog) : Prop where
  accounted : Accounted topo l.accounts
  mark : ∀ p, ∀ t ∈ (l.accounts.sched.proc p).yieldTasks,
    ((l.accounts.sched.task t).yield : Int) = l.servedAt t + l.storedAt t
  inserted : ∀ p, ∀ t ∈ (l.accounts.sched.proc p).yieldTasks,
    ((l.accounts.sched.task t).yield : Int) ≤ l.accounts.inserted p
  sorted : ∀ p, (l.accounts.sched.proc p).yieldTasks.Pairwise
    fun t u => (l.accounts.sched.task t).yield ≤ (l.accounts.sched.task u).yield

variable {l l' : YieldLog}

/-- Tasks may leave the lists. -/
theorem Ordered.left {a : Accounts} (h : l.Ordered topo) (ha : Accounted topo a)
    (hleft : YieldsLeft E l.accounts.sched a.sched) (hins : a.inserted = l.accounts.inserted) :
    Ordered topo { l with accounts := a } := by
  have hmem : ∀ q, ∀ t ∈ (a.sched.proc q).yieldTasks, t ∈ (l.accounts.sched.proc q).yieldTasks
      ∧ (a.sched.task t).yield = (l.accounts.sched.task t).yield := by
    intro q t ht
    obtain ⟨gone, hgone, -⟩ := hleft.gone q
    exact ⟨by rw [hgone]; exact List.mem_append_right _ ht, hleft.word q t ht⟩
  refine ⟨ha, fun p t ht => ?_, fun p t ht => ?_, fun p => ?_⟩
  · obtain ⟨hold, hsame⟩ := hmem p t ht
    rw [hsame]
    exact h.mark p t hold
  · obtain ⟨hold, hsame⟩ := hmem p t ht
    simp only [hins, hsame]
    exact h.inserted p t hold
  · obtain ⟨gone, hgone, -⟩ := hleft.gone p
    have hsub : (a.sched.proc p).yieldTasks.Sublist (l.accounts.sched.proc p).yieldTasks := by
      rw [hgone]
      exact List.sublist_append_right ..
    refine ((h.sorted p).sublist hsub).imp_of_mem fun {t u} ht hu hle => ?_
    simp only [(hmem p t ht).2, (hmem p u hu).2]
    exact hle

/-- The lists after an insertion. -/
theorem insert_yields {s s' : Scheduler} {t : TaskId} (hb : Base topo s)
    (hins : schedulerInsertReadyTask s t = some s') :
    (∀ u, u ≠ t → s'.task u = s.task u)
    ∧ (∀ q, (s'.proc q).yieldTasks =
        if (s.task t).yield ≠ 0 ∧ q = (s.task t).pid then (s.proc (s.task t).pid).yieldTasks ++ [t]
        else (s.proc q).yieldTasks)
    ∧ ((s.task t).yield ≠ 0 → (s'.task t).word =
        (sizeT (((ensurePid s (s.task t).pid).proc (s.task t).pid).servedTasks
          + ((ensurePid s (s.task t).pid).proc (s.task t).pid).tasks)).toNat) := by
  have hlists : ∀ q, ((ensurePid s (s.task t).pid).proc q).yieldTasks = (s.proc q).yieldTasks := by
    intro q
    obtain ⟨-, hplaces, -⟩ := hb.ensurePid (s.task t).pid
    unfold ensurePid at hplaces ⊢
    split at hplaces
    · rw [if_pos ‹_›]
    · rw [if_neg ‹_›]
      by_cases hq : q = (s.task t).pid
      · subst hq
        -- a process without a scheduler has no tasks
        have hempty : s.places ((s.task t).pid, .yield) = 0 := by
          rw [← hplaces]
          simp [Scheduler.places, schedulerInitPid, ProcessScheduler.elems, emptyProcess]
        have hnil : (s.proc (s.task t).pid).yieldTasks = [] :=
          (Multiset.coe_eq_zero _).mp hempty
        rw [hnil]
        simp [schedulerInitPid, emptyProcess]
      · simp [schedulerInitPid, hq]
  unfold schedulerInsertReadyTask at hins
  simp only at hins
  split at hins
  · cases hins
  · rename_i s₁ hcont
    obtain rfl := Option.some.inj hins
    obtain ⟨htask, hlist, hword⟩ := insertContainer_yields hcont
    simp only [ensurePid_task, hlists] at htask hlist hword
    refine ⟨htask, fun q => ?_, hword⟩
    rw [← hlist q]
    by_cases hq : q = (s.task t).pid <;> simp [addDegree, Scheduler.modProc, hq]

theorem Ordered.insert {t : TaskId} {s' : Scheduler} (h : l.Ordered topo)
    (hnot : ¬ l.accounts.sched.Holding topo t)
    (hpos : 0 < (l.accounts.sched.task t).degree)
    (hins : schedulerInsertReadyTask l.accounts.sched t = some s')
    (ha : Accounted topo ⟨s', Function.update l.accounts.inserted (l.accounts.sched.task t).pid
      (l.accounts.inserted (l.accounts.sched.task t).pid + (l.accounts.sched.task t).degree)⟩) :
    Ordered topo ⟨⟨s', Function.update l.accounts.inserted (l.accounts.sched.task t).pid
        (l.accounts.inserted (l.accounts.sched.task t).pid + (l.accounts.sched.task t).degree)⟩,
      Function.update l.servedAt t
        (l.accounts.sched.proc (l.accounts.sched.task t).pid).servedTasks,
      Function.update l.storedAt t (l.accounts.sched.owed topo (l.accounts.sched.task t).pid)⟩ := by
  obtain ⟨htask, hlist, hword⟩ := insert_yields h.accounted.base hins
  have hne : ∀ q, ∀ u ∈ (l.accounts.sched.proc q).yieldTasks, u ≠ t := by
    rintro q u hu rfl
    exact h.accounted.base.absent_iff.mpr hnot (q, .yield) (Multiset.mem_coe.mpr hu)
  -- the mark of the task, if it yields, is what was inserted before
  have hmark : (l.accounts.sched.task t).yield ≠ 0 →
      ((s'.task t).yield : Int) = l.accounts.inserted (l.accounts.sched.task t).pid := by
    intro hy
    have hsum := (h.accounted.ensurePid (l.accounts.sched.task t).pid).served (l.accounts.sched.task t).pid
    simp only at hsum
    have h₀ := h.accounted.inserted_nonneg (l.accounts.sched.task t).pid
    rw [Task.yield, hword hy, hsum, sizeT_of_bounds h₀ (h.accounted.inserted_lt _),
      Int.toNat_of_nonneg h₀]
  have hmem : ∀ q, ∀ u ∈ (s'.proc q).yieldTasks,
      u ∈ (l.accounts.sched.proc q).yieldTasks
        ∨ u = t ∧ (l.accounts.sched.task t).yield ≠ 0 ∧ q = (l.accounts.sched.task t).pid := by
    intro q u hu
    rw [hlist] at hu
    split at hu
    · rename_i hq
      rcases List.mem_append.mp hu with hu | hu
      · exact .inl (hq.2 ▸ hu)
      · exact .inr ⟨List.mem_singleton.mp hu, hq⟩
    · exact .inl hu
  refine ⟨ha, fun q u hu => ?_, fun q u hu => ?_, fun q => ?_⟩
  · rcases hmem q u hu with hold | ⟨rfl, hy, rfl⟩
    · have hut := hne q u hold
      simp only [Function.update_of_ne hut, htask u hut]
      exact h.mark q u hold
    · have hserved := h.accounted.served (l.accounts.sched.task u).pid
      rw [h.accounted.tasks] at hserved
      simp only [Function.update_self]
      rw [hmark hy, hserved]
  · rcases hmem q u hu with hold | ⟨rfl, hy, rfl⟩
    · have hle := h.inserted q u hold
      simp only [htask u (hne q u hold)]
      by_cases hq : q = (l.accounts.sched.task t).pid
      · subst hq
        rw [Function.update_self]
        omega
      · rwa [Function.update_of_ne hq]
    · simp only [Function.update_self]
      rw [hmark hy]
      omega
  · have hold : (l.accounts.sched.proc q).yieldTasks.Pairwise
        fun u v => (s'.task u).yield ≤ (s'.task v).yield := by
      refine (h.sorted q).imp_of_mem fun {u v} hu hv hle => ?_
      rwa [htask u (hne q u hu), htask v (hne q v hv)]
    simp only
    rw [hlist]
    split
    · rename_i hq
      rw [← hq.2]
      refine List.pairwise_append.mpr ⟨hold, List.pairwise_singleton _ _, fun u hu v hv => ?_⟩
      obtain rfl := List.mem_singleton.mp hv
      have hle := h.inserted q u hu
      have hv := hmark hq.1
      rw [← hq.2] at hv
      rw [htask u (hne q u hu)]
      omega
    · exact hold

/-! ## Steps -/

theorem step_accounts {op : SchedOp} (h : l.step topo op = some l') :
    l.accounts.step topo op = some l'.accounts := by
  unfold step at h
  split at h
  · cases h
  · rename_i a ha
    rw [ha]
    split at h <;>
    · obtain rfl := Option.some.inj h
      rfl

/-- What a step takes off the yield lists, unless it is an insertion. -/
theorem yieldsLeft_step {a a' : Accounts} {op : SchedOp} (hb : Base topo a.sched)
    (h : a.step topo op = some a') :
    match op with
    | .insert _ => True
    | .get .. => a'.inserted = a.inserted ∧ YieldsLeft (fun _ _ => True) a.sched a'.sched
    | _ => a'.inserted = a.inserted ∧ YieldsLeft (fun _ _ => False) a.sched a'.sched := by
  have hcase := Accounts.step_cases h
  cases op with
  | prepare t k =>
      obtain ⟨hnot, rfl⟩ := hcase
      exact ⟨rfl, yieldsLeft_modTask (f := fun _ => k) hb (.inl hnot)⟩
  | insert t => trivial
  | get cpu pid external ts =>
      obtain ⟨-, rfl⟩ := hcase
      exact ⟨rfl, yieldsLeft_get hb⟩
  | purge logicPid =>
      simp only at hcase
      subst hcase
      exact ⟨rfl, yieldsLeft_purge hb logicPid⟩
  | cancel t =>
      obtain ⟨-, -, rfl | ⟨-, rfl⟩⟩ := hcase
      · exact ⟨rfl, .refl _⟩
      · exact ⟨rfl, yieldsLeft_modTask (f := fun k => { k with degree := -k.degree }) hb (.inr rfl)⟩
  | wake t =>
      obtain ⟨-, rfl⟩ := hcase
      have hmod : YieldsLeft (fun _ _ => False) a.sched
          (a.sched.modTask t fun k => { k with deadlineState := .ready }) :=
        yieldsLeft_modTask hb (.inr rfl)
      refine ⟨rfl, ?_⟩
      simp only [submitDeadlineWake]
      split
      · exact ⟨hmod.gone, hmod.word⟩
      · exact hmod

theorem ordered_step {op : SchedOp} (hC : Disciplined topo l.accounts op)
    (hstep : l.step topo op = some l') (h : l.Ordered topo) : l'.Ordered topo := by
  have ha := accounted_step hC (step_accounts hstep) h.accounted
  have hleft := yieldsLeft_step h.accounted.base (step_accounts hstep)
  have hcase := Accounts.step_cases (step_accounts hstep)
  unfold step at hstep
  split at hstep
  · cases hstep
  cases op with
  | insert t =>
      obtain ⟨hnot, hpos, -, s, hins, heq⟩ := hcase
      obtain rfl := Option.some.inj hstep
      simp only at heq ha ⊢
      rw [heq] at ha ⊢
      exact h.insert hnot hpos hins ha
  | prepare | get | purge | cancel | wake =>
      obtain rfl := Option.some.inj hstep
      exact h.left ha hleft.2 hleft.1

theorem Ordered.sorted_state (h : l.Ordered topo) : l.Sorted := by
  refine ⟨h.sorted, fun p t rest hlist hexp u hu hexp' => hexp ?_⟩
  have hsorted := h.sorted p
  rw [hlist, List.pairwise_cons] at hsorted
  have hle := hsorted.1 u hu
  unfold Expired at hexp' ⊢
  omega

theorem Ordered.waited (h : l.Ordered topo) {t : TaskId} (ht : t ∈ (l.accounts.sched.proc p).yieldTasks)
    (hexp : Expired l.accounts.sched p t) : l.Waited p t := by
  have hmark := h.mark p t ht
  unfold Expired at hexp
  unfold Waited
  omega

theorem Ordered.fair_get {pid ts : Nat} {external : Bool} (h : l.Ordered topo) :
    l.Fair topo (.get cpu pid external ts) := by
  intro p hp t ht hgone
  have hb := h.accounted.base
  have hfirst : YieldsLeft (Expired l.accounts.sched) l.accounts.sched
      (firstPass topo l.accounts.sched cpu pid external ts).2 := walk_expiresOnly hb rfl
  split
  · rename_i hout
    exact h.waited ht (hfirst.of_gone ht hout)
  · rename_i hin
    rw [not_not] at hin
    cases hget : schedulerGetInternal topo l.accounts.sched cpu pid external ts with
    | mk r s' =>
        rw [hget] at hgone
        rcases get_passes hget with hsame | hsame | ⟨hnone, hsame⟩ | hnone
        · exact absurd (by rwa [hsame.proc]) hgone
        · exact absurd (by rwa [hsame.proc]) hgone
        · -- the second pass leaves the yield lists alone
          have hb₁ : Base topo (firstPass topo l.accounts.sched cpu pid external ts).2 :=
            hb.reroutes (foreachDo_none cpu schedulerFindTaskProcess_spec (Prod.ext hnone rfl))
          have hsecond : YieldsLeft (fun _ _ => False) (firstPass topo l.accounts.sched cpu pid external ts).2
              (secondPass topo l.accounts.sched cpu pid external ts).2 := walk_stays hb₁ rfl
          rw [hsame.proc] at hgone
          exact (hsecond.of_gone hin hgone).elim
        · exact hnone

theorem Ordered.fair (h : l.Ordered topo) (op : SchedOp) : l.Fair topo op := by
  have hb := h.accounted.base
  cases op with
  | get cpu pid external ts => exact h.fair_get
  | insert t =>
      intro a ha p hp u hu
      obtain ⟨-, -, -, s, hins, rfl⟩ := Accounts.step_cases ha
      obtain ⟨-, hlist, -⟩ := insert_yields hb hins
      simp only
      rw [hlist]
      split
      · rename_i hq
        exact List.mem_append_left _ (hq.2 ▸ hu)
      · exact hu
  | prepare | purge | cancel | wake =>
      intro a ha p hp u hu
      by_contra hout
      exact (yieldsLeft_step hb ha).2.of_gone hu hout

theorem ordered_init (task : TaskId → Task) (quantumNs : Nat) (clock : Nat → Nat) :
    (init task quantumNs clock).Ordered topo := by
  refine ⟨accounted_init .., fun p t ht => ?_, fun p t ht => ?_, fun p => .nil⟩ <;> cases ht

instance (topo : Topology) (l : YieldLog) (op : SchedOp) : Decidable (l.Fair topo op) := by
  cases op <;> (dsimp only [Fair, Waited]; infer_instance)

/-- In every run of disciplined steps the yield lists are sorted and a
yielded task waits for what was stored when it yielded. -/
theorem yields_fair (topo : Topology) (task : TaskId → Task) (quantumNs : Nat) (clock : Nat → Nat)
    (ops : List SchedOp) (l : YieldLog)
    (hrun : Run.run (step topo) (init task quantumNs clock) ops = some l)
    (hC : Run.Along (step topo) (fun l op => Disciplined topo l.accounts op)
      (init task quantumNs clock) ops) :
    l.Sorted ∧ Run.Along (step topo) (Fair topo) (init task quantumNs clock) ops := by
  have hstep : ∀ (l : YieldLog) (op : SchedOp) (l' : YieldLog), Disciplined topo l.accounts op →
      l.step topo op = some l' → l.Ordered topo → l'.Ordered topo := fun _ _ _ => ordered_step
  refine ⟨?_, ?_⟩
  · exact (Run.invariant_along hstep hC hrun (ordered_init ..)).sorted_state
  · exact Run.along_of_invariant hstep (fun _ op _ h => h.fair op) hC (ordered_init ..)

/-- Task 0 is parallel, tasks from 1 on yield. -/
def yieldsBehind (t : TaskId) : Task :=
  if t = 0 then pairTask else { nosvCreateInternal 0 ⟨.none, .preferred, 0⟩ with word := 1 }

/-- Two tasks yield behind a parallel one, which is cancelled after its
first execution; both leave as expired. -/
theorem yields_fair_cancelled :
    ∃ l, Run.run (step .oneCpu) (init yieldsBehind 0 id)
        [.insert 0, .insert 1, .insert 2, .get 0 0 false 0, .cancel 0, .get 0 0 false 0,
          .get 0 0 false 0, .get 0 0 false 0] = some l
      ∧ l.Sorted := by
  have hsome : (Run.run (step .oneCpu) (init yieldsBehind 0 id)
      [.insert 0, .insert 1, .insert 2, .get 0 0 false 0, .cancel 0, .get 0 0 false 0,
        .get 0 0 false 0, .get 0 0 false 0]).isSome = true := by
    decide +kernel
  obtain ⟨l, hrun⟩ := Option.isSome_iff_exists.mp hsome
  exact ⟨l, hrun, (yields_fair .oneCpu yieldsBehind 0 id _ l hrun (by decide +kernel)).1⟩

/-- Task 0 has been scheduled `2 ^ 32 - 1` times, task 1 yields. -/
def worn (t : TaskId) : Task :=
  if t = 0 then { nosvCreateInternal 0 ⟨.none, .preferred, 0⟩ with scheduledCount := 4294967295 }
  else { nosvCreateInternal 0 ⟨.none, .preferred, 0⟩ with word := 1 }

/-- The count of task 0 wraps when it is handed out, so it stays in the queue,
while `tasks` no longer counts it: task 1 leaves the yield list at once. -/
theorem yield_overtakes :
    ¬ Run.Along (step .oneCpu) (Fair .oneCpu) (init worn 0 id)
      [.insert 0, .get 0 0 false 0, .insert 1, .get 0 0 false 0] := by
  decide +kernel

end YieldLog

end Nosv
