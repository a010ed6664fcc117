import Nosv.WorkConservation

/-!
# Deadlines lapse

A search hands out a task of a deadline tree only when a reading of the
clock is later than its deadline. `Lapses` says so of any change of the
scheduler: the deadlines of the tasks in the trees stay, or a task has left
because a reading of the clock was later.
-/

namespace Nosv

open RBTree Relation Places

variable {topo : Topology} {s s₁ s' s'' : Scheduler} {p cpu : Nat} {t : TaskId}

/-! ## Changes that no waiting task sees -/

structure SameClocks (s s' : Scheduler) : Prop where
  now : ∀ q, (s'.proc q).now = (s.proc q).now
  clock : s'.clock = s.clock
  ticks : s'.ticks = s.ticks

theorem SameClocks.refl (s : Scheduler) : SameClocks s s := ⟨fun _ => rfl, rfl, rfl⟩

theorem SameClocks.trans (h : SameClocks s s') (h' : SameClocks s' s'') : SameClocks s s'' :=
  ⟨fun q => (h'.now q).trans (h.now q), h'.clock.trans h.clock, h'.ticks.trans h.ticks⟩

structure SameTimes (s s' : Scheduler) : Prop extends SameClocks s s' where
  tree : ∀ q, (s'.proc q).deadlineTasks = (s.proc q).deadlineTasks
  deadline : ∀ u, (s'.task u).deadline = (s.task u).deadline
  state : ∀ u, (s'.task u).deadlineState = (s.task u).deadlineState

namespace SameTimes

theorem refl (s : Scheduler) : SameTimes s s :=
  ⟨.refl s, fun _ => rfl, fun _ => rfl, fun _ => rfl⟩

theorem trans (h : SameTimes s s') (h' : SameTimes s' s'') : SameTimes s s'' :=
  ⟨h.toSameClocks.trans h'.toSameClocks, fun q => (h'.tree q).trans (h.tree q),
    fun u => (h'.deadline u).trans (h.deadline u), fun u => (h'.state u).trans (h.state u)⟩

theorem modTask (s : Scheduler) (t : TaskId) {f : Task → Task}
    (hf : ∀ k, (f k).deadline = k.deadline ∧ (f k).deadlineState = k.deadlineState) :
    SameTimes s (s.modTask t f) := by
  refine ⟨⟨fun _ => rfl, rfl, rfl⟩, fun _ => rfl, fun u => ?_, fun u => ?_⟩
  · by_cases hu : u = t
    · subst hu
      simp [Scheduler.modTask, (hf (s.task u)).1]
    · simp [Scheduler.modTask, hu]
  · by_cases hu : u = t
    · subst hu
      simp [Scheduler.modTask, (hf (s.task u)).2]
    · simp [Scheduler.modTask, hu]

theorem modProc (s : Scheduler) (p : Nat) {g : ProcessScheduler → ProcessScheduler}
    (hg : ∀ ps, (g ps).deadlineTasks = ps.deadlineTasks ∧ (g ps).now = ps.now) :
    SameTimes s (s.modProc p g) := by
  refine ⟨⟨fun q => ?_, rfl, rfl⟩, fun q => ?_, fun _ => rfl, fun _ => rfl⟩
  · by_cases hq : q = p
    · subst hq
      rw [modProc_proc_self, (hg (s.proc q)).2]
    · rw [modProc_proc_ne hq]
  · by_cases hq : q = p
    · subst hq
      rw [modProc_proc_self, (hg (s.proc q)).1]
    · rw [modProc_proc_ne hq]

theorem setQueue (s : Scheduler) (p : Nat) (i : QueueId) (q : Queue) :
    SameTimes s (s.setQueue p i q) :=
  .modProc s p fun _ => ⟨rfl, rfl⟩

theorem popQueue (s : Scheduler) (p : Nat) (i : QueueId) (t : TaskId) :
    SameTimes s (popQueue s p i t) := by
  unfold Nosv.popQueue
  simp only
  split
  · exact (SameTimes.setQueue ..).trans (.modTask _ t fun _ => ⟨rfl, rfl⟩)
  · exact .setQueue ..

theorem addQueue (s : Scheduler) (p : Nat) (i : QueueId) (t : TaskId) :
    SameTimes s (addQueue s p i t) :=
  .setQueue ..

theorem popYield (s : Scheduler) (p : Nat) (t : TaskId) : SameTimes s (popYield s p t) := by
  have hword : SameTimes s (s.modTask t fun k => { k with word := 0 }) :=
    .modTask s t fun _ => ⟨rfl, rfl⟩
  exact hword.trans (.modProc _ p fun _ => ⟨rfl, rfl⟩)

theorem insertAffine (topo : Topology) (s : Scheduler) (p : Nat) (t : TaskId) :
    SameTimes s (schedulerInsertAffine topo s p t) := by
  unfold schedulerInsertAffine
  simp only
  split
  · refine SameTimes.trans ?_ (.addQueue ..)
    exact .modProc s p fun _ => ⟨rfl, rfl⟩
  · exact .addQueue ..

theorem schedule (s : Scheduler) (t : TaskId) : SameTimes s (schedule s t) :=
  .modTask s t fun _ => ⟨rfl, rfl⟩

theorem taskObtained (s : Scheduler) (p : Nat) (preferred : Bool) (removed : Int) :
    SameTimes s (taskObtained s p preferred removed) :=
  .modProc s p fun _ => ⟨rfl, rfl⟩

theorem countServed (s : Scheduler) (p : Nat) (removed : Int) :
    SameTimes s (countServed s p removed) := by
  have h : SameTimes s (s.modProc p fun ps =>
      { ps with servedTasks := sizeT (ps.servedTasks + removed) }) :=
    .modProc s p fun _ => ⟨rfl, rfl⟩
  exact ⟨⟨h.now, h.clock, h.ticks⟩, h.tree, h.deadline, h.state⟩

theorem updateAccounting (s : Scheduler) (pid : Nat) (t : Option TaskId) (cpu ts : Nat) :
    SameTimes s (schedulerUpdateAccounting s pid t cpu ts) := by
  have hsame : ∀ times, SameTimes s { s with timestamps := times } := fun _ =>
    ⟨⟨fun _ => rfl, rfl, rfl⟩, fun _ => rfl, fun _ => rfl, fun _ => rfl⟩
  unfold schedulerUpdateAccounting
  split
  · exact hsame _
  · simp only
    split
    · exact hsame _
    · split
      · exact hsame _
      · exact .refl s

theorem getFromQueue {i : QueueId} {removed : Int}
    (h : schedulerGetFromQueue s p i = (some (t, removed), s₁)) : SameTimes s s₁ := by
  obtain ⟨-, -, rfl⟩ := schedulerGetFromQueue_some h
  split
  · exact (SameTimes.schedule s t).trans (.popQueue ..)
  · exact (SameTimes.schedule s t).trans (.modTask _ t fun _ => ⟨rfl, rfl⟩)

end SameTimes

/-! ## What happens to the waiting tasks -/

/-- Task `t` is in the deadline tree of process `p`. -/
def Scheduler.WaitsIn (s : Scheduler) (p : Nat) (t : TaskId) : Prop :=
  t ∈ inorder (s.proc p).deadlineTasks

instance (s : Scheduler) (p : Nat) (t : TaskId) : Decidable (s.WaitsIn p t) :=
  inferInstanceAs (Decidable (t ∈ inorder _))

/-- The `now` of every process is a reading of the clock. -/
def NowRead (s : Scheduler) : Prop :=
  ∀ p, (s.proc p).now = 0 ∨ ∃ n < s.ticks, (s.proc p).now = s.clock n

theorem NowRead.same (h : NowRead s) (hsame : SameClocks s s') : NowRead s' := by
  intro p
  rw [hsame.now, hsame.clock, hsame.ticks]
  exact h p

/-- A task waits once, and the clocks have been read. -/
structure Timed (s : Scheduler) : Prop where
  nodup : DeadlineNodup s
  apart : ∀ p q t, s.WaitsIn p t → s.WaitsIn q t → p = q
  read : NowRead s

theorem Base.timed (h : Base topo s) (hread : NowRead s) : Timed s := by
  refine ⟨h.deadlineNodup, fun p q t hp hq => ?_, hread⟩
  have hplace : t ∈ s.places (p, .deadline) := Multiset.mem_coe.mpr hp
  have hplace' : t ∈ s.places (q, .deadline) := Multiset.mem_coe.mpr hq
  exact congrArg Prod.fst (h.linked.distinct.inj hplace hplace')

/-- Nothing has happened to the wait of task `t`. -/
structure Kept (s s' : Scheduler) (t : TaskId) : Prop where
  waits : ∀ q, s'.WaitsIn q t ↔ s.WaitsIn q t
  deadline : (s'.task t).deadline = (s.task t).deadline
  state : (s'.task t).deadlineState = (s.task t).deadlineState

/-- Task `t` waits no more: a reading of the clock was later. -/
structure Lapsed (s s' : Scheduler) (t : TaskId) : Prop where
  waited : ∃ q, s.WaitsIn q t
  gone : ∀ q, ¬ s'.WaitsIn q t
  state : (s'.task t).deadlineState = .none
  passed : ∃ n < s'.ticks, (s.task t).deadline < s.clock n

structure Lapses (s s' : Scheduler) : Prop where
  timed : Timed s'
  task : ∀ t, Kept s s' t ∨ Lapsed s s' t
  clock : s'.clock = s.clock
  ticks : s.ticks ≤ s'.ticks

/-- From a state in which the clocks were read, waiting tasks only lapse. -/
def Passes (s s' : Scheduler) : Prop := Timed s → Lapses s s'

theorem Passes.of_same (h : SameTimes s s') : Passes s s' := by
  intro hs
  have hwaits : ∀ q t, s'.WaitsIn q t ↔ s.WaitsIn q t := by
    intro q t
    unfold Scheduler.WaitsIn
    rw [h.tree]
  refine ⟨⟨fun q => ?_, fun q r t hq hr => ?_, hs.read.same h.toSameClocks⟩, fun t => .inl ?_,
    h.clock, h.ticks.ge⟩
  · rw [h.tree]
    exact hs.nodup q
  · exact hs.apart q r t ((hwaits q t).mp hq) ((hwaits r t).mp hr)
  · exact ⟨fun q => hwaits q t, h.deadline t, h.state t⟩

theorem Passes.refl (s : Scheduler) : Passes s s := .of_same (.refl s)

theorem Passes.trans (h : Passes s s') (h' : Passes s' s'') : Passes s s'' := by
  intro hs
  obtain ⟨hs', htask, hclock, hticks⟩ := h hs
  obtain ⟨hs'', htask', hclock', hticks'⟩ := h' hs'
  refine ⟨hs'', fun t => ?_, hclock'.trans hclock, hticks.trans hticks'⟩
  rcases htask t with hkept | hlapsed
  · rcases htask' t with hkept' | hlapsed'
    · exact .inl ⟨fun q => (hkept'.waits q).trans (hkept.waits q),
        hkept'.deadline.trans hkept.deadline, hkept'.state.trans hkept.state⟩
    · obtain ⟨q, hq⟩ := hlapsed'.waited
      obtain ⟨n, hn, hlt⟩ := hlapsed'.passed
      rw [hkept.deadline, hclock] at hlt
      exact .inr ⟨⟨q, (hkept.waits q).mp hq⟩, hlapsed'.gone, hlapsed'.state, n, hn, hlt⟩
  · rcases htask' t with hkept' | hlapsed'
    · obtain ⟨n, hn, hlt⟩ := hlapsed.passed
      exact .inr ⟨hlapsed.waited, fun q hq => hlapsed.gone q ((hkept'.waits q).mp hq),
        hkept'.state.trans hlapsed.state, n, hn.trans_le hticks', hlt⟩
    · obtain ⟨q, hq⟩ := hlapsed'.waited
      exact absurd hq (hlapsed.gone q)

theorem Passes.then_same (h : Passes s s') (h' : SameTimes s' s'') : Passes s s'' :=
  h.trans (.of_same h')

/-! ## The deadline tree -/

theorem mem_remove_iff (hs : DeadlineNodup s) (ht : s.WaitsIn p t) (u : TaskId) :
    u ∈ inorder (remove t (s.proc p).deadlineTasks) ↔ s.WaitsIn p u ∧ u ≠ t := by
  obtain ⟨l, r, hin, hrem⟩ := inorder_remove ht
  have hnd := hs p
  unfold Scheduler.WaitsIn
  rw [hin] at hnd ⊢
  rw [hrem]
  have hout := (List.nodup_middle.mp hnd).notMem
  constructor
  · intro hu
    refine ⟨?_, ?_⟩
    · rcases List.mem_append.mp hu with hu | hu
      · exact List.mem_append_left _ hu
      · exact List.mem_append_right _ (List.mem_cons_of_mem t hu)
    · rintro rfl
      exact hout hu
  · rintro ⟨hu, hne⟩
    rcases List.mem_append.mp hu with hu | hu
    · exact List.mem_append_left _ hu
    · exact List.mem_append_right _ ((List.mem_cons.mp hu).resolve_left hne)

/-- Task `t` leaves its tree, and its wait is over. -/
theorem Lapses.of_remove (hs : Timed s) (ht : s.WaitsIn p t)
    (htree : ∀ q, (s'.proc q).deadlineTasks =
      if q = p then remove t (s.proc p).deadlineTasks else (s.proc q).deadlineTasks)
    (hsame : SameClocks s s')
    (hother : ∀ u, u ≠ t → (s'.task u).deadline = (s.task u).deadline
      ∧ (s'.task u).deadlineState = (s.task u).deadlineState)
    (hself : (s'.task t).deadlineState = .none)
    (hpassed : ∃ n < s.ticks, (s.task t).deadline < s.clock n) :
    Lapses s s' := by
  have hwaits : ∀ q u, s'.WaitsIn q u ↔ s.WaitsIn q u ∧ u ≠ t := by
    intro q u
    unfold Scheduler.WaitsIn
    rw [htree]
    by_cases hq : q = p
    · subst hq
      rw [if_pos rfl]
      exact mem_remove_iff hs.nodup ht u
    · rw [if_neg hq]
      refine ⟨fun hu => ⟨hu, ?_⟩, fun h => h.1⟩
      rintro rfl
      exact hq (hs.apart q p u hu ht)
  refine ⟨⟨fun q => ?_, fun q r u hq hr => ?_, hs.read.same hsame⟩, fun u => ?_, hsame.clock,
    hsame.ticks.ge⟩
  · rw [htree]
    split
    · obtain ⟨l, r, hin, hrem⟩ := inorder_remove ht
      have hnd := hs.nodup p
      rw [hin] at hnd
      rw [hrem]
      exact (List.nodup_middle.mp hnd).of_cons
    · exact hs.nodup q
  · exact hs.apart q r u ((hwaits q u).mp hq).1 ((hwaits r u).mp hr).1
  · by_cases hu : u = t
    · subst hu
      refine .inr ⟨⟨p, ht⟩, fun q hq => ((hwaits q u).mp hq).2 rfl, hself, ?_⟩
      rwa [hsame.ticks]
    · obtain ⟨hd, hst⟩ := hother u hu
      exact .inl ⟨fun q => (hwaits q u).trans (and_iff_left hu), hd, hst⟩

theorem removeDeadline_tree (s : Scheduler) (p : Nat) (t : TaskId) (q : Nat) :
    ((removeDeadline s p t).proc q).deadlineTasks =
      if q = p then remove t (s.proc p).deadlineTasks else (s.proc q).deadlineTasks := by
  by_cases hq : q = p <;> simp [removeDeadline, Scheduler.modProc, Scheduler.modTask, hq]

/-- A task is taken when its deadline is earlier than `now`. -/
theorem expireDeadline_passes (ht : s.WaitsIn p t) (hlt : (s.task t).deadline < (s.proc p).now) :
    Passes s (expireDeadline s p t) := by
  intro hs
  have hpassed : ∃ n < s.ticks, (s.task t).deadline < s.clock n := by
    rcases hs.read p with hzero | ⟨n, hn, hread⟩
    · rw [hzero] at hlt
      exact absurd hlt (Nat.not_lt_zero _)
    · exact ⟨n, hn, hread ▸ hlt⟩
  refine .of_remove hs ht (removeDeadline_tree s p t) ⟨fun q => ?_, rfl, rfl⟩ (fun u hu => ?_) ?_ hpassed
  · by_cases hq : q = p <;>
      simp [expireDeadline, removeDeadline, Scheduler.modProc, Scheduler.modTask, hq]
  · rw [expireDeadline_task_ne hu]
    exact ⟨rfl, rfl⟩
  · simp [expireDeadline, Scheduler.modTask, deadlineTaskWakeUp]

theorem updateNow_passes (s : Scheduler) (p : Nat) : Passes s (updateNow s p) := by
  intro hs
  have htree : ∀ q, ((updateNow s p).proc q).deadlineTasks = (s.proc q).deadlineTasks :=
    updateNow_deadlineTasks s p
  have hwaits : ∀ q u, (updateNow s p).WaitsIn q u ↔ s.WaitsIn q u := by
    intro q u
    unfold Scheduler.WaitsIn
    rw [htree]
  refine ⟨⟨fun q => ?_, fun q r u hq hr => ?_, fun q => ?_⟩,
    fun u => .inl ⟨fun q => hwaits q u, rfl, rfl⟩, rfl, Nat.le_succ _⟩
  · rw [htree]
    exact hs.nodup q
  · exact hs.apart q r u ((hwaits q u).mp hq) ((hwaits r u).mp hr)
  · by_cases hq : q = p
    · subst hq
      exact .inr ⟨s.ticks, Nat.lt_succ_self _, by simp [updateNow, Scheduler.modProc]⟩
    · have hnow : ((updateNow s p).proc q).now = (s.proc q).now := by
        simp [updateNow, Scheduler.modProc, hq]
      rw [hnow]
      refine (hs.read q).imp_right fun hnow => ?_
      obtain ⟨n, hn, hread⟩ := hnow
      exact ⟨n, Nat.lt_succ_of_lt hn, hread⟩

theorem getDeadlineExpired_passes {r : Option TaskId}
    (h : schedulerGetDeadlineExpired s p = (r, s')) : Passes s s' := by
  unfold schedulerGetDeadlineExpired at h
  split at h
  · obtain ⟨rfl, rfl⟩ := Prod.mk.injEq .. |>.mp h
    exact .refl s
  · rename_i t hmin
    split at h
    · rename_i hlt
      obtain ⟨rfl, rfl⟩ := Prod.mk.injEq .. |>.mp h
      exact expireDeadline_passes (min?_mem hmin) hlt
    · simp only at h
      split at h
      · rename_i hlt
        obtain ⟨rfl, rfl⟩ := Prod.mk.injEq .. |>.mp h
        refine (updateNow_passes s p).trans (expireDeadline_passes ?_ hlt)
        unfold Scheduler.WaitsIn
        rw [updateNow_deadlineTasks]
        exact min?_mem hmin
      · obtain ⟨rfl, rfl⟩ := Prod.mk.injEq .. |>.mp h
        exact updateNow_passes s p

/-! ## The passes of a search -/

theorem findDeadline_passes :
    ∀ {n : Nat} {s s' : Scheduler} {r : Option TaskId},
      findDeadline topo p cpu n s = (r, s') → Passes s s'
  | 0, s, s', r, h => by
      obtain ⟨rfl, rfl⟩ := Prod.mk.injEq .. |>.mp h
      exact .refl s
  | n + 1, s, s', r, h => by
      rw [findDeadline] at h
      split at h
      · rename_i s₂ hget
        obtain ⟨rfl, rfl⟩ := Prod.mk.injEq .. |>.mp h
        exact getDeadlineExpired_passes hget
      · rename_i t s₂ hget
        have hfirst := getDeadlineExpired_passes hget
        split at h
        · obtain ⟨rfl, rfl⟩ := Prod.mk.injEq .. |>.mp h
          exact hfirst.then_same (.schedule ..)
        · exact (hfirst.then_same (.insertAffine ..)).trans (findDeadline_passes h)

theorem findYield_passes :
    ∀ {n : Nat} {s s' : Scheduler} {r : Option TaskId},
      findYield topo p cpu n s = (r, s') → Passes s s'
  | 0, s, s', r, h => by
      obtain ⟨rfl, rfl⟩ := Prod.mk.injEq .. |>.mp h
      exact .refl s
  | n + 1, s, s', r, h => by
      have hyield : ∀ {r₁ : Option TaskId} {s₁ : Scheduler},
          schedulerGetYieldExpired s p = (r₁, s₁) → SameTimes s s₁ := by
        intro r₁ s₁ hget
        unfold schedulerGetYieldExpired at hget
        split at hget
        · obtain ⟨rfl, rfl⟩ := Prod.mk.injEq .. |>.mp hget
          exact .refl s
        · split at hget
          · obtain ⟨rfl, rfl⟩ := Prod.mk.injEq .. |>.mp hget
            exact .popYield ..
          · obtain ⟨rfl, rfl⟩ := Prod.mk.injEq .. |>.mp hget
            exact .refl s
      rw [findYield] at h
      split at h
      · rename_i s₂ hget
        obtain ⟨rfl, rfl⟩ := Prod.mk.injEq .. |>.mp h
        exact .of_same (hyield hget)
      · rename_i t s₂ hget
        split at h
        · obtain ⟨rfl, rfl⟩ := Prod.mk.injEq .. |>.mp h
          exact .of_same ((hyield hget).trans (.schedule ..))
        · exact (Passes.of_same ((hyield hget).trans (.insertAffine ..))).trans (findYield_passes h)

theorem getFromQueues_passes :
    ∀ {is : List QueueId} {r : Option (TaskId × Int)},
      getFromQueues p is s = (r, s') → Passes s s'
  | [], r, h => by
      obtain ⟨rfl, rfl⟩ := Prod.mk.injEq .. |>.mp h
      exact .refl s
  | i :: is, r, h => by
      rw [getFromQueues] at h
      split at h
      · rename_i t removed s₁ hget
        obtain ⟨rfl, rfl⟩ := Prod.mk.injEq .. |>.mp h
        exact .of_same ((SameTimes.getFromQueue hget).trans (.taskObtained ..))
      · rename_i s₁ hget
        rw [schedulerGetFromQueue_none hget] at h
        exact getFromQueues_passes h

theorem findMain_passes :
    ∀ {n : Nat} {s s' : Scheduler} {r : Option (TaskId × Int)},
      findMain topo p cpu n s = (r, s') → Passes s s'
  | 0, s, s', r, h => by
      obtain ⟨rfl, rfl⟩ := Prod.mk.injEq .. |>.mp h
      exact .refl s
  | n + 1, s, s', r, h => by
      rw [findMain] at h
      split at h
      · obtain ⟨rfl, rfl⟩ := Prod.mk.injEq .. |>.mp h
        exact .refl s
      · split at h
        · exact getFromQueues_passes h
        · exact (Passes.of_same ((SameTimes.popQueue ..).trans (.insertAffine ..))).trans
            (findMain_passes h)

theorem findTaskProcess_passes {r : Option (TaskId × Int)}
    (h : schedulerFindTaskProcess topo cpu s p = (r, s')) : Passes s s' := by
  unfold schedulerFindTaskProcess at h
  split at h
  · obtain ⟨rfl, rfl⟩ := Prod.mk.injEq .. |>.mp h
    exact .refl s
  · split at h
    · rename_i t s₁ hdl
      obtain ⟨rfl, rfl⟩ := Prod.mk.injEq .. |>.mp h
      exact (findDeadline_passes hdl).then_same (.taskObtained ..)
    · rename_i s₁ hdl
      refine (findDeadline_passes hdl).trans ?_
      split at h
      · rename_i t s₂ hy
        obtain ⟨rfl, rfl⟩ := Prod.mk.injEq .. |>.mp h
        exact (findYield_passes hy).then_same (.taskObtained ..)
      · rename_i s₂ hy
        refine (findYield_passes hy).trans ?_
        split at h
        · rename_i r₁ s₃ hq
          obtain ⟨rfl, rfl⟩ := Prod.mk.injEq .. |>.mp h
          exact getFromQueues_passes hq
        · rename_i s₃ hq
          exact (getFromQueues_passes hq).trans (findMain_passes h)

theorem findNoaffine_passes {r : Option (TaskId × Int)}
    (h : schedulerFindTaskNoaffineProcess topo s p = (r, s')) : Passes s s' := by
  unfold schedulerFindTaskNoaffineProcess at h
  split at h
  · obtain ⟨rfl, rfl⟩ := Prod.mk.injEq .. |>.mp h
    exact .refl s
  · split at h
    · obtain ⟨rfl, rfl⟩ := Prod.mk.injEq .. |>.mp h
      exact .refl s
    · exact getFromQueues_passes h

theorem findAnyYield_passes :
    ∀ {n : Nat} {s s' : Scheduler} {r : Option TaskId},
      findAnyYield topo p cpu n s = (r, s') → Passes s s'
  | 0, s, s', r, h => by
      obtain ⟨rfl, rfl⟩ := Prod.mk.injEq .. |>.mp h
      exact .refl s
  | n + 1, s, s', r, h => by
      rw [findAnyYield] at h
      split at h
      · obtain ⟨rfl, rfl⟩ := Prod.mk.injEq .. |>.mp h
        exact .refl s
      · simp only at h
        split at h
        · obtain ⟨rfl, rfl⟩ := Prod.mk.injEq .. |>.mp h
          exact .of_same ((SameTimes.popYield ..).trans (.schedule ..))
        · exact (Passes.of_same ((SameTimes.popYield ..).trans (.insertAffine ..))).trans
            (findAnyYield_passes h)

theorem findTaskYieldProcess_passes {r : Option (TaskId × Int)}
    (h : schedulerFindTaskYieldProcess topo cpu s p = (r, s')) : Passes s s' := by
  unfold schedulerFindTaskYieldProcess at h
  split at h
  · rename_i t s₁ hy
    obtain ⟨rfl, rfl⟩ := Prod.mk.injEq .. |>.mp h
    exact (findAnyYield_passes hy).then_same (.taskObtained ..)
  · rename_i s₁ hy
    obtain ⟨rfl, rfl⟩ := Prod.mk.injEq .. |>.mp h
    exact findAnyYield_passes hy

theorem foreachDo_passes {f : Scheduler → Nat → Option (TaskId × Int) × Scheduler}
    (hf : ∀ {s s' p r}, f s p = (r, s') → Passes s s') {external : Bool} {pid : Nat} :
    ∀ {order : List Nat} {s s' : Scheduler} {r : Option TaskId},
      schedulerForeachDo f external pid order s = (r, s') → Passes s s'
  | [], s, s', r, h => by
      obtain ⟨rfl, rfl⟩ := Prod.mk.injEq .. |>.mp h
      exact .refl s
  | p :: order, s, s', r, h => by
      rw [schedulerForeachDo] at h
      split at h
      · exact foreachDo_passes hf h
      · split at h
        · rename_i t removed s₁ hfind
          obtain ⟨rfl, rfl⟩ := Prod.mk.injEq .. |>.mp h
          exact (hf hfind).then_same (.countServed ..)
        · rename_i s₁ hfind
          exact (hf hfind).trans (foreachDo_passes hf h)

theorem getInternal_passes {pid ts : Nat} {external : Bool} {r : Option TaskId}
    (h : schedulerGetInternal topo s cpu pid external ts = (r, s')) : Passes s s' := by
  unfold schedulerGetInternal at h
  split at h
  · obtain ⟨rfl, rfl⟩ := Prod.mk.injEq .. |>.mp h
    exact .of_same (.updateAccounting ..)
  · simp only at h
    split at h
    · rename_i t s₁ hfirst
      obtain ⟨rfl, rfl⟩ := Prod.mk.injEq .. |>.mp h
      exact (foreachDo_passes findTaskProcess_passes hfirst).then_same (.updateAccounting ..)
    · rename_i s₁ hfirst
      refine (foreachDo_passes findTaskProcess_passes hfirst).trans ?_
      split at h
      · rename_i t s₂ hsecond
        obtain ⟨rfl, rfl⟩ := Prod.mk.injEq .. |>.mp h
        exact (foreachDo_passes findNoaffine_passes hsecond).then_same (.updateAccounting ..)
      · rename_i s₂ hsecond
        refine (foreachDo_passes findNoaffine_passes hsecond).trans ?_
        split at h
        · rename_i t s₃ hthird
          obtain ⟨rfl, rfl⟩ := Prod.mk.injEq .. |>.mp h
          exact (foreachDo_passes findTaskYieldProcess_passes hthird).then_same (.updateAccounting ..)
        · rename_i s₃ hthird
          obtain ⟨rfl, rfl⟩ := Prod.mk.injEq .. |>.mp h
          exact foreachDo_passes findTaskYieldProcess_passes hthird

theorem get_lapses (hb : Base topo s) (hread : NowRead s) (cpu pid : Nat) (external : Bool) (ts : Nat) :
    Lapses s (schedulerGetInternal topo s cpu pid external ts).2 := by
  cases hget : schedulerGetInternal topo s cpu pid external ts with
  | mk r s' => exact getInternal_passes hget (hb.timed hread)

end Nosv
