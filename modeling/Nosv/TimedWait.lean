import Nosv.DeadlineLapse
import Nosv.Runtime
import Nosv.YieldOrder

/-!
# Timed waits

`nosv_waitfor` hands the task to the scheduler with the deadline
`start + timeout`, a wrapping sum whose zero means that there is no deadline.
The scheduler increments it while another task of the process has the same
one, and hands the task out when a reading of the clock is later.
-/

namespace Nosv

open RBTree Relation Places

variable {topo : Topology} {s s₁ s' : Scheduler} {p : Nat} {t : TaskId}

/-! ## Insertion -/

theorem SameClocks.modTask (s : Scheduler) (t : TaskId) (f : Task → Task) :
    SameClocks s (s.modTask t f) := ⟨fun _ => rfl, rfl, rfl⟩

theorem SameClocks.modProc (s : Scheduler) (p : Nat) {g : ProcessScheduler → ProcessScheduler}
    (hg : ∀ ps, (g ps).now = ps.now) : SameClocks s (s.modProc p g) := by
  refine ⟨fun q => ?_, rfl, rfl⟩
  by_cases hq : q = p
  · subst hq
    rw [modProc_proc_self, hg (s.proc q)]
  · rw [modProc_proc_ne hq]

theorem insertDeadline_clocks :
    ∀ {n : Nat} {s s' : Scheduler}, insertDeadline s p t n = some s' → SameClocks s s'
  | 0, s, s', h => by cases h
  | n + 1, s, s', h => by
      rw [insertDeadline] at h
      split at h
      · obtain rfl := Option.some.inj h
        exact (SameClocks.modTask ..).trans (.modProc _ p fun _ => rfl)
      · exact (SameClocks.modTask ..).trans (insertDeadline_clocks h)

theorem insertContainer_clocks (h : insertContainer s p t = some s') : SameClocks s s' := by
  unfold insertContainer at h
  split at h
  · obtain rfl := Option.some.inj h
    exact (SameClocks.modTask ..).trans (.modProc _ p fun _ => rfl)
  · split at h
    · split at h
      · exact (SameClocks.modTask ..).trans (insertDeadline_clocks h)
      · obtain rfl := Option.some.inj h
        exact (SameClocks.modTask ..).trans (SameTimes.addQueue ..).toSameClocks
    · obtain rfl := Option.some.inj h
      exact (SameTimes.addQueue ..).toSameClocks

/-- A new process reads the clock. -/
theorem insert_clocks (hread : NowRead s) (h : schedulerInsertReadyTask s t = some s') :
    NowRead s' ∧ s'.clock = s.clock := by
  have hnew : NowRead (ensurePid s (s.task t).pid) ∧ (ensurePid s (s.task t).pid).clock = s.clock := by
    unfold ensurePid
    split
    · exact ⟨hread, rfl⟩
    · refine ⟨fun q => ?_, rfl⟩
      by_cases hq : q = (s.task t).pid
      · subst hq
        exact .inr ⟨s.ticks, Nat.lt_succ_self _, by simp [schedulerInitPid, emptyProcess]⟩
      · have hnow : ((schedulerInitPid s (s.task t).pid).proc q).now = (s.proc q).now := by
          simp [schedulerInitPid, hq]
        rw [hnow]
        refine (hread q).imp_right fun hnow => ?_
        obtain ⟨n, hn, heq⟩ := hnow
        exact ⟨n, Nat.lt_succ_of_lt hn, heq⟩
  unfold schedulerInsertReadyTask at h
  simp only at h
  split at h
  · cases h
  · rename_i s₁ hcont
    obtain rfl := Option.some.inj h
    have hclocks := insertContainer_clocks hcont
    have hadd : SameClocks s₁ (addDegree s₁ (s.task t).pid (taskGetDegree (s.task t))) :=
      ⟨(SameClocks.modProc s₁ _ (g := fun ps => { ps with tasks := sizeT (ps.tasks + _) })
        fun _ => rfl).now, rfl, rfl⟩
    exact ⟨(hnew.1.same hclocks).same hadd, hadd.clock.trans (hclocks.clock.trans hnew.2)⟩

/-- Only a task with a deadline goes to the tree, and the others stay. -/
theorem insert_waits (hb : Base topo s) (ht : Absent s.places t)
    (h : schedulerInsertReadyTask s t = some s') (q : Nat) (u : TaskId) :
    s'.WaitsIn q u ↔
      (q = (s.task t).pid ∧ readyContainer (s.task t) = .deadline) ∧ u = t ∨ s.WaitsIn q u := by
  obtain ⟨s₁, hadds, rfl⟩ := insert_cases hb ht h
  obtain ⟨-, hplaces, -⟩ := hb.ensurePid (s.task t).pid
  have hiff : u ∈ (addDegree s₁ (s.task t).pid (s.task t).degree).places (q, .deadline)
      ↔ ((q, .deadline) = ((s.task t).pid, readyContainer (s.task t)) ∧ u = t)
        ∨ u ∈ s.places (q, .deadline) := by
    rw [addDegree_places, hadds.places, mem_add, hplaces]
  rw [Prod.mk.injEq, eq_comm (a := Container.deadline)] at hiff
  exact hiff

/-- A waiting task of process `p` has the deadline `d`. -/
def Scheduler.Taken (s : Scheduler) (p d : Nat) : Prop :=
  ∃ u, s.WaitsIn p u ∧ (s.task u).deadline = d

theorem taken_modTask (ht : ¬ s.WaitsIn p t) (f : Task → Task) (d : Nat) :
    (s.modTask t f).Taken p d ↔ s.Taken p d := by
  have hother : ∀ u, s.WaitsIn p u → (s.modTask t f).task u = s.task u := by
    intro u hu
    have hne : u ≠ t := by
      rintro rfl
      exact ht hu
    simp [Scheduler.modTask, hne]
  constructor <;>
  · rintro ⟨u, hu, hd⟩
    exact ⟨u, hu, by simpa only [hother u hu] using hd⟩

/-- The deadlines of a tree are distinct. -/
theorem DeadlineSorted.distinct (h : DeadlineSorted s) {u : TaskId} (ht : s.WaitsIn p t)
    (hu : s.WaitsIn p u) (hne : u ≠ t) : (s.task u).deadline ≠ (s.task t).deadline := by
  have hnd : ((inorder (s.proc p).deadlineTasks).map fun u => (s.task u).deadline).Nodup :=
    List.pairwise_map.mpr ((h p).imp fun hlt => hlt.ne)
  exact fun heq => hne (List.inj_on_of_nodup_map hnd hu ht heq)

/-- A deadline that no task of the tree has can be inserted. -/
theorem insert_free (hfree : ¬ s.Taken p (s.task t).deadline) :
    ∃ tree, insert (taskDeadlineCompare s) t (s.proc p).deadlineTasks = some tree := by
  rw [← Option.isSome_iff_exists, Option.isSome_iff_ne_none, ne_eq, insert_eq_none_iff,
    Option.isSome_iff_exists]
  rintro ⟨u, hfind⟩
  obtain ⟨hu, heq⟩ := find_mem hfind
  exact hfree ⟨u, hu, (Nat.compare_eq_eq.mp heq).symm⟩

/-- A deadline that a task of the tree has cannot be inserted. -/
theorem insert_taken (hsorted : DeadlineSorted s) (habs : ∀ q, ¬ s.WaitsIn q t)
    (htaken : s.Taken p (s.task t).deadline) :
    insert (taskDeadlineCompare s) t (s.proc p).deadlineTasks = none := by
  by_contra hne
  obtain ⟨tree, htree⟩ := Option.ne_none_iff_exists'.mp hne
  -- one round of the loop would give a tree with two equal deadlines
  have hround : insertDeadline s p t 1 = some ((s.modTask t fun k => { k with word := 0 }).modProc p
      fun ps => { ps with deadlineTasks := tree }) := by
    rw [insertDeadline, htree]
  have hsorted' := hsorted.insertDeadline habs hround
  obtain ⟨l, r, hin, hnew⟩ := inorder_insert htree
  obtain ⟨u, hu, hd⟩ := htaken
  have hut : u ≠ t := by
    rintro rfl
    exact habs p hu
  have hmem : ∀ v, v ∈ l ++ t :: r → Scheduler.WaitsIn ((s.modTask t fun k => { k with word := 0 }).modProc p
      fun ps => { ps with deadlineTasks := tree }) p v := by
    intro v hv
    unfold Scheduler.WaitsIn
    rw [modProc_proc_self, hnew]
    exact hv
  refine hsorted'.distinct (hmem t (by simp)) (hmem u ?_) hut ?_
  · unfold Scheduler.WaitsIn at hu
    rw [hin] at hu
    rcases List.mem_append.mp hu with hu | hu
    · exact List.mem_append_left _ hu
    · exact List.mem_append_right _ (List.mem_cons_of_mem t hu)
  · simp [Scheduler.modTask, Scheduler.modProc, hut, hd]

/-- The loop stops at the first deadline that is free. -/
theorem insertDeadline_first {f : Nat} (hf : f < 18446744073709551616) :
    ∀ {n : Nat} {s : Scheduler}, DeadlineSorted s → (∀ q, ¬ s.WaitsIn q t) →
      (s.task t).deadline ≤ f → f < (s.task t).deadline + n →
      (∀ d, (s.task t).deadline ≤ d → d < f → s.Taken p d) → ¬ s.Taken p f →
      ∃ s', insertDeadline s p t n = some s' ∧ (s'.task t).deadline = f
  | 0, s, _, _, hle, hlt, _, _ => absurd hlt (Nat.not_lt.mpr hle)
  | n + 1, s, hsorted, habs, hle, hlt, htaken, hfree => by
      rw [insertDeadline]
      rcases Nat.eq_or_lt_of_le hle with heq | hbelow
      · obtain ⟨tree, htree⟩ := insert_free (s := s) (p := p) (t := t) (by rwa [heq])
        rw [htree]
        exact ⟨_, rfl, by simp [Scheduler.modTask, Scheduler.modProc, heq]⟩
      · rw [insert_taken hsorted habs (htaken _ le_rfl hbelow)]
        simp only
        have hnext : ((s.modTask t fun k => { k with deadline := u64 (k.deadline + 1) }).task t).deadline
            = (s.task t).deadline + 1 := by
          simp only [Scheduler.modTask, Function.update_self, u64]
          omega
        refine insertDeadline_first hf (hsorted.modTask (.inl habs)) habs ?_ ?_ ?_ ?_
        · rw [hnext]
          exact hbelow
        · rw [hnext]
          omega
        · intro d hd hdf
          rw [hnext] at hd
          exact (taken_modTask (habs p) _ d).mpr (htaken d (by omega) hdf)
        · rwa [taken_modTask (habs p)]

/-- Consecutive deadlines that are taken are deadlines of as many tasks. -/
theorem taken_count {d f : Nat} (htaken : ∀ e, d ≤ e → e < f → s.Taken p e) :
    f - d ≤ size (s.proc p).deadlineTasks := by
  have hsub : List.range' d (f - d) ⊆
      (inorder (s.proc p).deadlineTasks).map fun u => (s.task u).deadline := by
    intro e he
    obtain ⟨hde, hef⟩ := List.mem_range'_1.mp he
    obtain ⟨u, hu, hd⟩ := htaken e hde (by omega)
    exact List.mem_map.mpr ⟨u, hu, hd⟩
  have hle := (List.subperm_of_subset List.nodup_range' hsub).length_le
  rwa [List.length_range', List.length_map] at hle

theorem insertDeadline_keeps :
    ∀ {n : Nat} {s s' : Scheduler}, insertDeadline s p t n = some s' →
      (s.task t).deadline < 18446744073709551616 →
      (s'.task t).deadline < 18446744073709551616
        ∧ (s'.task t).deadlineState = (s.task t).deadlineState
  | 0, s, s', h, _ => by cases h
  | n + 1, s, s', h, hlt => by
      rw [insertDeadline] at h
      split at h
      · obtain rfl := Option.some.inj h
        simpa [Scheduler.modTask, Scheduler.modProc] using hlt
      · obtain ⟨hlt', hstate⟩ := insertDeadline_keeps h
          (by simpa [Scheduler.modTask, u64] using Nat.mod_lt _ (by decide))
        exact ⟨hlt', by simpa [Scheduler.modTask] using hstate⟩

theorem waitsIn_ensurePid (hb : Base topo s) (pid q : Nat) (u : TaskId) :
    (ensurePid s pid).WaitsIn q u ↔ s.WaitsIn q u := by
  obtain ⟨-, hplaces, -⟩ := hb.ensurePid pid
  have hiff : u ∈ (ensurePid s pid).places (q, .deadline) ↔ u ∈ s.places (q, .deadline) := by
    rw [hplaces]
  exact hiff

theorem taken_ensurePid (hb : Base topo s) (pid d : Nat) :
    (ensurePid s pid).Taken p d ↔ s.Taken p d := by
  simp only [Scheduler.Taken, waitsIn_ensurePid hb, ensurePid_task]

theorem not_waits_of_absent (ht : Absent s.places t) (q : Nat) : ¬ s.WaitsIn q t :=
  absent_deadline ht q

theorem readyContainer_deadline {k : Task} :
    readyContainer k = .deadline ↔ k.yield = 0 ∧ k.deadline ≠ 0 ∧ k.deadlineState = .pending := by
  unfold readyContainer
  split
  · rename_i hy
    exact ⟨fun h => (by cases h), fun h => absurd h.1 hy⟩
  · rename_i hy
    rw [ne_eq, not_not] at hy
    split
    · rename_i hd
      exact ⟨fun _ => ⟨hy, hd⟩, fun _ => rfl⟩
    · rename_i hd
      exact ⟨fun h => (by cases h), fun h => absurd h.2 hd⟩

/-- The insertion of a task with a deadline is the loop. -/
theorem insertContainer_deadline (hk : readyContainer (s.task t) = .deadline) :
    insertContainer s p t = insertDeadline (s.modTask t fun k => { k with deadlineState := .waiting })
      p t (size (s.proc p).deadlineTasks + 1) := by
  obtain ⟨hy, hd, hpending⟩ := readyContainer_deadline.mp hk
  simp [insertContainer, hy, hd, hpending]

/-- The deadline in the tree is the first that is free. -/
theorem insert_first {f : Nat} (hb : Base topo s) (hsorted : DeadlineSorted s)
    (ht : Absent s.places t) (hk : readyContainer (s.task t) = .deadline)
    (hf : f < 18446744073709551616) (hle : (s.task t).deadline ≤ f)
    (htaken : ∀ d, (s.task t).deadline ≤ d → d < f → s.Taken (s.task t).pid d)
    (hfree : ¬ s.Taken (s.task t).pid f) :
    ∃ s', schedulerInsertReadyTask s t = some s' ∧ (s'.task t).deadline = f := by
  have habs : ∀ q, ¬ (ensurePid s (s.task t).pid).WaitsIn q t := fun q hq =>
    not_waits_of_absent ht q ((waitsIn_ensurePid hb _ q t).mp hq)
  have hloop : ∃ s₁, insertContainer (ensurePid s (s.task t).pid) (s.task t).pid t = some s₁
      ∧ (s₁.task t).deadline = f := by
    rw [insertContainer_deadline (by rwa [ensurePid_task])]
    have hdeadline : (((ensurePid s (s.task t).pid).modTask t
        fun k => { k with deadlineState := .waiting }).task t).deadline = (s.task t).deadline := by
      simp [Scheduler.modTask, ensurePid_task]
    refine insertDeadline_first hf ((hsorted.thin (thins_ensurePid s _)).modTask (.inr rfl)) habs
      ?_ ?_ ?_ ?_
    · rwa [hdeadline]
    · have hcount : f - (s.task t).deadline
          ≤ size ((ensurePid s (s.task t).pid).proc (s.task t).pid).deadlineTasks :=
        taken_count fun e hde hef => (taken_ensurePid hb _ e).mpr (htaken e hde hef)
      rw [hdeadline]
      omega
    · intro d hd hdf
      rw [hdeadline] at hd
      exact (taken_modTask (habs _) _ d).mpr ((taken_ensurePid hb _ d).mpr (htaken d hd hdf))
    · rwa [taken_modTask (habs _), taken_ensurePid hb]
  obtain ⟨s₁, hcont, hd⟩ := hloop
  refine ⟨_, by rw [schedulerInsertReadyTask, hcont], ?_⟩
  exact hd

/-- The task waits in the tree, with a deadline that no other task has. -/
theorem insert_placed (hb : Base topo s) (hsorted : DeadlineSorted s) (ht : Absent s.places t)
    (hk : readyContainer (s.task t) = .deadline)
    (hlt : (s.task t).deadline < 18446744073709551616)
    (h : schedulerInsertReadyTask s t = some s') :
    s'.WaitsIn (s.task t).pid t ∧ (s'.task t).deadlineState = .waiting
      ∧ (s'.task t).deadline < 18446744073709551616
      ∧ (∀ u, s'.WaitsIn (s.task t).pid u → u ≠ t → (s'.task u).deadline ≠ (s'.task t).deadline)
      ∧ ¬ s.Taken (s.task t).pid (s'.task t).deadline := by
  have hmem : s'.WaitsIn (s.task t).pid t := (insert_waits hb ht h _ t).mpr (.inl ⟨⟨rfl, hk⟩, rfl⟩)
  have hdistinct : ∀ u, s'.WaitsIn (s.task t).pid u → u ≠ t →
      (s'.task u).deadline ≠ (s'.task t).deadline := fun u hu hne =>
    (hsorted.insert hb ht h).distinct hmem hu hne
  have hkeeps : (s'.task t).deadline < 18446744073709551616
      ∧ (s'.task t).deadlineState = .waiting := by
    unfold schedulerInsertReadyTask at h
    simp only at h
    split at h
    · cases h
    · rename_i s₁ hcont
      obtain rfl := Option.some.inj h
      rw [insertContainer_deadline (by rwa [ensurePid_task])] at hcont
      obtain ⟨hd, hst⟩ := insertDeadline_keeps hcont
        (by simpa [Scheduler.modTask, ensurePid_task] using hlt)
      refine ⟨hd, ?_⟩
      show (s₁.task t).deadlineState = .waiting
      rw [hst]
      simp [Scheduler.modTask]
  refine ⟨hmem, hkeeps.2, hkeeps.1, hdistinct, ?_⟩
  rintro ⟨u, hu, hd⟩
  have hne : u ≠ t := by
    rintro rfl
    exact not_waits_of_absent ht _ hu
  refine hdistinct u ((insert_waits hb ht h _ u).mpr (.inr hu)) hne ?_
  rw [(YieldLog.insert_yields hb h).1 u hne, hd]

/-! ## While a task waits -/

/-- A step that neither wakes task `t` nor is made for it. -/
def LeavesAlone (t : TaskId) : SchedOp → Prop
  | .wake u => u ≠ t
  | .prepare u _ => u ≠ t
  | .insert u => u ≠ t
  | _ => True

instance (t : TaskId) : ∀ op, Decidable (LeavesAlone t op)
  | .wake _ => inferInstanceAs (Decidable (_ ≠ _))
  | .prepare .. => inferInstanceAs (Decidable (_ ≠ _))
  | .insert _ => inferInstanceAs (Decidable (_ ≠ _))
  | .get .. => isTrue trivial
  | .purge _ => isTrue trivial
  | .cancel _ => isTrue trivial

theorem Kept.refl (s : Scheduler) (t : TaskId) : Kept s s t := ⟨fun _ => Iff.rfl, rfl, rfl⟩

theorem Kept.trans {s'' : Scheduler} (h : Kept s s' t) (h' : Kept s' s'' t) : Kept s s'' t :=
  ⟨fun q => (h'.waits q).trans (h.waits q), h'.deadline.trans h.deadline, h'.state.trans h.state⟩

theorem Kept.of_ne {u : TaskId} (hu : t ≠ u) (f : Task → Task) : Kept s (s.modTask u f) t :=
  ⟨fun _ => Iff.rfl, by simp [Scheduler.modTask, hu], by simp [Scheduler.modTask, hu]⟩

/-- A purge takes only tasks that have been woken. -/
theorem purgeSteps_kept (hb : Base topo s) (hstate : ∀ q, s.WaitsIn q t → (s.task t).deadlineState ≠ .ready)
    (h : ReflTransGen PurgeStep s s') : Base topo s' ∧ Kept s s' t := by
  induction h with
  | refl => exact ⟨hb, .refl s t⟩
  | tail _ hstep ih =>
      obtain ⟨hb₁, hkept⟩ := ih
      refine ⟨hb₁.purgeStep hstep, hkept.trans ?_⟩
      obtain ⟨p, u, hu, hready, rfl⟩ := hstep
      have hne : t ≠ u := by
        rintro rfl
        rw [hkept.state] at hready
        exact hstate p ((hkept.waits p).mp hu) hready
      refine ⟨fun q => ?_, ?_, ?_⟩
      · unfold Scheduler.WaitsIn
        rw [purgeTask_deadlineTasks]
        by_cases hq : q = p
        · subst hq
          rw [if_pos rfl]
          exact (mem_remove_iff hb₁.deadlineNodup hu t).trans (and_iff_left hne)
        · rw [if_neg hq]
      · simp [purgeTask, addQueue, removeDeadline, Scheduler.setQueue, Scheduler.modProc,
          Scheduler.modTask, hne]
      · simp [purgeTask, addQueue, removeDeadline, Scheduler.setQueue, Scheduler.modProc,
          Scheduler.modTask, hne]

theorem purgeTask_clocks (s : Scheduler) (p : Nat) (t : TaskId) : SameClocks s (purgeTask s p t) := by
  refine ⟨fun q => ?_, rfl, rfl⟩
  by_cases hq : q = p <;>
    simp [purgeTask, addQueue, removeDeadline, Scheduler.setQueue, Scheduler.modProc,
      Scheduler.modTask, hq]

theorem purgeProcess_clocks :
    ∀ {ts : List TaskId} {n n' : Nat} {s s' : Scheduler},
      purgeProcess s p ts n = (s', n') → SameClocks s s'
  | [], n, n', s, s', h => by
      obtain ⟨rfl, rfl⟩ := Prod.mk.injEq .. |>.mp h
      exact .refl s
  | t :: ts, n, n', s, s', h => by
      rw [purgeProcess] at h
      split at h
      · split at h
        · obtain ⟨rfl, rfl⟩ := Prod.mk.injEq .. |>.mp h
          exact purgeTask_clocks s p t
        · exact (purgeTask_clocks s p t).trans (purgeProcess_clocks h)
      · exact purgeProcess_clocks h

theorem purgeProcesses_clocks :
    ∀ {ps : List Nat} {n : Nat} {s : Scheduler}, SameClocks s (purgeProcesses s ps n)
  | [], _, s => .refl s
  | p :: ps, n, s => by
      rw [purgeProcesses]
      cases hp : purgeProcess s p (inorder (s.proc p).deadlineTasks) n with
      | mk s' n' =>
          simp only
          split
          · exact purgeProcess_clocks hp
          · exact (purgeProcess_clocks hp).trans purgeProcesses_clocks

theorem purge_clocks (s : Scheduler) (logicPid : Nat) :
    SameClocks s (schedulerDeadlinePurge s logicPid) := by
  unfold schedulerDeadlinePurge
  simp only
  split
  · exact .refl s
  · have hclocks : SameClocks s (schedulerDeadlinePurgeInternal s logicPid s.deadlinePurge) := by
      unfold schedulerDeadlinePurgeInternal
      split
      · exact .refl s
      · exact purgeProcesses_clocks
    exact ⟨hclocks.now, hclocks.clock, hclocks.ticks⟩

/-- The clocks after a step. -/
theorem nowRead_step {a a' : Accounts} {op : SchedOp} (hb : Base topo a.sched)
    (hread : NowRead a.sched) (hstep : a.step topo op = some a') :
    NowRead a'.sched ∧ a'.sched.clock = a.sched.clock := by
  have hsame : SameClocks a.sched a'.sched → NowRead a'.sched ∧ a'.sched.clock = a.sched.clock :=
    fun h => ⟨hread.same h, h.clock⟩
  have hcase := Accounts.step_cases hstep
  cases op with
  | prepare t k =>
      obtain ⟨-, rfl⟩ := hcase
      exact hsame (.modTask a.sched t fun _ => k)
  | insert t =>
      obtain ⟨-, -, -, s, hins, rfl⟩ := hcase
      exact insert_clocks hread hins
  | get cpu pid external ts =>
      obtain ⟨-, rfl⟩ := hcase
      have hlapses := get_lapses hb hread cpu pid external ts
      exact ⟨hlapses.timed.read, hlapses.clock⟩
  | purge logicPid =>
      simp only at hcase
      subst hcase
      exact hsame (purge_clocks ..)
  | cancel t =>
      obtain ⟨-, -, rfl | ⟨-, rfl⟩⟩ := hcase
      · exact ⟨hread, rfl⟩
      · exact hsame (.modTask a.sched t fun k => { k with degree := -k.degree })
  | wake t =>
      obtain ⟨-, rfl⟩ := hcase
      refine hsame ?_
      unfold submitDeadlineWake
      simp only
      split
      · exact ⟨fun _ => rfl, rfl, rfl⟩
      · exact .modTask ..

/-- What the other steps do to a waiting task. -/
theorem step_waits {a a' : Accounts} {op : SchedOp} (hb : Base topo a.sched)
    (hread : NowRead a.sched) (hop : LeavesAlone t op)
    (hstate : ∀ q, a.sched.WaitsIn q t → (a.sched.task t).deadlineState ≠ .ready)
    (hstep : a.step topo op = some a') : Kept a.sched a'.sched t ∨ Lapsed a.sched a'.sched t := by
  have hcase := Accounts.step_cases hstep
  cases op with
  | prepare u k =>
      obtain ⟨-, rfl⟩ := hcase
      exact .inl (Kept.of_ne (s := a.sched) (Ne.symm hop) fun _ => k)
  | insert u =>
      obtain ⟨hnot, -, -, s, hins, rfl⟩ := hcase
      have hne : t ≠ u := Ne.symm hop
      have htask := (YieldLog.insert_yields hb hins).1 t hne
      refine .inl ⟨fun q => ?_, by rw [htask], by rw [htask]⟩
      rw [insert_waits hb (hb.absent_iff.mpr hnot) hins]
      exact or_iff_right fun h => hne h.2
  | get cpu pid external ts =>
      obtain ⟨-, rfl⟩ := hcase
      exact (get_lapses hb hread cpu pid external ts).task t
  | purge logicPid =>
      simp only at hcase
      subst hcase
      obtain ⟨s₁, hp, hsame⟩ := schedulerDeadlinePurge_spec hb.deadlineNodup logicPid
      refine .inl ((purgeSteps_kept hb hstate hp).2.trans ⟨fun q => ?_, by rw [hsame.task],
        by rw [hsame.task]⟩)
      unfold Scheduler.WaitsIn
      rw [hsame.proc]
  | cancel u =>
      obtain ⟨-, -, rfl | ⟨-, rfl⟩⟩ := hcase
      · exact .inl (.refl _ t)
      · have hsame : SameTimes a.sched (a.sched.modTask u fun k => { k with degree := -k.degree }) :=
          .modTask _ u fun _ => ⟨rfl, rfl⟩
        exact .inl ⟨fun _ => Iff.rfl, hsame.deadline t, hsame.state t⟩
  | wake u =>
      obtain ⟨-, rfl⟩ := hcase
      have hmod : Kept a.sched (a.sched.modTask u fun k => { k with deadlineState := .ready }) t :=
        .of_ne (Ne.symm hop) _
      refine .inl ?_
      unfold submitDeadlineWake
      simp only
      split
      · exact ⟨hmod.waits, hmod.deadline, hmod.state⟩
      · exact hmod

/-! ## `nosv_waitfor` -/

namespace TimedWait

/-- Task `t` has called `nosv_waitfor` with the descriptor `k`, and the
scheduler takes it from the in-queue. -/
structure Submitted (topo : Topology) (s : Scheduler) (t : TaskId) (k : Task) (start target : Nat) :
    Prop where
  running : ¬ s.Holding topo t
  serial : taskIsParallel k = false
  quiet : k.deadlineState = .none
  typed : k.Typed
  valid : k.affinity.Valid topo
  stored : s.task t = (setTaskDeadline k start target).2

/-- The task waits in the tree of its process, with a deadline of its own
that is not before `due`. -/
structure Placed (s : Scheduler) (p : Nat) (t : TaskId) (due : Nat) : Prop where
  mem : s.WaitsIn p t
  due_le : min due 18446744073709551615 ≤ (s.task t).deadline
  distinct : ∀ u, s.WaitsIn p u → u ≠ t → (s.task u).deadline ≠ (s.task t).deadline

/-- A step takes the task out of the tree only when a reading of the clock
was later than `due`, and the deadline is over then. -/
def Late (topo : Topology) (t : TaskId) (due : Nat) (a : Accounts) (op : SchedOp) : Prop :=
  ∀ a' ∈ a.step topo op, ∀ p, a.sched.WaitsIn p t → a'.sched.WaitsIn p t
    ∨ (∃ n < a'.sched.ticks, due < a'.sched.clock n) ∧ (a'.sched.task t).deadlineState = .none

/-- The call blocks the task, and it waits in the tree until the time is
over. -/
def NeverEarly (topo : Topology) (a : Accounts) (t : TaskId) (k : Task) (start target : Nat) : Prop :=
  (setTaskDeadline k start target).1 = true
  ∧ ∃ a', a.step topo (.insert t) = some a' ∧ Placed a'.sched k.pid t (start + target)
    ∧ ∀ ops, Run.Along (Accounts.step topo) (fun a op => ValidInsert topo a op ∧ LeavesAlone t op) a' ops →
      Run.Along (Accounts.step topo) (Late topo t (start + target)) a' ops

/-- There is a deadline for the task: a free one that is not before `due`, or,
after a wrap, only the last of all. -/
def Fits (s : Scheduler) (p due : Nat) : Prop :=
  0 < due ∧ (∃ d, due ≤ d ∧ d < 18446744073709551616 ∧ ¬ s.Taken p d)
  ∨ 18446744073709551616 < due
    ∧ (∀ d, due - 18446744073709551616 ≤ d → d < 18446744073709551615 → s.Taken p d)
    ∧ ¬ s.Taken p 18446744073709551615

/-- The invariant while the task waits. -/
structure Waiting (topo : Topology) (t : TaskId) (due : Nat) (s : Scheduler) : Prop where
  base : Base topo s
  read : NowRead s
  typed : ∀ n, s.clock n < 18446744073709551616
  waits : ∀ p, s.WaitsIn p t →
    min due 18446744073709551615 ≤ (s.task t).deadline ∧ (s.task t).deadlineState = .waiting

variable {a a' : Accounts} {op : SchedOp} {due : Nat}

theorem Waiting.not_ready (h : Waiting topo t due s) (q : Nat) (hq : s.WaitsIn q t) :
    (s.task t).deadlineState ≠ .ready := by
  rw [(h.waits q hq).2]
  decide

theorem waiting_step (hC : ValidInsert topo a op ∧ LeavesAlone t op)
    (hstep : a.step topo op = some a') (h : Waiting topo t due a.sched) :
    Waiting topo t due a'.sched := by
  obtain ⟨hread, hclock⟩ := nowRead_step h.base h.read hstep
  refine ⟨base_step hC.1 hstep h.base, hread, fun n => ?_, fun p hp => ?_⟩
  · rw [hclock]
    exact h.typed n
  · rcases step_waits h.base h.read hC.2 h.not_ready hstep with hkept | hlapsed
    · rw [hkept.deadline, hkept.state]
      exact h.waits p ((hkept.waits p).mp hp)
    · exact absurd hp (hlapsed.gone p)

theorem late_of_waiting (hC : ValidInsert topo a op ∧ LeavesAlone t op)
    (h : Waiting topo t due a.sched) : Late topo t due a op := by
  intro a' hstep p hp
  have hclock := (nowRead_step h.base h.read hstep).2
  rcases step_waits h.base h.read hC.2 h.not_ready hstep with hkept | hlapsed
  · exact .inl ((hkept.waits p).mpr hp)
  · obtain ⟨n, hn, hlt⟩ := hlapsed.passed
    have hdue := (h.waits p hp).1
    have htyped := h.typed n
    refine .inr ⟨⟨n, hn, ?_⟩, hlapsed.state⟩
    rw [hclock]
    omega

theorem setTaskDeadline_quiet {k : Task} (hk : k.deadlineState = .none) (start target : Nat) :
    setTaskDeadline k start target =
      (true, { k with deadline := u64 (start + target), deadlineState := .pending }) := by
  rw [setTaskDeadline, if_pos hk]

/-! ## The first free deadline -/

/-- The least deadline from `due` on that no task has. -/
theorem exists_first {s : Scheduler} {p d due : Nat} (hd : due ≤ d) (hfree : ¬ s.Taken p d) :
    ∃ f, due ≤ f ∧ f ≤ d ∧ ¬ s.Taken p f ∧ ∀ e, due ≤ e → e < f → s.Taken p e := by
  classical
  have hex : ∃ f, due ≤ f ∧ ¬ s.Taken p f := ⟨d, hd, hfree⟩
  refine ⟨Nat.find hex, (Nat.find_spec hex).1, Nat.find_min' hex ⟨hd, hfree⟩,
    (Nat.find_spec hex).2, fun e he hlt => ?_⟩
  by_contra hnot
  exact Nat.find_min hex hlt ⟨he, hnot⟩

/-- Where the loop ends when it may: the first free deadline from the wrapped
sum on is not early. -/
theorem Fits.first {s : Scheduler} (h : Fits s p due) (hdue : due < 36893488147419103231) :
    u64 due ≠ 0 ∧ ∃ f, u64 due ≤ f ∧ f < 18446744073709551616 ∧ ¬ s.Taken p f
      ∧ (∀ d, u64 due ≤ d → d < f → s.Taken p d) ∧ min due 18446744073709551615 ≤ f := by
  unfold u64
  rcases h with ⟨hpos, d, hd, hlt, hfree⟩ | ⟨hwrap, htaken, hfree⟩
  · obtain ⟨f, hf, hfd, hffree, hbelow⟩ := exists_first hd hfree
    have hmod : due % 18446744073709551616 = due := Nat.mod_eq_of_lt (by omega)
    rw [hmod]
    exact ⟨by omega, f, hf, by omega, hffree, hbelow, by omega⟩
  · have hmod : due % 18446744073709551616 = due - 18446744073709551616 := by omega
    rw [hmod]
    exact ⟨by omega, 18446744073709551615, by omega, by omega, hfree, htaken, by omega⟩

/-- A deadline that is not early shows that the sum fits. -/
theorem fits_of_first {s : Scheduler} {d : Nat} (hdue : due < 36893488147419103231)
    (hne : u64 due ≠ 0) (hlt : d < 18446744073709551616) (hfree : ¬ s.Taken p d)
    (hle : min due 18446744073709551615 ≤ d)
    (hfirst : ∀ f, u64 due ≤ f → f < 18446744073709551616 → ¬ s.Taken p f →
      (∀ e, u64 due ≤ e → e < f → s.Taken p e) → d = f) : Fits s p due := by
  unfold u64 at hne hfirst
  by_cases hwrap : due < 18446744073709551616
  · exact .inl ⟨by omega, d, by omega, hlt, hfree⟩
  · have hmod : due % 18446744073709551616 = due - 18446744073709551616 := by omega
    rw [hmod] at hne hfirst
    have hmax : d = 18446744073709551615 := by omega
    refine .inr ⟨by omega, fun e he helt => ?_, hmax ▸ hfree⟩
    by_contra hnot
    -- an earlier free deadline would have been taken
    obtain ⟨f, hf, hfe, hffree, hbelow⟩ := exists_first he hnot
    have heq := hfirst f hf (by omega) hffree hbelow
    omega

/-- The runs before the call. -/
structure Reached (topo : Topology) (s : Scheduler) : Prop where
  base : Base topo s
  sorted : DeadlineSorted s
  read : NowRead s

theorem reached_run {task : TaskId → Task} {quantumNs : Nat} {clock : Nat → Nat} {ops : List SchedOp}
    (hrun : Run.run (Accounts.step topo) (.init task quantumNs clock) ops = some a)
    (hC : Run.Along (Accounts.step topo) (ValidInsert topo) (.init task quantumNs clock) ops) :
    Reached topo a.sched ∧ a.sched.clock = clock := by
  have hstep : ∀ (a : Accounts) (op : SchedOp) (a' : Accounts), ValidInsert topo a op →
      a.step topo op = some a' → Reached topo a.sched ∧ a.sched.clock = clock →
      Reached topo a'.sched ∧ a'.sched.clock = clock := by
    rintro a op a' hv hstep ⟨h, hclock⟩
    obtain ⟨hread, hsame⟩ := nowRead_step h.base h.read hstep
    exact ⟨⟨base_step hv hstep h.base, deadlineSorted_step h.base hstep h.sorted, hread⟩,
      hsame.trans hclock⟩
  refine Run.invariant_along hstep hC hrun ⟨⟨base_init .., fun p => ?_, fun p => .inl rfl⟩, rfl⟩
  simp [Accounts.init, schedulerInit, emptyProcess]

/-- A timed wait blocks, is stored with a deadline that is not early, and
ends late, exactly when no suspend argument is left over, the task has not
been cancelled and there is a deadline for it. -/
theorem timed_wait (topo : Topology) (task : TaskId → Task) (quantumNs : Nat) (clock : Nat → Nat)
    (hclock : ∀ n, clock n < 18446744073709551616) (ops : List SchedOp) (a : Accounts)
    (hrun : Run.run (Accounts.step topo) (.init task quantumNs clock) ops = some a)
    (hC : Run.Along (Accounts.step topo) (ValidInsert topo) (.init task quantumNs clock) ops)
    (t : TaskId) (k : Task) (start target : Nat) (hstart : start < 18446744073709551616)
    (htarget : target < 18446744073709551616) (h : Submitted topo a.sched t k start target) :
    NeverEarly topo a t k start target ↔
      k.yield = 0 ∧ k.degree = 1 ∧ Fits a.sched k.pid (start + target) := by
  obtain ⟨⟨hb, hsorted, hread⟩, hsame⟩ := reached_run hrun hC
  have habs := hb.absent_iff.mpr h.running
  have hk := setTaskDeadline_quiet h.quiet start target
  have hstored := h.stored
  rw [hk] at hstored
  have hdue : start + target < 36893488147419103231 := by omega
  have hpid : (a.sched.task t).pid = k.pid := by rw [hstored]
  have hdeadline : (a.sched.task t).deadline = u64 (start + target) := by rw [hstored]
  have hu64 : u64 (start + target) < 18446744073709551616 := Nat.mod_lt _ (by decide)
  have hready : readyContainer (a.sched.task t) = .deadline
      ↔ k.yield = 0 ∧ u64 (start + target) ≠ 0 := by
    rw [readyContainer_deadline, hstored]
    exact ⟨fun h => ⟨h.1, h.2.1⟩, fun h => ⟨h.1, h.2, rfl⟩⟩
  have hfirst : ∀ f, readyContainer (a.sched.task t) = .deadline → u64 (start + target) ≤ f →
      f < 18446744073709551616 → ¬ a.sched.Taken k.pid f →
      (∀ e, u64 (start + target) ≤ e → e < f → a.sched.Taken k.pid e) →
      ∃ s', schedulerInsertReadyTask a.sched t = some s' ∧ (s'.task t).deadline = f := by
    intro f hc hf hlt hfree hbelow
    refine insert_first hb hsorted habs hc hlt (by rwa [hdeadline]) ?_ (by rwa [hpid])
    rwa [hdeadline, hpid]
  constructor
  · rintro ⟨-, a', hstep, hplaced, -⟩
    obtain ⟨-, hpos, -, s', hins, rfl⟩ := Accounts.step_cases hstep
    have hc : readyContainer (a.sched.task t) = .deadline := by
      rcases (insert_waits hb habs hins k.pid t).mp hplaced.mem with ⟨⟨-, hc⟩, -⟩ | hold
      · exact hc
      · exact absurd hold (not_waits_of_absent habs _)
    obtain ⟨hy, hne⟩ := hready.mp hc
    obtain ⟨-, -, hlt, -, hfree⟩ := insert_placed hb hsorted habs hc (by rwa [hdeadline]) hins
    rw [hpid] at hfree
    have hdegree : k.degree = 1 := by
      have hserial := h.serial
      rw [hstored] at hpos
      simp only [taskIsParallel, decide_eq_false_iff_not] at hserial
      simp only at hpos
      omega
    refine ⟨hy, hdegree, fits_of_first hdue hne hlt hfree hplaced.due_le fun f hf hflt hffree hbelow => ?_⟩
    obtain ⟨s₁, hins₁, hd⟩ := hfirst f hc hf hflt hffree hbelow
    obtain rfl := Option.some.inj (hins.symm.trans hins₁)
    exact hd
  · rintro ⟨hy, hdegree, hfits⟩
    obtain ⟨hne, f, hf, hlt, hfree, hbelow, hle⟩ := hfits.first hdue
    have hc := hready.mpr ⟨hy, hne⟩
    obtain ⟨s', hins, hd⟩ := hfirst f hc hf hlt hfree hbelow
    obtain ⟨hmem, hstate, -, hdistinct, -⟩ := insert_placed hb hsorted habs hc (by rwa [hdeadline]) hins
    rw [hpid] at hmem hdistinct
    have htyped : (a.sched.task t).Typed := by
      obtain ⟨h₁, h₂, h₃, -, h₅⟩ := h.typed
      rw [hstored]
      exact ⟨h₁, h₂, h₃, hu64, h₅⟩
    have hguard : ¬ (a.sched.Holding topo t ∨ (a.sched.task t).degree ≤ 0 ∨ ¬ (a.sched.task t).Typed) := by
      rintro (hold | hdeg | hnot)
      · exact h.running hold
      · rw [hstored] at hdeg
        simp only [hdegree] at hdeg
        omega
      · exact hnot htyped
    refine ⟨by rw [hk], ⟨s', Function.update a.inserted (a.sched.task t).pid
      (a.inserted (a.sched.task t).pid + (a.sched.task t).degree)⟩, ?_,
      ⟨hmem, by simpa only [hd] using hle, hdistinct⟩, fun ops hops => ?_⟩
    · simp only [Accounts.step, if_neg hguard, hins]
    · have hvalid : (a.sched.task t).affinity.Valid topo := by
        rw [hstored]
        exact h.valid
      obtain ⟨hread', hclock'⟩ := insert_clocks hread hins
      have hinit : Waiting topo t (start + target) s' := by
        refine ⟨hb.insert habs hvalid hins, hread', fun n => ?_, fun p _ => ⟨?_, hstate⟩⟩
        · rw [hclock', hsame]
          exact hclock n
        · rwa [hd]
      exact Run.along_of_invariant (I := fun a => Waiting topo t (start + target) a.sched)
        (fun _ _ _ hC hstep h => waiting_step hC hstep h) (fun _ _ hC h => late_of_waiting hC h) hops hinit

/-- A task that calls `nosv_waitfor`. -/
def caller : Task := nosvCreateInternal 0 ⟨.none, .preferred, 0⟩

/-- Two tasks that wait from 5 on for 10 nanoseconds: the second gets the next
deadline. -/
theorem timed_wait_collision :
    ∃ a, Run.run (Accounts.step .oneCpu) (.init (fun _ => (setTaskDeadline caller 5 10).2) 0 fun _ => 0)
        [.insert 1] = some a
      ∧ NeverEarly .oneCpu a 0 caller 5 10 := by
  have heval : (Run.run (Accounts.step .oneCpu)
      (.init (fun _ => (setTaskDeadline caller 5 10).2) 0 fun _ => 0) [.insert 1]).map
      (fun a => (inorder (a.sched.proc 0).deadlineTasks, (a.sched.task 1).deadline, a.sched.task 0,
        decide (a.sched.Holding .oneCpu 0))) = some ([1], 15, (setTaskDeadline caller 5 10).2, false) := by
    decide +kernel
  obtain ⟨a, hrun, hval⟩ := Option.map_eq_some_iff.mp heval
  simp only [Prod.mk.injEq] at hval
  obtain ⟨htree, hdeadline, hstored, hhold⟩ := hval
  have hsub : Submitted .oneCpu a.sched 0 caller 5 10 :=
    ⟨of_decide_eq_false hhold, rfl, rfl, by decide, by decide, hstored⟩
  refine ⟨a, hrun, (timed_wait .oneCpu _ 0 (fun _ => 0) (fun _ => by decide) _ a hrun (by decide +kernel) 0
    caller 5 10 (by decide) (by decide) hsub).mpr ⟨rfl, rfl, .inl ⟨by decide, 16, by decide, by decide, ?_⟩⟩⟩
  rintro ⟨u, hu, hd⟩
  unfold Scheduler.WaitsIn at hu
  rw [show (caller).pid = 0 from rfl, htree, List.mem_singleton] at hu
  rw [hu, hdeadline] at hd
  cases hd

/-- A wait that is to last for ever: the sum wraps to zero, and the task is
ready at once. -/
theorem wait_forever_ends :
    ¬ ∀ start < 18446744073709551616, ∀ target < 18446744073709551616,
      NeverEarly .oneCpu (.init (fun _ => (setTaskDeadline caller start target).2) 0 fun _ => 0) 0
        caller start target := by
  intro hall
  obtain ⟨-, a', hstep, hplaced, -⟩ := hall 1 (by decide) 18446744073709551615 (by decide)
  have heval : (Accounts.step .oneCpu
      (.init (fun _ => (setTaskDeadline caller 1 18446744073709551615).2) 0 fun _ => 0) (.insert 0)).map
      (fun a => decide (a.sched.WaitsIn 0 0)) = some false := by
    decide +kernel
  rw [hstep] at heval
  exact of_decide_eq_false (Option.some.inj heval) hplaced.mem

end TimedWait

end Nosv
