import Mathlib.Order.Monotone.Basic
import Nosv.Accounting
import Nosv.FindTask

/-!
# Which process a CPU is given to

`scheduler_get_internal` walks the circular list of process schedulers
from the process that the CPU runs now, or from the one after it when the
quantum of that process is over, and a request of a worker that already
holds a task of its own asks for the other processes only.

A search that finds nothing in one process leaves every other process as
it was, except that time has passed (`Untouched`); so which process the
walk stops at can be read off the state before the call. Time only makes
more deadlines expire: a process that has a task for the CPU when the
call begins still has one when the walk gets there (`Offers.later`).
-/

namespace Nosv

open RBTree Relation Places

variable {topo : Topology} {cpu pid p q : Nat} {external : Bool} {s s' s'' : Scheduler}
  {t : TaskId}

/-! ## The request -/

/-- The flags that `dtlock_lock_or_delegate` stores with a request; the
bit `DTLOCK_FLAGS_EXTERNAL` is stored inverted. -/
def waitCpuFlags (blocking external : Bool) : Nat :=
  (if blocking then 0 else 1) ||| (if external then 0 else 2)

/-- `dtlock_requires_external`, on the flags of the request -/
def dtlockRequiresExternal (flags : Nat) : Bool := flags &&& 2 == 0

/-- The request of `scheduler_get` with `flags`, as the server reads it. -/
def requestExternal (flags : Nat) : Bool :=
  let blocking := flags &&& 1 == 0
  let external := flags &&& 2 != 0
  dtlockRequiresExternal (waitCpuFlags blocking external)

theorem requestExternal_eq (flags : Nat) : requestExternal flags = (flags &&& 2 != 0) := by
  unfold requestExternal
  cases flags &&& 1 == 0 <;> cases flags &&& 2 != 0 <;> rfl

/-! ## What a search does not write -/

/-- The accounting is the same, and the clock has only been read. -/
structure Steady (s s' : Scheduler) : Prop where
  timestamps : s'.timestamps = s.timestamps
  clock : s'.clock = s.clock
  ticks : s.ticks ≤ s'.ticks

theorem Steady.refl (s : Scheduler) : Steady s s := ⟨rfl, rfl, le_refl _⟩

theorem Steady.trans (h : Steady s s') (h' : Steady s' s'') : Steady s s'' :=
  ⟨h'.timestamps.trans h.timestamps, h'.clock.trans h.clock, h.ticks.trans h'.ticks⟩

theorem steady_insertAffine (topo : Topology) (s : Scheduler) (p : Nat) (t : TaskId) :
    Steady s (schedulerInsertAffine topo s p t) := by
  unfold schedulerInsertAffine addQueue Scheduler.setQueue Scheduler.modProc
  simp only
  split <;> exact ⟨rfl, rfl, le_refl _⟩

theorem steady_popQueue (s : Scheduler) (p : Nat) (i : QueueId) (t : TaskId) :
    Steady s (popQueue s p i t) := by
  unfold popQueue Scheduler.setQueue Scheduler.modTask Scheduler.modProc
  simp only
  split <;> exact ⟨rfl, rfl, le_refl _⟩

theorem Reroute.steady (h : Reroute topo s s') : Steady s s' := by
  cases h with
  | now p => exact ⟨rfl, rfl, Nat.le_succ _⟩
  | @deadline p cpu t hmin haff =>
      have h₁ : Steady s (expireDeadline s p t) := ⟨rfl, rfl, le_refl _⟩
      exact h₁.trans (steady_insertAffine ..)
  | @yield p cpu t rest hhead haff =>
      have h₁ : Steady s (popYield s p t) := ⟨rfl, rfl, le_refl _⟩
      exact h₁.trans (steady_insertAffine ..)
  | main hfind haff => exact (steady_popQueue ..).trans (steady_insertAffine ..)

theorem steady_reroutes (h : ReflTransGen (Reroute topo) s s') : Steady s s' := by
  induction h with
  | refl => exact .refl _
  | tail _ hstep ih => exact ih.trans hstep.steady

theorem Take.steady {removed : Int} (h : Take topo cpu s p t removed s') : Steady s s' := by
  cases h with
  | deadline hmin haff => exact ⟨rfl, rfl, le_refl _⟩
  | yield hhead haff => exact ⟨rfl, rfl, le_refl _⟩
  | @queue i t removed s₁ hpoll hget =>
      obtain ⟨-, -, rfl⟩ := schedulerGetFromQueue_some hget
      split
      · have h₁ := steady_popQueue (schedule s t) p i t
        exact ⟨h₁.timestamps, h₁.clock, h₁.ticks⟩
      · exact ⟨rfl, rfl, le_refl _⟩

/-! ## The walk over the process schedulers -/

/-- The task that a walk returns, with the search that found it. -/
theorem foreachDo_some {f : Scheduler → Nat → Option (TaskId × Int) × Scheduler}
    (hf : ∀ {s s' p r}, f s p = (r, s') → Search topo cpu s p r s') :
    ∀ {ps : List Nat} {s s' : Scheduler}, Base topo s →
      schedulerForeachDo f external pid ps s = (some t, s') →
      (external = true → (s.task t).pid ≠ pid) ∧ (s'.task t).pid = (s.task t).pid ∧ Steady s s'
  | [], s, s', _, h => by cases h
  | p :: ps, s, s', hb, h => by
      rw [schedulerForeachDo] at h
      split at h
      · exact foreachDo_some hf hb h
      · rename_i hskip
        split at h
        · rename_i u removed s₁ hfind
          obtain ⟨hres, rfl⟩ := Prod.mk.injEq .. |>.mp h
          obtain rfl := Option.some.inj hres
          obtain ⟨s₀, hr, htake⟩ := hf hfind
          have hb₀ := hb.reroutes hr
          obtain ⟨c, rest, htakes⟩ := htake.effect hb₀.linked
          have hframe := (reroutes_frame hb hr).task u
          have hown : (s.task u).pid = p := by
            rw [← hframe.pid]
            exact (hb₀.fits _ _ htakes.mem).own
          refine ⟨fun hext hpid => ?_, ?_, ?_⟩
          · rw [hext, ← hown, hpid] at hskip
            simp at hskip
          · exact htakes.self.pid.trans hframe.pid
          · exact ((steady_reroutes hr).trans htake.steady).trans ⟨rfl, rfl, le_refl _⟩
        · rename_i s₁ hfind
          have hr : ReflTransGen (Reroute topo) s s₁ := hf hfind
          have hpid := ((reroutes_frame hb hr).task t).pid
          obtain ⟨hext, htask, hsteady⟩ := foreachDo_some hf (hb.reroutes hr) h
          rw [hpid] at hext htask
          exact ⟨hext, htask, (steady_reroutes hr).trans hsteady⟩

/-- A walk that returns no task only re-routes. -/
theorem foreachDo_none (cpu : Nat) {f : Scheduler → Nat → Option (TaskId × Int) × Scheduler}
    (hf : ∀ {s s' p r}, f s p = (r, s') → Search topo cpu s p r s') :
    ∀ {ps : List Nat} {s s' : Scheduler},
      schedulerForeachDo f external pid ps s = (none, s') → ReflTransGen (Reroute topo) s s'
  | [], s, s', h => by
      obtain ⟨-, rfl⟩ := Prod.mk.injEq .. |>.mp h
      exact .refl
  | p :: ps, s, s', h => by
      rw [schedulerForeachDo] at h
      split at h
      · exact foreachDo_none cpu hf h
      · split at h
        · cases h
        · rename_i s₁ hfind
          have hr : ReflTransGen (Reroute topo) s s₁ := hf hfind
          exact hr.trans (foreachDo_none cpu hf h)

/-- What a call that returns a task has done before it updates the
accounting. -/
structure Found (s s₂ : Scheduler) (external : Bool) (pid : Nat) (t : TaskId) : Prop where
  other : external = true → (s.task t).pid ≠ pid
  pid_eq : (s₂.task t).pid = (s.task t).pid
  steady : Steady s s₂

theorem found_of_walk (cpu : Nat) {f : Scheduler → Nat → Option (TaskId × Int) × Scheduler}
    {ps : List Nat} {s₁ : Scheduler} (hb : Base topo s)
    (hf : ∀ {s s' p r}, f s p = (r, s') → Search topo cpu s p r s')
    (hr : ReflTransGen (Reroute topo) s s₁)
    (hwalk : schedulerForeachDo f external pid ps s₁ = (some t, s')) :
    Found s s' external pid t := by
  obtain ⟨hext, htask, hsteady⟩ := foreachDo_some hf (hb.reroutes hr) hwalk
  have hpid := ((reroutes_frame hb hr).task t).pid
  rw [hpid] at hext htask
  exact ⟨hext, htask, (steady_reroutes hr).trans hsteady⟩

theorem getInternal_some {ts : Nat} (hb : Base topo s)
    (h : schedulerGetInternal topo s cpu pid external ts = (some t, s')) :
    ∃ s₂, Found s s₂ external pid t
      ∧ s' = schedulerUpdateAccounting s₂ pid (some t) cpu ts := by
  unfold schedulerGetInternal at h
  split at h
  · cases h
  · simp only at h
    split at h
    · rename_i u s₁ hwalk
      obtain ⟨hres, rfl⟩ := Prod.mk.injEq .. |>.mp h
      obtain rfl := Option.some.inj hres
      exact ⟨s₁, found_of_walk cpu hb schedulerFindTaskProcess_spec .refl hwalk, rfl⟩
    · rename_i s₁ hwalk₁
      have h₁ := foreachDo_none cpu schedulerFindTaskProcess_spec hwalk₁
      split at h
      · rename_i u s₂ hwalk
        obtain ⟨hres, rfl⟩ := Prod.mk.injEq .. |>.mp h
        obtain rfl := Option.some.inj hres
        exact ⟨s₂, found_of_walk cpu hb schedulerFindTaskNoaffineProcess_spec h₁ hwalk, rfl⟩
      · rename_i s₂ hwalk₂
        have h₂ := h₁.trans
          (foreachDo_none cpu schedulerFindTaskNoaffineProcess_spec hwalk₂)
        split at h
        · rename_i u s₃ hwalk
          obtain ⟨hres, rfl⟩ := Prod.mk.injEq .. |>.mp h
          obtain rfl := Option.some.inj hres
          exact ⟨s₃, found_of_walk cpu hb schedulerFindTaskYieldProcess_spec h₂ hwalk, rfl⟩
        · cases h

/-! ## The accounting of a CPU -/

/-- `scheduler_update_accounting` for a task: the process of the task is
recorded, and its quantum starts unless it was running already. -/
theorem schedulerUpdateAccounting_some (s : Scheduler) (pid cpu ts : Nat) (t : TaskId) :
    let before := s.timestamps cpu
    let after := (schedulerUpdateAccounting s pid (some t) cpu ts).timestamps cpu
    after.pid = (s.task t).pid
      ∧ ((s.task t).pid ≠ before.pid → after.tsNs = ts)
      ∧ (before.pid = pid → (s.task t).pid = pid → after = before) := by
  intro before after
  by_cases hpid : (s.task t).pid = pid
  · by_cases hrec : (pid : Int) = before.pid
    · have hafter : after = before := by
        simp [after, schedulerUpdateAccounting, hpid, before, hrec]
      rw [hafter, hpid]
      exact ⟨hrec.symm, fun hne => absurd hrec hne, fun _ _ => rfl⟩
    · have hafter : after = ⟨ts, pid⟩ := by
        simp [after, schedulerUpdateAccounting, hpid, before, hrec]
      rw [hafter, hpid]
      exact ⟨rfl, fun _ => rfl, fun heq _ => absurd heq.symm hrec⟩
  · have hafter : after = ⟨ts, (s.task t).pid⟩ := by
      simp [after, schedulerUpdateAccounting, hpid]
    rw [hafter]
    exact ⟨rfl, fun _ => rfl, fun _ heq => absurd heq hpid⟩

theorem schedulerUpdateAccounting_ticks (s : Scheduler) (pid : Nat) (t : Option TaskId)
    (cpu ts : Nat) : (schedulerUpdateAccounting s pid t cpu ts).ticks = s.ticks := by
  unfold schedulerUpdateAccounting
  split
  · rfl
  · simp only
    split
    · rfl
    · split <;> rfl

/-! ## What a process offers -/

/-- Process `q` has a task that `scheduler_find_task_process` would return
for `cpu`. -/
def Offers (topo : Topology) (cpu : Nat) (s : Scheduler) (q : Nat) : Prop :=
  (schedulerFindTaskProcess topo cpu s q).1 ≠ none

instance (topo : Topology) (cpu : Nat) (s : Scheduler) (q : Nat) :
    Decidable (Offers topo cpu s q) := inferInstanceAs (Decidable (_ ≠ _))

/-- The state at a later reading of the clock. -/
def Scheduler.atReading (s : Scheduler) (n : Nat) : Scheduler := { s with ticks := n }

/-- Nothing has happened to process `q` but time. -/
structure Untouched (q : Nat) (s s' : Scheduler) : Prop where
  proc : s'.proc q = s.proc q
  task : ∀ c u, u ∈ s.places (q, c) → s'.task u = s.task u
  clock : s'.clock = s.clock
  ticks : s.ticks ≤ s'.ticks

theorem Untouched.refl (q : Nat) (s : Scheduler) : Untouched q s s :=
  ⟨rfl, fun _ _ _ => rfl, rfl, le_refl _⟩

theorem Untouched.places (h : Untouched q s s') (c : Container) :
    s'.places (q, c) = s.places (q, c) := by
  simp only [Scheduler.places, h.proc]

theorem Untouched.trans (h : Untouched q s s') (h' : Untouched q s' s'') : Untouched q s s'' := by
  refine ⟨h'.proc.trans h.proc, fun c u hu => ?_, h'.clock.trans h.clock, h.ticks.trans h'.ticks⟩
  rw [h'.task c u (by rw [h.places]; exact hu), h.task c u hu]

/-- A search in another process. -/
theorem Routes.untouched {m : List TaskId} (h : Routes topo p m s s') (hb : Base topo s)
    (hq : q ≠ p) : Untouched q s s' := by
  refine ⟨h.proc q hq, fun c u hu => h.task u fun hm => hq ?_, h.clock, h.ticks⟩
  rw [← h.own u hm]
  exact (hb.fits _ _ hu).own.symm

/-- Time makes more deadlines expire, and changes nothing else: what is
not there later was not there before. -/
theorem NothingFor.before (hmono : Monotone s.clock) (hu : Untouched q s s')
    (h : NothingFor topo cpu s' q) : NothingFor topo cpu s q := by
  have haff : ∀ c u, u ∈ s.places (q, c) → (s'.task u).affinity = (s.task u).affinity :=
    fun c u hm => by rw [hu.task c u hm]
  have hdeadlines : ∀ t ∈ s.expiredDeadlines q, t ∈ s'.expiredDeadlines q := by
    intro t ht
    have hsame : expired s.clock (fun u => (s'.task u).deadline) (s.proc q).now s'.ticks
          (inorder (s.proc q).deadlineTasks)
        = expired s.clock (fun u => (s.task u).deadline) (s.proc q).now s'.ticks
          (inorder (s.proc q).deadlineTasks) :=
      expired_congr _ _ fun u hm => by rw [hu.task .deadline u (Multiset.mem_coe.mpr hm)]
    rw [Scheduler.expiredDeadlines, hu.proc, hu.clock, hsame]
    exact (expired_mono hmono ⟨hu.ticks, Or.inl rfl⟩).subset ht
  have hyields : s'.expiredYields q = s.expiredYields q := by
    rw [Scheduler.expiredYields, hu.proc, Scheduler.expiredYields]
    refine takeWhile_congr fun u hm => ?_
    rw [hu.task .yield u (Multiset.mem_coe.mpr hm)]
  refine ⟨fun t ht => ?_, fun t ht => ?_, fun i hi t ht => ?_, fun t ht => ?_⟩
  · have hres := h.deadlines t (hdeadlines t ht)
    rwa [haff .deadline t (Multiset.mem_coe.mpr (expired_initial.subset ht))] at hres
  · have hres := h.yields t (hyields ▸ ht)
    have hmem : t ∈ (s.proc q).yieldTasks := (List.takeWhile_sublist _).subset ht
    rwa [haff .yield t (Multiset.mem_coe.mpr hmem)] at hres
  · exact h.polled i hi t (by rw [hu.places]; exact ht)
  · have hres := h.main t (by rw [hu.places]; exact ht)
    rwa [haff _ t ht] at hres

/-- A process that offers a task goes on offering one. -/
theorem Offers.later (hb : Base topo s) (hb' : Base topo s') (hmono : Monotone s.clock)
    (hu : Untouched q s s') (h : Offers topo cpu s q) : Offers topo cpu s' q := by
  intro hnone
  refine h ((find_none_iff hb).mpr ?_)
  rcases (find_none_iff hb').mp hnone with hz | hno
  · exact Or.inl (hu.proc ▸ hz)
  · exact Or.inr (hno.before hmono hu)

/-- What a process offers when the walk gets to it, it offered before at
that time. -/
theorem Offers.atReading (hb : Base topo s) (hb' : Base topo s') (hmono : Monotone s.clock)
    (hu : Untouched q s s') (h : Offers topo cpu s' q) :
    Offers topo cpu (s.atReading s'.ticks) q := by
  have hb₁ : Base topo (s.atReading s'.ticks) :=
    ⟨⟨hb.linked.distinct, hb.linked.ok⟩, hb.fits, hb.pids⟩
  refine h.later hb' hb₁ (hu.clock ▸ hmono) ⟨hu.proc.symm, fun c u hm => ?_, hu.clock.symm,
    le_refl _⟩
  rw [hu.places] at hm
  exact (hu.task c u hm).symm

/-! ## The order of the walk -/

/-- The other process schedulers, in circular list order after `p`. -/
def circularAfter (l : List Nat) (p : Nat) : List Nat :=
  (l.dropWhile (· ≠ p)).tail ++ l.takeWhile (· ≠ p)

theorem circularFrom_perm (l : List Nat) (p : Nat) : (circularFrom l p).Perm l := by
  have hsplit := List.takeWhile_append_dropWhile (p := (· ≠ p)) (l := l)
  exact List.perm_append_comm.trans (List.Perm.of_eq hsplit)

theorem dropWhile_ne_append {a b : List Nat} (h : p ∉ a) :
    (a ++ p :: b).dropWhile (· ≠ p) = p :: b := by
  rw [List.dropWhile_append_of_pos fun x hx => ?_]
  · simp
  · have hne : x ≠ p := fun heq => h (heq ▸ hx)
    simpa using hne

theorem takeWhile_ne_append {a b : List Nat} (h : p ∉ a) :
    (a ++ p :: b).takeWhile (· ≠ p) = a := by
  rw [List.takeWhile_append_of_pos fun x hx => ?_]
  · simp
  · have hne : x ≠ p := fun heq => h (heq ▸ hx)
    simpa using hne

/-- With the quantum over, the walk comes to the own process last. -/
theorem circularFrom_next {l : List Nat} (hnd : l.Nodup) (hp : p ∈ l) :
    circularFrom l (listNextCircular l p) = circularAfter l p ++ [p] := by
  obtain ⟨a, b, rfl⟩ := List.append_of_mem hp
  have hnot : p ∉ a := fun h => by
    have := List.disjoint_of_nodup_append hnd h List.mem_cons_self
    exact this
  rw [circularAfter, listNextCircular, dropWhile_ne_append hnot, takeWhile_ne_append hnot]
  cases b with
  | cons c b =>
      have hc : c ∉ a ++ [p] := by
        have hnd' : ((a ++ [p]) ++ c :: b).Nodup := by simpa using hnd
        exact fun h => List.disjoint_of_nodup_append hnd' h List.mem_cons_self
      have hl : a ++ p :: c :: b = (a ++ [p]) ++ c :: b := by simp
      simp only [List.tail_cons]
      rw [circularFrom, hl, dropWhile_ne_append hc, takeWhile_ne_append hc]
      simp
  | nil =>
      cases a with
      | nil => simp [circularFrom]
      | cons c a =>
          simp only [List.tail_cons, List.cons_append, List.headD_cons]
          rw [circularFrom, ← List.nil_append (c :: (a ++ [p])),
            dropWhile_ne_append (List.not_mem_nil), takeWhile_ne_append (List.not_mem_nil)]
          simp

/-- The walk over `order` stops at process `q`: the processes before it
that are asked offer nothing, and `q` offers a task at the reading `n` of
the clock, when the walk gets to it. -/
structure StopsAt (topo : Topology) (cpu : Nat) (s : Scheduler) (asked : Nat → Bool)
    (order : List Nat) (n q : Nat) : Prop where
  first : ∃ before after, order = before ++ q :: after
    ∧ ∀ r ∈ before, asked r = true → ¬ Offers topo cpu s r
  asked : asked q = true
  reading : s.ticks ≤ n
  offers : Offers topo cpu (s.atReading n) q

/-- The processes that a request asks. -/
def askedProcess (external : Bool) (pid q : Nat) : Bool := !(external && q == pid)

theorem StopsAt.cons {asked : Nat → Bool} {order : List Nat} {n : Nat}
    (h : StopsAt topo cpu s asked order n q) (hp : asked p = true → ¬ Offers topo cpu s p) :
    StopsAt topo cpu s asked (p :: order) n q := by
  obtain ⟨before, after, rfl, hbefore⟩ := h.first
  refine ⟨⟨p :: before, after, rfl, fun r hr => ?_⟩, h.asked, h.reading, h.offers⟩
  rcases List.mem_cons.mp hr with rfl | hr
  · exact hp
  · exact hbefore r hr

/-- The first pass over the process schedulers, from a state in which the
ones that are left are as they were in `s`. -/
theorem walk_selects (cpu pid : Nat) (external : Bool) (hb : Base topo s)
    (hmono : Monotone s.clock) :
    ∀ {order : List Nat} {s₁ : Scheduler}, order.Nodup → Base topo s₁ → Frame s s₁ →
      (∀ q ∈ order, Untouched q s s₁) →
      (∃ q ∈ order, askedProcess external pid q = true ∧ Offers topo cpu s q) →
      ∃ t s' n, schedulerForeachDo (schedulerFindTaskProcess topo cpu) external pid order s₁
          = (some t, s')
        ∧ n ≤ s'.ticks
        ∧ StopsAt topo cpu s (askedProcess external pid) order n (s.task t).pid
  | [], s₁, _, _, _, _, ⟨q, hq, _⟩ => by cases hq
  | p :: ps, s₁, hnd, hb₁, hframe, hunt, ⟨q, hq, hask, hoff⟩ => by
      obtain ⟨hp, hnd'⟩ := List.nodup_cons.mp hnd
      have hu := hunt p List.mem_cons_self
      rw [schedulerForeachDo]
      cases hext : external && p == pid with
      | true =>
          have hskip : askedProcess external pid p = false := by simp [askedProcess, hext]
          have hq' : q ∈ ps := by
            rcases List.mem_cons.mp hq with rfl | hq
            · rw [hskip] at hask
              cases hask
            · exact hq
          obtain ⟨t, s', n, hwalk, hn, hstop⟩ := walk_selects cpu pid external hb hmono hnd' hb₁ hframe
            (fun r hr => hunt r (List.mem_cons_of_mem p hr)) ⟨q, hq', hask, hoff⟩
          exact ⟨t, s', n, hwalk, hn, hstop.cons fun h => absurd (h.symm.trans hskip) (by decide)⟩
      | false =>
          have hasked : askedProcess external pid p = true := by simp [askedProcess, hext]
          cases hfind : schedulerFindTaskProcess topo cpu s₁ p with
          | mk r s₂ =>
              cases r with
              | some r =>
                  obtain ⟨t, removed⟩ := r
                  obtain ⟨s₀, hr, htake⟩ := schedulerFindTaskProcess_spec hfind
                  obtain ⟨c, rest, htakes⟩ := htake.effect (hb₁.reroutes hr).linked
                  have hown : (s.task t).pid = p := by
                    rw [← (hframe.task t).pid, ← ((reroutes_frame hb₁ hr).task t).pid]
                    exact ((hb₁.reroutes hr).fits _ _ htakes.mem).own
                  have hsteady := (steady_reroutes hr).trans htake.steady
                  refine ⟨t, countServed s₂ p removed, s₁.ticks, rfl, hsteady.ticks, ?_⟩
                  rw [hown]
                  refine ⟨⟨[], ps, rfl, fun r hr => (List.not_mem_nil hr).elim⟩, hasked, hu.ticks,
                    Offers.atReading hb hb₁ hmono hu fun hnone => ?_⟩
                  rw [hfind] at hnone
                  cases hnone
              | none =>
                  have hnot : ¬ Offers topo cpu s p := fun h =>
                    h.later hb hb₁ hmono hu (congrArg Prod.fst hfind)
                  have hq' : q ∈ ps := by
                    rcases List.mem_cons.mp hq with rfl | hq
                    · exact absurd hoff hnot
                    · exact hq
                  obtain ⟨m, hroutes⟩ := find_none_routes hb₁ hfind
                  obtain ⟨t, s', n, hwalk, hn, hstop⟩ := walk_selects cpu pid external hb hmono hnd' hroutes.base
                    (hframe.trans hroutes.frame)
                    (fun r hr => (hunt r (List.mem_cons_of_mem p hr)).trans
                      (hroutes.untouched hb₁ fun heq => hp (heq ▸ hr)))
                    ⟨q, hq', hask, hoff⟩
                  exact ⟨t, s', n, hwalk, hn, hstop.cons fun _ => hnot⟩

/-! ## The selection -/

/-- The containers are well formed, and the scheduler counts no task only
when no process does. -/
structure Coherent (topo : Topology) (s : Scheduler) : Prop where
  base : Base topo s
  counted : s.tasks = 0 → ∀ p ∈ s.queues, (s.proc p).tasks = 0

/-- Every run that keeps the counters exact keeps the scheduler coherent. -/
theorem Accounted.coherent {a : Accounts} (h : Accounted topo a) : Coherent topo a.sched := by
  refine ⟨h.base, fun hz p hp => ?_⟩
  rw [h.total, Finset.sum_eq_zero_iff_of_nonneg fun q _ => h.tasks_nonneg q] at hz
  exact hz p (List.mem_toFinset.mpr hp)

theorem coherent_of_run (topo : Topology) (task : TaskId → Task) (quantumNs : Nat)
    (clock : Nat → Nat) (ops : List SchedOp) (a : Accounts)
    (hrun : Run.run (Accounts.step topo) (.init task quantumNs clock) ops = some a)
    (hC : Run.Along (Accounts.step topo) (Disciplined topo) (.init task quantumNs clock) ops) :
    Coherent topo a.sched := by
  have hinit : Accounted topo (.init task quantumNs clock) := accounted_init ..
  exact (Run.invariant_along (fun _ _ _ => accounted_step) hC hrun hinit).coherent

theorem Offers.tasks_ne (h : Offers topo cpu s q) : (s.proc q).tasks ≠ 0 := by
  intro hz
  exact h (by rw [schedulerFindTaskProcess, if_pos hz])

/-- Where the walk begins. -/
def walkStart (s : Scheduler) (pid : Nat) (yield : Bool) : Nat :=
  if yield then listNextCircular s.queues (startPid s pid) else startPid s pid

/-- A process that the request asks offers a task: the first pass finds one. -/
theorem getInternal_selects (external : Bool) (ts : Nat) (hs : Coherent topo s) (hmono : Monotone s.clock)
    (h : ∃ q ∈ s.queues, askedProcess external pid q = true ∧ Offers topo cpu s q) :
    ∃ t s' n, schedulerGetInternal topo s cpu pid external ts = (some t, s') ∧ n ≤ s'.ticks
      ∧ StopsAt topo cpu s (askedProcess external pid)
        (circularFrom s.queues (walkStart s pid (schedulerShouldYield s pid cpu ts))) n
        (s.task t).pid := by
  obtain ⟨q, hq, hask, hoff⟩ := h
  have hne : s.tasks ≠ 0 := fun hz => hoff.tasks_ne (hs.counted hz q hq)
  have hperm := circularFrom_perm s.queues
    (walkStart s pid (schedulerShouldYield s pid cpu ts))
  obtain ⟨t, s₁, n, hwalk, hn, hstop⟩ := walk_selects cpu pid external hs.base hmono
    (hperm.nodup_iff.mpr hs.base.pids) hs.base (Frame.refl s)
    (fun r _ => .refl r s) ⟨q, hperm.mem_iff.mpr hq, hask, hoff⟩
  refine ⟨t, schedulerUpdateAccounting s₁ pid (some t) cpu ts, n, ?_, ?_, hstop⟩
  · rw [schedulerGetInternal, if_neg hne]
    simp only [walkStart] at hwalk
    simp only [hwalk]
  · rwa [schedulerUpdateAccounting_ticks]

theorem StopsAt.mem {asked : Nat → Bool} {order : List Nat} {n : Nat}
    (h : StopsAt topo cpu s asked order n q) : q ∈ order := by
  obtain ⟨before, after, rfl, -⟩ := h.first
  exact List.mem_append_right before List.mem_cons_self

theorem mem_circularAfter {l : List Nat} (hnd : l.Nodup) (hp : p ∈ l) (hq : q ∈ l)
    (hne : q ≠ p) : q ∈ circularAfter l p := by
  have hmem := (circularFrom_perm l (listNextCircular l p)).mem_iff.mpr hq
  rw [circularFrom_next hnd hp, List.mem_append, List.mem_singleton] at hmem
  exact hmem.resolve_right hne

/-- A walk that stops before the last process of its order. -/
theorem StopsAt.init {asked : Nat → Bool} {order : List Nat} {n r : Nat}
    (h : StopsAt topo cpu s asked (order ++ [p]) n q) (hr : r ∈ order) (hask : asked r = true)
    (hoff : Offers topo cpu s r) : StopsAt topo cpu s asked order n q := by
  obtain ⟨before, after, hsplit, hbefore⟩ := h.first
  refine ⟨?_, h.asked, h.reading, h.offers⟩
  rcases List.eq_nil_or_concat after with rfl | ⟨after', a, rfl⟩
  · -- the walk would have gone past the process that offers a task
    obtain ⟨rfl, -⟩ := List.append_inj' hsplit rfl
    exact absurd hoff (hbefore r hr hask)
  · rw [List.concat_eq_append, ← List.cons_append, ← List.append_assoc] at hsplit
    obtain ⟨rfl, -⟩ := List.append_inj' hsplit rfl
    exact ⟨before, after', rfl, hbefore⟩

/-- What a call for a CPU that runs process `pid` returns, `r`, and does to
the accounting. -/
structure Selected (topo : Topology) (s : Scheduler) (cpu pid flags ts : Nat)
    (r : Option TaskId) (s' : Scheduler) : Prop where
  external : flags &&& 2 ≠ 0 → ∀ t, r = some t → (s.task t).pid ≠ pid
  yields : schedulerShouldYield s pid cpu ts = true →
    (∃ q ∈ s.queues, q ≠ pid ∧ Offers topo cpu s q) →
    ∃ t, r = some t ∧ (s.task t).pid ≠ pid ∧ (pid ∈ s.queues → ∃ n, n ≤ s'.ticks ∧
      StopsAt topo cpu s (fun _ => true) (circularAfter s.queues pid) n (s.task t).pid)
  stays : schedulerShouldYield s pid cpu ts = false → flags &&& 2 = 0 → pid ∈ s.queues →
    Offers topo cpu s pid → ∃ t, r = some t ∧ (s.task t).pid = pid
  accounts : ∀ t, r = some t → (s'.timestamps cpu).pid = (s.task t).pid
    ∧ ((s.task t).pid ≠ (s.timestamps cpu).pid → (s'.timestamps cpu).tsNs = ts)
    ∧ ((s.timestamps cpu).pid = pid → (s.task t).pid = pid →
      s'.timestamps cpu = s.timestamps cpu)

theorem askedProcess_of_ne (external : Bool) (h : q ≠ pid) :
    askedProcess external pid q = true := by
  simp [askedProcess, h]

/-- With the quantum over, the first other process that offers a task. -/
theorem getInternal_yields {ts : Nat} (external : Bool) (hs : Coherent topo s) (hmono : Monotone s.clock)
    (hyield : schedulerShouldYield s pid cpu ts = true)
    (h : ∃ q ∈ s.queues, q ≠ pid ∧ Offers topo cpu s q) :
    ∃ t s', schedulerGetInternal topo s cpu pid external ts = (some t, s')
      ∧ (s.task t).pid ≠ pid ∧ (pid ∈ s.queues → ∃ n, n ≤ s'.ticks ∧
        StopsAt topo cpu s (fun _ => true) (circularAfter s.queues pid) n (s.task t).pid) := by
  obtain ⟨q, hq, hne, hoff⟩ := h
  have hask := askedProcess_of_ne external hne
  obtain ⟨t, s', n, hget, hn, hstop⟩ := getInternal_selects external ts hs hmono ⟨q, hq, hask, hoff⟩
  refine ⟨t, s', hget, ?_⟩
  by_cases hpid : pid ∈ s.queues
  · have horder : circularFrom s.queues (walkStart s pid true)
        = circularAfter s.queues pid ++ [pid] := by
      rw [walkStart, if_pos rfl, startPid, if_pos hpid, circularFrom_next hs.base.pids hpid]
    rw [hyield, horder] at hstop
    have hinit := hstop.init (mem_circularAfter hs.base.pids hpid hq hne) hask hoff
    have hnot : pid ∉ circularAfter s.queues pid := by
      have hnd := (circularFrom_perm s.queues (walkStart s pid true)).nodup_iff.mpr hs.base.pids
      rw [horder] at hnd
      exact fun hmem => List.disjoint_of_nodup_append hnd hmem (List.mem_singleton.mpr rfl)
    refine ⟨fun heq => hnot (heq ▸ hinit.mem), fun _ => ⟨n, hn, ?_⟩⟩
    obtain ⟨before, after, hsplit, hbefore⟩ := hinit.first
    refine ⟨⟨before, after, hsplit, fun r hr _ => hbefore r hr ?_⟩, rfl, hinit.reading,
      hinit.offers⟩
    refine askedProcess_of_ne external fun heq => hnot ?_
    rw [hsplit, ← heq]
    exact List.mem_append_left _ hr
  · refine ⟨fun heq => hpid ?_, fun h => absurd h hpid⟩
    rw [← heq]
    exact (circularFrom_perm ..).mem_iff.mp hstop.mem

/-- With quantum left, the own process. -/
theorem getInternal_stays {ts : Nat} (hs : Coherent topo s) (hmono : Monotone s.clock)
    (hyield : schedulerShouldYield s pid cpu ts = false) (hpid : pid ∈ s.queues)
    (hoff : Offers topo cpu s pid) :
    ∃ t s', schedulerGetInternal topo s cpu pid false ts = (some t, s')
      ∧ (s.task t).pid = pid := by
  obtain ⟨t, s', n, hget, -, hstop⟩ := getInternal_selects false ts hs hmono
    ⟨pid, hpid, rfl, hoff⟩
  refine ⟨t, s', hget, ?_⟩
  obtain ⟨before, after, hsplit, hbefore⟩ := hstop.first
  obtain ⟨a, b, hl⟩ := List.append_of_mem hpid
  have hnot : pid ∉ a := fun h => by
    have hnd := hs.base.pids
    rw [hl] at hnd
    exact List.disjoint_of_nodup_append hnd h List.mem_cons_self
  rw [hyield, walkStart, if_neg Bool.false_ne_true, startPid, if_pos hpid, circularFrom, hl,
    dropWhile_ne_append hnot] at hsplit
  cases before with
  | nil => exact (List.cons.injEq .. |>.mp hsplit).1.symm
  | cons c before =>
      obtain ⟨rfl, -⟩ := List.cons.injEq .. |>.mp hsplit
      exact absurd hoff (hbefore pid List.mem_cons_self rfl)

/-- Process selection and quantum, for every request in every coherent
state of the scheduler; the clock does not go back. -/
theorem process_selected (topo : Topology) (s : Scheduler) (cpu pid flags ts : Nat)
    (hs : Coherent topo s) (hmono : Monotone s.clock) :
    let get := schedulerGetInternal topo s cpu pid (requestExternal flags) ts
    Selected topo s cpu pid flags ts get.1 get.2 := by
  intro get
  refine ⟨fun hflag t hres => ?_, fun hyield h => ?_, fun hyield hflag hpid hoff => ?_,
    fun t hres => ?_⟩
  · obtain ⟨s₂, hfound, -⟩ := getInternal_some hs.base (Prod.ext hres rfl : get = (some t, get.2))
    refine hfound.other ?_
    rw [requestExternal_eq]
    simpa using hflag
  · obtain ⟨t, s', hget, hne, hstop⟩ := getInternal_yields (requestExternal flags)
      hs hmono hyield h
    have hres : get = (some t, s') := hget
    rw [hres]
    exact ⟨t, rfl, hne, hstop⟩
  · have hext : requestExternal flags = false := by
      rw [requestExternal_eq]
      simpa using hflag
    obtain ⟨t, s', hget, hown⟩ := getInternal_stays hs hmono hyield hpid hoff
    have hres : get = (some t, s') := by
      simp only [get, hext]
      exact hget
    rw [hres]
    exact ⟨t, rfl, hown⟩
  · obtain ⟨s₂, hfound, hs'⟩ :=
      getInternal_some hs.base (Prod.ext hres rfl : get = (some t, get.2))
    have hacc := schedulerUpdateAccounting_some s₂ pid cpu ts t
    simp only [hfound.pid_eq, hfound.steady.timestamps] at hacc
    rw [hs']
    exact hacc

/-- Task 1 belongs to process 1, the others to process 0. -/
def twoProcesses (t : TaskId) : Task :=
  nosvCreateInternal (if t = 1 then 1 else 0) ⟨.none, .preferred, 0⟩

/-- The CPU has run process 0 for more than its quantum of ten: it is given
to process 1, although process 0 has another task. -/
theorem process_selected_quantum_over :
    ∃ a, Run.run (Accounts.step .oneCpu) (.init twoProcesses 10 id)
        [.insert 0, .insert 1, .get 0 0 false 5, .insert 2] = some a
      ∧ schedulerShouldYield a.sched 0 0 100 = true
      ∧ Offers .oneCpu 0 a.sched 0 ∧ Offers .oneCpu 0 a.sched 1
      ∧ (schedulerGetInternal .oneCpu a.sched 0 0 (requestExternal 0) 100).1 = some 1
      ∧ Selected .oneCpu a.sched 0 0 0 100
        (schedulerGetInternal .oneCpu a.sched 0 0 (requestExternal 0) 100).1
        (schedulerGetInternal .oneCpu a.sched 0 0 (requestExternal 0) 100).2 := by
  have heval : (Run.run (Accounts.step .oneCpu) (.init twoProcesses 10 id)
      [.insert 0, .insert 1, .get 0 0 false 5, .insert 2]).map (fun a =>
        (schedulerShouldYield a.sched 0 0 100, decide (Offers .oneCpu 0 a.sched 0),
          decide (Offers .oneCpu 0 a.sched 1),
          (schedulerGetInternal .oneCpu a.sched 0 0 (requestExternal 0) 100).1))
      = some (true, true, true, some 1) := by
    decide +kernel
  obtain ⟨a, hrun, hval⟩ := Option.map_eq_some_iff.mp heval
  simp only [Prod.mk.injEq, decide_eq_true_eq] at hval
  obtain ⟨hyield, h₀, h₁, hres⟩ := hval
  have hs := coherent_of_run .oneCpu twoProcesses 10 id _ a hrun (by decide +kernel)
  have hclock : a.sched.clock = id := by
    have heq : (Run.run (Accounts.step .oneCpu) (.init twoProcesses 10 id)
      [.insert 0, .insert 1, .get 0 0 false 5, .insert 2]).map (fun a => a.sched.clock)
        = some id := rfl
    rw [hrun] at heq
    exact Option.some.inj heq
  exact ⟨a, hrun, hyield, h₀, h₁, hres,
    process_selected .oneCpu a.sched 0 0 0 100 hs (hclock ▸ monotone_id)⟩

end Nosv
