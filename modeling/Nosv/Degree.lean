import Nosv.RuntimeInv

/-!
# Degrees in the scheduler

`nosv_cancel` marks a task by the sign of its degree, and only a new
degree takes the mark away. A cancelled task that comes back into the
scheduler, because it blocks, yields or is submitted anew, is counted
with a negative degree.

`Degreed` is what holds until then: no task in the scheduler has been
handed out as often as its degree says, and the ordinary ones have degree
one. So the degrees that insertions see are positive exactly as long as no
cancelled task is inserted.
-/

namespace Nosv

open RBTree Relation Places Run

/-- The task that is inserted has not been cancelled since its degree was
set. -/
def InsertsUncancelled (r : Runtime) : Call → Prop
  | .insert n => ∀ e ∈ r.inQueue[n]?, (r.info e.1).cancelled = false
  | _ => True

instance (r : Runtime) (c : Call) : Decidable (InsertsUncancelled r c) := by
  apply Call.casesOn (motive := fun c => Decidable (InsertsUncancelled r c)) c <;>
    intros <;> (dsimp only [InsertsUncancelled]; infer_instance)

/-- An insertion adds a positive amount to the counters, and a search finds
no cancelled task that was handed out more often than its degree. -/
def DegreeHolds (topo : Topology) (r : Runtime) : Call → Prop
  | .insert n => ∀ e ∈ r.inQueue[n]?, 0 < taskGetDegree (r.task e.1)
  | .get .. => ∀ p ∈ r.sched.queues, ∀ c ∈ containers topo, ∀ t ∈ r.sched.places (p, c),
      (r.task t).degree < 0 → ((r.task t).nextCount : Int) ≤ -(r.task t).degree
  | _ => True

instance (topo : Topology) (r : Runtime) (c : Call) : Decidable (DegreeHolds topo r c) := by
  apply Call.casesOn (motive := fun c => Decidable (DegreeHolds topo r c)) c <;>
    intros <;> (dsimp only [DegreeHolds]; infer_instance)

/-! ## The invariant -/

structure DegreeOk (k : Task) (i : TaskInfo) : Prop where
  positive : i.cancelled = false → 0 < k.degree
  negative : i.cancelled = true → k.degree < 0
  bound : k.degree.natAbs < 2147483648
  idle : i.phase = .idle → k.scheduledCount = 0

/-- A stored task is owed an execution. -/
structure Owed (k : Task) : Prop where
  parallel : taskIsParallel k = true → k.scheduledCount < k.degree.natAbs
  ordinary : taskIsParallel k = false → k.degree = 1

structure Degreed (topo : Topology) (r : Runtime) : Prop where
  placed : Placed topo r
  tasks : ∀ t, DegreeOk (r.task t) (r.info t)
  pushed : ∀ e ∈ r.inQueue, taskIsParallel (r.task e.1) = true → (r.task e.1).scheduledCount = 0
  stored : ∀ x t, t ∈ r.sched.places x → Owed (r.task t)

variable {topo : Topology} {r r' : Runtime} {t : TaskId}

theorem DegreeOk.same {k k' : Task} {i : TaskInfo} (h : DegreeOk k i) (hk : SameTask k k') :
    DegreeOk k' i := by
  refine ⟨?_, ?_, ?_, ?_⟩
  · rw [hk.degree]
    exact h.positive
  · rw [hk.degree]
    exact h.negative
  · rw [hk.degree]
    exact h.bound
  · rw [hk.scheduledCount]
    exact h.idle

theorem Owed.same {k k' : Task} (h : Owed k) (hk : SameTask k k') : Owed k' := by
  refine ⟨?_, ?_⟩
  · rw [taskIsParallel_congr hk.degree, hk.degree, hk.scheduledCount]
    exact h.parallel
  · rw [taskIsParallel_congr hk.degree, hk.degree]
    exact h.ordinary

/-! ## Calls -/

/-- What a call must show of its write: the degree of the task, the count
of a task that it pushes, and the executions of a task that is stored. -/
structure WritesDegree (k k' : Task) (i i' : TaskInfo) (push : Option Origin) : Prop where
  degree : DegreeOk k' i'
  fresh : push.isSome = true → taskIsParallel k' = true → k'.scheduledCount = 0
  stored : i.phase = .queued → k'.scheduledCount = k.scheduledCount
    ∧ (k'.degree = k.degree ∨ (0 < i.live ∧ k'.degree = -k.degree))

/-- A write that leaves degree and count as they are. -/
theorem DegreeOk.keeps {k k' : Task} {i i' : TaskInfo} {push : Option Origin}
    (h : DegreeOk k i) (hdegree : k'.degree = k.degree)
    (hcount : k'.scheduledCount = k.scheduledCount) (hcancel : i'.cancelled = i.cancelled)
    (hidle : i'.phase = .idle → i.phase = .idle)
    (hfresh : push.isSome = true → taskIsParallel k = true → k.scheduledCount = 0) :
    WritesDegree k k' i i' push := by
  refine ⟨⟨?_, ?_, ?_, fun hph => ?_⟩, fun hp hpar => ?_, fun _ => ⟨hcount, Or.inl hdegree⟩⟩
  · rw [hdegree, hcancel]
    exact h.positive
  · rw [hdegree, hcancel]
    exact h.negative
  · rw [hdegree]
    exact h.bound
  · rw [hcount]
    exact h.idle (hidle hph)
  · rw [hcount]
    rw [taskIsParallel_congr hdegree] at hpar
    exact hfresh hp hpar

theorem Write.writesDegree {c : Call} {k : Task} {i : TaskInfo} {push : Option Origin}
    (hw : Write topo r c t k i push) (hc : Regular topo r c) (hok : TaskOk topo (r.task t) (r.info t))
    (h : DegreeOk (r.task t) (r.info t)) : WritesDegree (r.task t) k (r.info t) i push := by
  -- only an ordinary task blocks
  have hblock (hmay : r.MayBlock t) (hpar : taskIsParallel (r.task t) = true) :
      (r.task t).scheduledCount = 0 := by
    rw [hmay.2] at hpar
    cases hpar
  have hrest (hidle : (r.info t).phase ≠ .idle) (hqueued : (r.info t).phase ≠ .queued)
      (hrunning : (r.info t).phase ≠ .running) (hended : (r.info t).phase ≠ .ended)
      (hpar : taskIsParallel (r.task t) = true) : (r.task t).scheduledCount = 0 := by
    rcases hok.parallel hpar with hph | hph | hph | hph
    · exact absurd hph hidle
    · exact absurd hph hqueued
    · exact absurd hph hrunning
    · exact absurd hph hended
  cases hw with
  | setAttributes hph hv hpos htyped =>
      refine ⟨⟨fun _ => hpos, fun hc => ?_, ?_, h.idle⟩, fun hp => ?_, fun hq => ?_⟩
      · cases hc
      · have := htyped.2.1
        simp only at this ⊢
        omega
      · cases hp
      · rw [hph] at hq
        cases hq
  | submitCounts hmay hcount => exact h.keeps rfl rfl rfl id (by simp)
  | submitPushes hmay hcount =>
      exact h.keeps rfl rfl rfl (by simp) fun _ hpar => h.idle (hmay.2 hpar)
  | immediateCounts hmay hcount => exact h.keeps rfl rfl rfl id (by simp)
  | immediateSets hmay hpar hcount => exact h.keeps rfl rfl rfl (by simp) (by simp)
  | submitInline hph hpar => exact h.keeps rfl rfl rfl (by simp) (by simp)
  | runImmediate count hph =>
      refine ⟨⟨h.positive, h.negative, h.bound, by simp⟩, by simp, fun hq => ?_⟩
      rw [hph] at hq
      cases hq
  | dropImmediate hph =>
      exact h.keeps rfl rfl rfl (by simp) fun _ =>
        hrest (by simp [hph]) (by simp [hph]) (by simp [hph]) (by simp [hph])
  | setSuspendMode hcalls =>
      rename_i mode args
      rcases nosvSetSuspendMode_cases (r.task t) mode args with heq | ⟨m, -, -, heq⟩
      · rw [heq]
        exact h.keeps rfl rfl rfl id (by simp)
      · rw [heq]
        exact h.keeps rfl rfl rfl id (by simp)
  | suspend hcalls => exact h.keeps rfl rfl rfl id (by simp)
  | bodySuspends hcalls hs =>
      rename_i now events
      have hsus := taskSuspend_suspends (r.task t) now events
      refine h.keeps hsus.degree hsus.scheduledCount rfl (fun hidle => ?_) fun _ =>
        hblock ⟨hcalls, (hok.suspend hs).1⟩
      simp only at hidle
      rcases hsus.leads with ⟨hq, -⟩ | ⟨hq, -⟩ | ⟨hq, -⟩ <;> rw [hq] at hidle <;> cases hidle
  | bodyEnds hcalls hs =>
      refine h.keeps rfl rfl rfl (fun hidle => ?_) (by simp)
      simp only at hidle
      split at hidle
      · cases hidle
      · exact hidle
  | complete =>
      have hph : (r.info t).phase = .ended := hc
      refine ⟨⟨h.positive, h.negative, h.bound, fun _ => rfl⟩, by simp, fun hq => ?_⟩
      rw [hph] at hq
      cases hq
  | eventsOver =>
      have hph : (r.info t).phase = .sleeping := hc
      exact h.keeps rfl rfl rfl (by simp) fun _ =>
        hrest (by simp [hph]) (by simp [hph]) (by simp [hph]) (by simp [hph])
  | pauses hmay hcount => exact h.keeps rfl rfl rfl (by simp) (by simp)
  | pauseReturns hmay hcount => exact h.keeps rfl rfl rfl id (by simp)
  | waits hmay hset =>
      rename_i now timeout
      have hd := setTaskDeadline_same (r.task t) now timeout
      exact h.keeps hd.degree hd.scheduledCount rfl (by simp) fun _ => hblock hmay
  | waitReturns hmay hset =>
      rename_i now timeout
      have hd := setTaskDeadline_same (r.task t) now timeout
      exact h.keeps hd.degree hd.scheduledCount rfl id (by simp)
  | yields hmay => exact h.keeps rfl rfl rfl (by simp) fun _ => hblock hmay
  | yieldStays hmay => exact h.keeps rfl rfl rfl id (by simp)
  | yieldReturns hlive hyield => exact h.keeps rfl rfl rfl id (by simp)
  | schedpoint hmay => exact h.keeps rfl rfl rfl (by simp) fun _ => hblock hmay
  | block hmay => exact h.keeps rfl rfl rfl (by simp) (by simp)
  | unblock hph =>
      exact h.keeps rfl rfl rfl (by simp) fun _ =>
        hrest (by simp [hph]) (by simp [hph]) (by simp [hph]) (by simp [hph])
  | unlockPushes hmay => exact h.keeps rfl rfl rfl (by simp) fun _ => hblock hmay
  | unlockRuns u hph => exact h.keeps rfl rfl rfl (by simp) (by simp)
  | cancel hcalls hdegree =>
      have hpos : 0 < (r.task t).degree := by
        cases hc : (r.info t).cancelled with
        | false => exact h.positive hc
        | true =>
            have := h.negative hc
            omega
      refine ⟨⟨fun hc => ?_, fun _ => ?_, ?_, h.idle⟩, by simp,
        fun _ => ⟨rfl, Or.inr ⟨hcalls.1, rfl⟩⟩⟩
      · cases hc
      · simp only
        omega
      · have := h.bound
        simp only
        omega

/-! ## Runs -/

theorem stored_of_not_absent {s : Scheduler} {u : TaskId} (h : ¬ Absent s.places u) :
    ∃ x, u ∈ s.places x := by
  simpa only [Absent, not_forall, not_not] using h

/-- A write to a stored task keeps it owed: only a parallel task is
cancelled there. -/
theorem Owed.writes {k k' : Task} {i i' : TaskInfo} {push : Option Origin} (h : Owed k)
    (hok : TaskOk topo k i) (hw : WritesDegree k k' i i' push) (hq : i.phase = .queued) :
    Owed k' := by
  obtain ⟨hcount, hdegree | ⟨hlive, hdegree⟩⟩ := hw.stored hq
  · refine ⟨?_, ?_⟩
    · rw [taskIsParallel_congr hdegree, hdegree, hcount]
      exact h.parallel
    · rw [taskIsParallel_congr hdegree, hdegree]
      exact h.ordinary
  · have hpar : taskIsParallel k = true := by
      by_contra hne
      have := (hok.running hlive (by simpa using hne)).1
      rw [hq] at this
      cases this
    have hpar' : taskIsParallel k' = true := by
      rw [taskIsParallel_iff] at hpar ⊢
      omega
    refine ⟨fun _ => ?_, fun hne => ?_⟩
    · have := h.parallel hpar
      omega
    · rw [hpar'] at hne
      cases hne

theorem Degreed.write {c : Call} {k : Task} {i : TaskInfo} {push : Option Origin}
    (h : Degreed topo r) (hc : Regular topo r c) (hw : Write topo r c t k i push) :
    Degreed topo (r.put t k i push) := by
  have hwd := hw.writesDegree hc (h.placed.tasks t) (h.tasks t)
  refine ⟨h.placed.write hc hw, fun u => ?_, fun e he => ?_, fun x u hu => ?_⟩
  · by_cases hu : u = t
    · subst hu
      rw [Runtime.put_task_self, Runtime.put_info_self]
      exact hwd.degree
    · rw [Runtime.put_task_ne r k i push hu, Runtime.put_info_ne r k i push hu]
      exact h.tasks u
  · rcases (Runtime.mem_put r k i push).mp he with he | ⟨o, ho, rfl⟩
    · by_cases hu : e.1 = t
      · obtain ⟨hq, hlive, -⟩ := h.placed.pushed e he
        have hpushed := h.pushed e he
        rw [hu] at hq hlive hpushed
        rw [hu, Runtime.put_task_self]
        obtain ⟨hcount, hdegree | ⟨hpos, -⟩⟩ := hwd.stored hq
        · rw [taskIsParallel_congr hdegree, hcount]
          exact hpushed
        · omega
      · rw [Runtime.put_task_ne r k i push hu]
        exact h.pushed e he
    · rw [Runtime.put_task_self]
      exact hwd.fresh (Option.isSome_iff_exists.mpr ⟨o, ho⟩)
  · by_cases hut : u = t
    · subst hut
      rw [Runtime.put_task_self]
      exact (h.stored x u hu).writes (h.placed.tasks u) hwd (h.placed.stored x u hu)
    · rw [Runtime.put_task_ne r k i push hut]
      exact h.stored x u hu

theorem Degreed.keeps {s : Scheduler} (h : Degreed topo r) (hk : Keeps r.sched s)
    (hb : Base topo s) : Degreed topo { r with sched := s } := by
  refine ⟨h.placed.keeps hk hb, fun u => (h.tasks u).same (hk.task u), fun e he => ?_,
    fun x u hu => ?_⟩
  · have hsame : SameTask (r.task e.1) (s.task e.1) := hk.task e.1
    simp only [Runtime.task]
    rw [taskIsParallel_congr hsame.degree, hsame.scheduledCount]
    exact h.pushed e he
  · have hold : ¬ Absent r.sched.places u := fun habs => (hk.stored u).mpr habs x hu
    obtain ⟨y, hy⟩ := stored_of_not_absent hold
    exact (h.stored y u hy).same (hk.task u)

theorem Degreed.insert {n : Nat} {o : Origin} {s : Scheduler} (h : Degreed topo r)
    (hn : r.inQueue[n]? = some (t, o)) (hc : (r.info t).cancelled = false)
    (hs : schedulerInsertReadyTask r.sched t = some s) :
    Degreed topo { r with sched := s, inQueue := r.inQueue.eraseIdx n } := by
  have hmem := List.mem_of_getElem? hn
  obtain ⟨-, -, habs⟩ := h.placed.pushed _ hmem
  obtain ⟨hsame, hplaces⟩ := insert_keeps h.placed.base habs hs
  have hpos := (h.tasks t).positive hc
  have howed : Owed (r.task t) := by
    refine ⟨fun hpar => ?_, fun hpar => ?_⟩
    · have hzero : (r.task t).scheduledCount = 0 := h.pushed _ hmem hpar
      omega
    · have := taskIsParallel_iff.not.mp (by rw [hpar]; decide)
      omega
  refine ⟨h.placed.insert hn hs, fun u => (h.tasks u).same (hsame u), fun e he => ?_,
    fun x u hu => ?_⟩
  · simp only [Runtime.task]
    rw [taskIsParallel_congr (hsame e.1).degree, (hsame e.1).scheduledCount]
    exact h.pushed e (List.mem_of_mem_eraseIdx he)
  · by_cases hut : u = t
    · subst hut
      exact howed.same (hsame u)
    · have hold : ¬ Absent r.sched.places u := fun habs' => (hplaces u).mpr ⟨hut, habs'⟩ x hu
      obtain ⟨y, hy⟩ := stored_of_not_absent hold
      exact (h.stored y u hy).same (hsame u)

/-- A task that stays after a hand-out is owed another execution. -/
theorem Owed.handOut {k : Task} (h : Owed k) (hlast : ¬ k.IsLast) :
    Owed { k with scheduledCount := k.nextCount } := by
  simp only [Task.IsLast, not_or, not_lt, not_le] at hlast
  refine ⟨fun _ => ?_, h.ordinary⟩
  simp only
  omega

theorem Degreed.get {cpu pid ts : Nat} {external : Bool} (h : Degreed topo r)
    (hc : Regular topo r (.get cpu pid external ts)) :
    Degreed topo (r.receive topo (schedulerGetInternal topo r.sched cpu pid external ts)) := by
  have hp := h.placed.get hc
  have hb : Base topo (schedulerGetInternal topo r.sched cpu pid external ts).2 :=
    h.placed.base.get
  cases hget : schedulerGetInternal topo r.sched cpu pid external ts with
  | mk result s =>
  rw [hget] at hp hb
  cases result with
  | none =>
      obtain ⟨s₁, hr, -, hidle⟩ := get_cases h.placed.base hget
      exact h.keeps ((reroutes_keeps h.placed.base hr).trans hidle.keeps) hb
  | some t =>
      have ho := get_handsOut h.placed.base hget
      have hph := h.placed.handedOut ho
      refine ⟨hp, fun u => ?_, fun e he => ?_, fun x u hu => ?_⟩
      · by_cases hut : u = t
        · subst hut
          have hok := h.tasks u
          have hne : (if s.Holding topo u then (r.info u).phase else Phase.running) ≠ .idle := by
            split <;> simp [hph]
          have hout : DegreeOk { r.task u with scheduledCount := (r.task u).nextCount }
              ((r.receive topo (some u, s)).info u) := by
            rw [Runtime.receive_info_self]
            exact ⟨hok.positive, hok.negative, hok.bound, fun hi => absurd hi hne⟩
          exact hout.same ho.self
        · rw [Runtime.receive_info_ne r topo s hut]
          exact (h.tasks u).same (ho.other u hut).1
      · have hne : e.1 ≠ t := fun heq => ho.was (heq ▸ (h.placed.pushed e he).2.2)
        have hsame : SameTask (r.task e.1) ((r.receive topo (some t, s)).task e.1) :=
          (ho.other e.1 hne).1
        rw [taskIsParallel_congr hsame.degree, hsame.scheduledCount]
        exact h.pushed e he
      · by_cases hut : u = t
        · subst hut
          have hlast : ¬ (r.task u).IsLast := fun hl => ho.last hl x hu
          obtain ⟨y, hy⟩ := stored_of_not_absent ho.was
          exact ((h.stored y u hy).handOut hlast).same ho.self
        · obtain ⟨y, hy⟩ := stored_of_not_absent fun habs =>
            (ho.other u hut).2.mpr habs x hu
          exact (h.stored y u hy).same (ho.other u hut).1

theorem degreed_step {c : Call} (hr : Regular topo r c) (hc : InsertsUncancelled r c)
    (hstep : r.step topo c = some r') (h : Degreed topo r) : Degreed topo r' := by
  cases Runtime.step_cases hstep with
  | stay => exact h
  | write hw => exact h.write hr hw
  | unlock hw _ hwait =>
      rename_i t u k i
      exact (h.write hr hw).write (by trivial) (.unlockRuns t hwait)
  | wake hpar =>
      rename_i t
      have hidle := submitDeadlineWake_idles h.placed.base.linked t
      exact h.keeps hidle.keeps (h.placed.base.idles hidle)
  | insert hn hs => exact h.insert hn (hc _ hn) hs
  | get hcpu => exact h.get hr
  | purge =>
      rename_i logicPid
      obtain ⟨s₁, -, hb, hidle⟩ := purge_cases h.placed.base logicPid
      exact h.keeps (purge_keeps h.placed.base logicPid) (hb.idles hidle)

theorem degreed_init (pid : TaskId → Nat) (quantumNs : Nat) (clock : Nat → Nat) :
    Degreed topo (Runtime.init pid quantumNs clock) := by
  have hone (t : TaskId) : ((Runtime.init pid quantumNs clock).task t).degree = 1 := rfl
  refine ⟨placed_init pid quantumNs clock, fun t => ⟨fun _ => ?_, fun hc => ?_, ?_, fun _ => rfl⟩,
    fun e he => ?_, fun x t ht => ?_⟩
  · rw [hone]
    decide
  · cases hc
  · rw [hone]
    decide
  · cases he
  · simp only [Runtime.init, schedulerInit_places] at ht
    exact absurd ht (Multiset.notMem_zero t)

theorem Degreed.holds_iff {c : Call} (h : Degreed topo r) :
    DegreeHolds topo r c ↔ InsertsUncancelled r c := by
  cases c with
  | insert n =>
      refine forall₂_congr fun e he => ?_
      have hok := h.tasks e.1
      unfold taskGetDegree
      cases hc : (r.info e.1).cancelled with
      | false => simpa using hok.positive hc
      | true =>
          have := hok.negative hc
          simp only [Bool.true_eq_false, iff_false]
          omega
  | get cpu pid external ts =>
      refine ⟨fun _ => trivial, fun _ => ?_⟩
      intro p hp c hc t ht hneg
      have howed := h.stored _ t ht
      have hbound := (h.tasks t).bound
      have hpar : taskIsParallel (r.task t) = true := by
        by_contra hne
        have := howed.ordinary (by simpa using hne)
        omega
      have hlt := howed.parallel hpar
      have hnext : (r.task t).nextCount = (r.task t).scheduledCount + 1 := by
        unfold Task.nextCount u32
        omega
      rw [hnext]
      push_cast
      omega
  | _ => exact Iff.rfl

/-- In every regular run, the degrees that the scheduler sees are positive
if and only if no cancelled task is inserted. -/
theorem degree_positive_iff (topo : Topology) (pid : TaskId → Nat) (quantumNs : Nat)
    (clock : Nat → Nat) (calls : List Call)
    (hr : Along (Runtime.step topo) (Regular topo) (Runtime.init pid quantumNs clock) calls) :
    Along (Runtime.step topo) (DegreeHolds topo) (Runtime.init pid quantumNs clock) calls
      ↔ Along (Runtime.step topo) InsertsUncancelled (Runtime.init pid quantumNs clock) calls :=
  along_iff_of_invariant (fun _ _ _ hr hc hstep h => degreed_step hr hc hstep h)
    (fun _ _ _ h => h.holds_iff) hr (degreed_init pid quantumNs clock)

/-- A parallel task that is cancelled, completes, gets a new degree and is
submitted again. -/
def recycledCalls : List Call :=
  [.setAttributes 0 0 ⟨.none, .preferred, 0⟩ 3, .submit 0, .insert 0, .get 0 0 false 0, .cancel 0,
    .get 0 0 false 0, .endBody 0 0 false, .endBody 0 0 false, .complete 0,
    .setAttributes 0 0 ⟨.none, .preferred, 0⟩ 2, .submit 0, .insert 0]

theorem degree_positive_recycled :
    (run (Runtime.step .oneCpu) (.init (fun _ => 0) 0 (fun _ => 0)) recycledCalls).isSome = true
      ∧ Along (Runtime.step .oneCpu) (DegreeHolds .oneCpu) (.init (fun _ => 0) 0 (fun _ => 0))
        recycledCalls := by
  refine ⟨by decide +kernel, ?_⟩
  exact (degree_positive_iff .oneCpu (fun _ => 0) 0 (fun _ => 0) recycledCalls
    (by decide +kernel)).mpr (by decide +kernel)

/-- An ordinary task that cancels itself and yields is inserted with degree
minus one; so is a parallel task that is cancelled and then submitted
again. -/
theorem degree_negative_after_cancel :
    ¬ Along (Runtime.step .oneCpu) (DegreeHolds .oneCpu) (.init (fun _ => 0) 0 (fun _ => 0))
        [.submit 0, .insert 0, .get 0 0 false 0, .cancel 0, .yield 0 true, .insert 0]
      ∧ ¬ Along (Runtime.step .oneCpu) (DegreeHolds .oneCpu) (.init (fun _ => 0) 0 (fun _ => 0))
        [.setAttributes 0 0 ⟨.none, .preferred, 0⟩ 3, .submit 0, .insert 0, .get 0 0 false 0,
          .cancel 0, .get 0 0 false 0, .endBody 0 0 false, .endBody 0 0 false, .complete 0,
          .submit 0, .insert 0] := by
  refine ⟨by decide +kernel, by decide +kernel⟩

end Nosv
