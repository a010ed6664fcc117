import Nosv.RuntimeInv

/-!
# Who is treated as yielding

The scheduler takes a task for yielding when the shared word is not zero.
`Marked` says how the word relates to the calls of a task: while a task is
not submitted the word is the argument of its `nosv_set_suspend_mode`, and
while it waits in the in-queue the word says whether it yielded. It holds
along every run in which

* the steps are `Regular`;
* no task is pushed with a left-over argument, by a call other than the
  suspension that the argument is for;
* no task yields between asking to yield at its suspension and suspending;
* no parallel task sets a suspend mode;
* no purge takes a node with a left child out of a deadline tree to put it
  into a list.
-/

namespace Nosv

open RBTree Relation Places Run

/-- The task that a call pushes, when it is neither a yield nor the
suspension of the task. -/
def plainPush (r : Runtime) : Call → Option TaskId
  | .submit t => if r.submitCount t = 0 then some t else none
  | .dropImmediate t => some t
  | .eventsOver t => some t
  | .waitfor t now timeout => if (setTaskDeadline (r.task t) now timeout).1 then some t else none
  | .schedpoint t => some t
  | .unblock t => some t
  | .unlockYield t _ => some t
  | _ => none

/-- The calls that keep the word meaningful. -/
def Marking (topo : Topology) (r : Runtime) (c : Call) : Prop :=
  Regular topo r c ∧ (∀ t ∈ plainPush r c, (r.info t).args = 0) ∧
    match c with
    | .setSuspendMode t _ _ => taskIsParallel (r.task t) = false
    | .yield t _ => (r.info t).asked = false
    | .purge logicPid => CleanDeadlinePurge r.sched logicPid
    | _ => True

instance (topo : Topology) (r : Runtime) (c : Call) : Decidable (Marking topo r c) := by
  apply Call.casesOn (motive := fun c => Decidable (Marking topo r c)) c <;>
    intros <;> (dsimp only [Marking]; infer_instance)

/-- The scheduler sees a yielding task exactly when it yielded, and a task
that leaves it leaves with a zero word. -/
def MarkExact (topo : Topology) (r : Runtime) : Call → Prop
  | .insert n => ∀ e ∈ r.inQueue[n]?, ((r.task e.1).yield ≠ 0 ↔ e.2 = .yields)
  | .get cpu pid external ts =>
      let (result, s) := schedulerGetInternal topo r.sched cpu pid external ts
      ∀ t ∈ result, s.Holding topo t ∨ (s.task t).word = 0
  | _ => True

instance (topo : Topology) (r : Runtime) (c : Call) : Decidable (MarkExact topo r c) := by
  apply Call.casesOn (motive := fun c => Decidable (MarkExact topo r c)) c <;>
    intros <;> (dsimp only [MarkExact]; infer_instance)

/-! ## The word of one task -/

structure WordOk (k : Task) (i : TaskInfo) : Prop where
  out : i.phase ≠ .queued → k.word = i.args
  queued : i.phase = .queued → i.args = 0
  mode : k.suspendMode = .submit → i.args ≤ 1 ∧ (i.asked = true ↔ i.args = 1)
  asked : i.asked = true → k.suspendMode = .submit
  yielding : i.yielding = true →
    taskIsParallel k = false ∧ i.args = 0 ∧ (i.phase = .queued ∨ i.phase = .running)

structure Marked (topo : Topology) (r : Runtime) : Prop where
  placed : Placed topo r
  clean : ListClean r.sched
  words : ∀ t, WordOk (r.task t) (r.info t)
  pushed : ∀ e ∈ r.inQueue, ((r.task e.1).word ≠ 0 ↔ e.2 = .yields)

variable {topo : Topology} {r r' : Runtime} {t : TaskId}

theorem WordOk.same {k k' : Task} {i : TaskInfo} (h : WordOk k i) (hk : SameTask k k')
    (hword : i.phase ≠ .queued → k'.word = k.word) : WordOk k' i := by
  refine ⟨fun hph => (hword hph).trans (h.out hph), h.queued, ?_, ?_, ?_⟩
  · rw [hk.suspendMode]
    exact h.mode
  · rw [hk.suspendMode]
    exact h.asked
  · have hpar : taskIsParallel k' = taskIsParallel k := by
      simp only [taskIsParallel, hk.degree]
    rw [hpar]
    exact h.yielding

/-- A suspension in submit mode keeps the argument. -/
theorem taskSuspend_submit {k : Task} (h : k.suspendMode = .submit) (now : Nat) (events : Bool) :
    taskSuspend k now events = ({ k with suspendMode := .none, suspend := false }, .queued, true) := by
  unfold taskSuspend
  simp only [h]
  rfl

/-- A suspension in any other mode clears the word. -/
theorem taskSuspend_word {k : Task} (h : k.suspendMode ≠ .submit) (now : Nat) (events : Bool) :
    (taskSuspend k now events).1.word = 0 := by
  unfold taskSuspend
  cases hmode : k.suspendMode with
  | none =>
      simp only
      split <;> rfl
  | timeout =>
      simp only [setTaskDeadline]
      split <;> rfl
  | submit => exact absurd hmode h
  | event => cases events <;> rfl

theorem taskSuspend_mode (k : Task) (now : Nat) (events : Bool) :
    (taskSuspend k now events).1.suspendMode = .none := by
  unfold taskSuspend
  cases hmode : k.suspendMode with
  | none =>
      simp only
      split <;> rfl
  | timeout =>
      simp only [setTaskDeadline]
      split <;> rfl
  | submit => rfl
  | event => cases events <;> rfl

theorem setTaskDeadline_word (k : Task) (now timeout : Nat) :
    (setTaskDeadline k now timeout).2.word = k.word := by
  unfold setTaskDeadline
  split <;> rfl

/-- A task that may block is not submitted. -/
theorem TaskOk.not_queued (hok : TaskOk topo (r.task t) (r.info t)) (hmay : r.MayBlock t) :
    (r.info t).phase ≠ .queued := by
  rw [(hok.running hmay.1.1 hmay.2).1]
  decide

/-- No call writes to the word of a submitted task, if setting a suspend
mode does not and only ordinary tasks yield. -/
theorem Write.word_queued {c : Call} {k : Task} {i : TaskInfo} {push : Option Origin}
    (hw : Write topo r c t k i push) (hok : TaskOk topo (r.task t) (r.info t))
    (hq : (r.info t).phase = .queued)
    (hset : ∀ mode args, c = .setSuspendMode t mode args → r.Calls t →
      (nosvSetSuspendMode (r.task t) mode args).2.word = (r.task t).word)
    (hyields : (r.info t).yielding = true → taskIsParallel (r.task t) = false) :
    k.word = (r.task t).word := by
  have hblock (hmay : r.MayBlock t) : False := hok.not_queued hmay hq
  cases hw with
  | setSuspendMode hcalls => exact hset _ _ rfl hcalls
  | bodySuspends hcalls hs => exact (hblock ⟨hcalls, (hok.suspend hs).1⟩).elim
  | waits hmay hset => exact setTaskDeadline_word _ _ _
  | waitReturns hmay hset => exact setTaskDeadline_word _ _ _
  | yields hmay => exact (hblock hmay).elim
  | yieldStays hmay => exact (hblock hmay).elim
  | yieldReturns hlive hyield =>
      have := (hok.running hlive (hyields hyield)).1
      rw [hq] at this
      cases this
  | _ => rfl

/-! ## Calls -/

/-- What a call must show of its write: the word of the task, and the
mark of the submission. -/
structure WritesWord (k : Task) (i : TaskInfo) (push : Option Origin) : Prop where
  word : WordOk k i
  mark : ∀ o ∈ push, (k.word ≠ 0 ↔ o = .yields)

/-- Nothing is written that the word depends on, but for the phase. -/
structure SameWord (k k' : Task) (i i' : TaskInfo) : Prop where
  word : k'.word = k.word
  suspendMode : k'.suspendMode = k.suspendMode
  args : i'.args = i.args
  asked : i'.asked = i.asked
  yielding : i'.yielding = i.yielding

theorem WordOk.not_yielding {k : Task} {i : TaskInfo} (h : WordOk k i)
    (hqueued : i.phase ≠ .queued) (hrunning : i.phase ≠ .running) : i.yielding = false := by
  by_contra hy
  rcases (h.yielding (by simpa using hy)).2.2 with hph | hph
  · exact hqueued hph
  · exact hrunning hph

/-- The task stays in its phase. -/
theorem WordOk.stays {k k' : Task} {i i' : TaskInfo} (h : WordOk k i) (hs : SameWord k k' i i')
    (hpar : taskIsParallel k' = taskIsParallel k) (hph : i'.phase = i.phase) :
    WritesWord k' i' none := by
  refine ⟨⟨?_, ?_, ?_, ?_, ?_⟩, fun o ho => by cases ho⟩
  · rw [hph, hs.word, hs.args]
    exact h.out
  · rw [hph, hs.args]
    exact h.queued
  · rw [hs.suspendMode, hs.args, hs.asked]
    exact h.mode
  · rw [hs.suspendMode, hs.asked]
    exact h.asked
  · rw [hs.yielding, hs.args, hph, hpar]
    exact h.yielding

/-- The task goes from a phase to another, not being submitted. -/
theorem WordOk.moves {k k' : Task} {i i' : TaskInfo} (h : WordOk k i) (hs : SameWord k k' i i')
    (hy : i.yielding = false) (hph : i.phase ≠ .queued) (hph' : i'.phase ≠ .queued) :
    WritesWord k' i' none := by
  refine ⟨⟨fun _ => ?_, fun hq => absurd hq hph', ?_, ?_, fun hy' => ?_⟩, fun o ho => by cases ho⟩
  · rw [hs.word, hs.args]
    exact h.out hph
  · rw [hs.suspendMode, hs.args, hs.asked]
    exact h.mode
  · rw [hs.suspendMode, hs.asked]
    exact h.asked
  · rw [hs.yielding, hy] at hy'
    cases hy'

/-- The task is pushed, with no argument left over. -/
theorem WordOk.pushes {k k' : Task} {i i' : TaskInfo} (h : WordOk k i) (hs : SameWord k k' i i')
    (hy : i.yielding = false) (hph : i.phase ≠ .queued) (hph' : i'.phase = .queued)
    (hargs : i.args = 0) : WritesWord k' i' (some .plain) := by
  refine ⟨⟨fun hne => absurd hph' hne, fun _ => hs.args.trans hargs, ?_, ?_, fun hy' => ?_⟩,
    fun o ho => ?_⟩
  · rw [hs.suspendMode, hs.args, hs.asked]
    exact h.mode
  · rw [hs.suspendMode, hs.asked]
    exact h.asked
  · rw [hs.yielding, hy] at hy'
    cases hy'
  · obtain rfl := Option.some.inj ho
    simp [hs.word, h.out hph, hargs]

/-- The mode of a task that is not submitted is set. -/
theorem WordOk.setSuspendMode {k : Task} {i : TaskInfo} (h : WordOk k i)
    (hy : i.yielding = false) (hph : i.phase ≠ .queued) (mode : Option SuspendMode)
    (args : Nat) :
    WritesWord (nosvSetSuspendMode k mode args).2
      { i with
          args := if (nosvSetSuspendMode k mode args).1 then args else i.args,
          asked := (nosvSetSuspendMode k mode args).1 && mode == some .submit && args == 1 }
      none := by
  rcases nosvSetSuspendMode_cases k mode args with heq | ⟨m, hm, hle, heq⟩
  · rw [heq]
    refine ⟨⟨h.out, h.queued, fun hmode => ?_, fun ha => ?_, h.yielding⟩, fun o ho => ?_⟩
    · cases hmode
    · cases ha
    · cases ho
  · rw [heq]
    refine ⟨⟨fun _ => rfl, fun hq => absurd hq hph, fun hsub => ?_, fun ha => ?_, fun hy' => ?_⟩,
      fun o ho => ?_⟩
    · simp only at hsub
      subst hsub
      refine ⟨hle rfl, ?_⟩
      simp [hm]
    · simp only [hm, Bool.true_and, Bool.and_eq_true, beq_iff_eq, Option.some.injEq] at ha
      exact ha.1
    · rw [hy] at hy'
      cases hy'
    · cases ho

/-- A suspension makes the word what its mode and argument ask for. -/
theorem WordOk.suspends {k : Task} {i : TaskInfo} (h : WordOk k i) (hy : i.yielding = false)
    (hph : i.phase ≠ .queued) (now : Nat) (events : Bool) (live : Nat) :
    WritesWord (taskSuspend k now events).1
      { i with phase := (taskSuspend k now events).2.1, live := live, args := 0, asked := false }
      (if (taskSuspend k now events).2.2 then
        some (if i.asked then Origin.yields else .plain) else none) := by
  have hmode := taskSuspend_mode k now events
  have hmark : (taskSuspend k now events).1.word ≠ 0 ↔ i.asked = true := by
    by_cases hsub : k.suspendMode = .submit
    · obtain ⟨hle, hiff⟩ := h.mode hsub
      rw [taskSuspend_submit hsub]
      simp only [h.out hph, hiff]
      omega
    · rw [taskSuspend_word hsub]
      simpa using fun ha => hsub (h.asked ha)
  refine ⟨⟨fun hne => ?_, fun _ => rfl, fun hm => ?_, fun ha => ?_, fun hy' => ?_⟩, fun o ho => ?_⟩
  · refine taskSuspend_word (fun hsub => hne ?_) now events
    rw [taskSuspend_submit hsub]
  · rw [hmode] at hm
    cases hm
  · cases ha
  · rw [hy] at hy'
    cases hy'
  · rw [hmark]
    split at ho
    · obtain rfl := Option.some.inj ho
      cases i.asked <;> simp
    · cases ho

theorem Write.writesWord {c : Call} {k : Task} {i : TaskInfo} {push : Option Origin}
    (hw : Write topo r c t k i push) (hm : Marking topo r c)
    (hok : TaskOk topo (r.task t) (r.info t)) (h : WordOk (r.task t) (r.info t)) :
    WritesWord k i push := by
  have hpush := hm.2.1
  have hrun (hmay : r.MayBlock t) : (r.info t).phase ≠ .queued := hok.not_queued hmay
  -- a task in any other phase than these two is not yielding
  have hrest (hq : (r.info t).phase ≠ .queued) (hr : (r.info t).phase ≠ .running) :=
    h.not_yielding hq hr
  cases hw with
  | setAttributes hph hv hpos htyped =>
      exact h.moves ⟨rfl, rfl, rfl, rfl, rfl⟩ (hrest (by simp [hph]) (by simp [hph]))
        (by simp [hph]) (by simp [hph])
  | submitCounts hmay hcount => exact h.stays ⟨rfl, rfl, rfl, rfl, rfl⟩ rfl rfl
  | submitPushes hmay hcount =>
      have hargs := hpush t (by simp [plainPush, hcount])
      rcases hok.rested hmay hcount with hph | hph
      · exact h.pushes ⟨rfl, rfl, rfl, rfl, rfl⟩ (hrest (by simp [hph]) (by simp [hph]))
          (by simp [hph]) rfl hargs
      · exact h.pushes ⟨rfl, rfl, rfl, rfl, rfl⟩ (hrest (by simp [hph]) (by simp [hph]))
          (by simp [hph]) rfl hargs
  | immediateCounts hmay hcount => exact h.stays ⟨rfl, rfl, rfl, rfl, rfl⟩ rfl rfl
  | immediateSets hmay hpar hcount =>
      rcases hok.rested hmay hcount with hph | hph
      · exact h.moves ⟨rfl, rfl, rfl, rfl, rfl⟩ (hrest (by simp [hph]) (by simp [hph]))
          (by simp [hph]) (by simp)
      · exact h.moves ⟨rfl, rfl, rfl, rfl, rfl⟩ (hrest (by simp [hph]) (by simp [hph]))
          (by simp [hph]) (by simp)
  | submitInline hph hpar =>
      exact h.moves ⟨rfl, rfl, rfl, rfl, rfl⟩ (hrest (by simp [hph]) (by simp [hph]))
        (by simp [hph]) (by simp)
  | runImmediate count hph =>
      exact h.moves ⟨rfl, rfl, rfl, rfl, rfl⟩ (hrest (by simp [hph]) (by simp [hph]))
        (by simp [hph]) (by simp)
  | dropImmediate hph =>
      exact h.pushes ⟨rfl, rfl, rfl, rfl, rfl⟩ (hrest (by simp [hph]) (by simp [hph]))
        (by simp [hph]) rfl (hpush t rfl)
  | setSuspendMode hcalls => exact h.setSuspendMode hcalls.2 (hrun ⟨hcalls, hm.2.2⟩) _ _
  | suspend hcalls => exact h.stays ⟨rfl, rfl, rfl, rfl, rfl⟩ rfl rfl
  | bodySuspends hcalls hs =>
      exact h.suspends hcalls.2 (hrun ⟨hcalls, (hok.suspend hs).1⟩) _ _ _
  | bodyEnds hcalls hs =>
      by_cases hlast : (r.info t).phase = .running ∧ (r.info t).live - 1 = 0
      · simp only [if_pos hlast]
        exact h.moves ⟨rfl, rfl, rfl, rfl, rfl⟩ hcalls.2 (by simp [hlast.1]) (by simp)
      · simp only [if_neg hlast]
        exact h.stays ⟨rfl, rfl, rfl, rfl, rfl⟩ rfl rfl
  | complete =>
      have hph : (r.info t).phase = .ended := hm.1
      exact h.moves ⟨rfl, rfl, rfl, rfl, rfl⟩ (hrest (by simp [hph]) (by simp [hph]))
        (by simp [hph]) (by simp)
  | eventsOver =>
      have hph : (r.info t).phase = .sleeping := hm.1
      exact h.pushes ⟨rfl, rfl, rfl, rfl, rfl⟩ (hrest (by simp [hph]) (by simp [hph]))
        (by simp [hph]) rfl (hpush t rfl)
  | pauses hmay hcount =>
      exact h.moves ⟨rfl, rfl, rfl, rfl, rfl⟩ hmay.1.2 (hrun hmay) (by simp)
  | pauseReturns hmay hcount => exact h.stays ⟨rfl, rfl, rfl, rfl, rfl⟩ rfl rfl
  | waits hmay hset =>
      rename_i now timeout
      have hd := setTaskDeadline_same (r.task t) now timeout
      refine h.pushes ⟨setTaskDeadline_word _ _ _, hd.suspendMode, rfl, rfl, rfl⟩ hmay.1.2
        (hrun hmay) rfl (hpush t ?_)
      simp [plainPush, hset]
  | waitReturns hmay hset =>
      rename_i now timeout
      have hd := setTaskDeadline_same (r.task t) now timeout
      refine h.stays ⟨setTaskDeadline_word _ _ _, hd.suspendMode, rfl, rfl, rfl⟩ ?_ rfl
      simp only [taskIsParallel, hd.degree]
  | yields hmay =>
      have hasked : (r.info t).asked = false := hm.2.2
      refine ⟨⟨fun hne => absurd rfl hne, fun _ => rfl, fun _ => ⟨Nat.zero_le 1, ?_⟩, h.asked,
        fun _ => ⟨hmay.2, rfl, Or.inl rfl⟩⟩, fun o ho => ?_⟩
      · simp [hasked]
      · obtain rfl := Option.some.inj ho
        simp
  | yieldStays hmay =>
      have hasked : (r.info t).asked = false := hm.2.2
      refine ⟨⟨fun _ => rfl, fun _ => rfl, fun _ => ⟨Nat.zero_le 1, ?_⟩, h.asked, fun hy => ?_⟩,
        fun o ho => ?_⟩
      · simp [hasked]
      · exact ⟨hmay.2, rfl, (h.yielding hy).2.2⟩
      · cases ho
  | yieldReturns hlive hyield =>
      refine ⟨⟨fun _ => (h.yielding hyield).2.1.symm, h.queued, h.mode, h.asked, fun hy => ?_⟩,
        fun o ho => ?_⟩
      · cases hy
      · cases ho
  | schedpoint hmay =>
      exact h.pushes ⟨rfl, rfl, rfl, rfl, rfl⟩ hmay.1.2 (hrun hmay) rfl (hpush t rfl)
  | block hmay => exact h.moves ⟨rfl, rfl, rfl, rfl, rfl⟩ hmay.1.2 (hrun hmay) (by simp)
  | unblock hph =>
      exact h.pushes ⟨rfl, rfl, rfl, rfl, rfl⟩ (hrest (by simp [hph]) (by simp [hph]))
        (by simp [hph]) rfl (hpush t rfl)
  | unlockPushes hmay =>
      exact h.pushes ⟨rfl, rfl, rfl, rfl, rfl⟩ hmay.1.2 (hrun hmay) rfl (hpush t rfl)
  | unlockRuns u hph =>
      exact h.moves ⟨rfl, rfl, rfl, rfl, rfl⟩ (hrest (by simp [hph]) (by simp [hph]))
        (by simp [hph]) (by simp)
  | cancel hcalls hdegree =>
      refine h.stays ⟨rfl, rfl, rfl, rfl, rfl⟩ ?_ rfl
      simp only [taskIsParallel, decide_eq_decide]
      omega

/-! ## Runs -/

/-- A write to a task that is in no list, or that keeps its word. -/
theorem ListClean.write {s : Scheduler} {k : Task} (h : ListClean s)
    (hk : Absent s.places t ∨ k.word = (s.task t).word) :
    ListClean (s.modTask t fun _ => k) := by
  rcases hk with habs | hword
  · exact h.modTask habs
  · intro q j u hu hlist
    by_cases hut : u = t
    · subst hut
      have := h q j u hu hlist
      simpa [Scheduler.modTask, hword] using this
    · rw [modTask_word_ne hut]
      exact h q j u hu hlist

theorem Marked.write {c : Call} {k : Task} {i : TaskInfo} {push : Option Origin}
    (h : Marked topo r) (hm : Marking topo r c) (hw : Write topo r c t k i push) :
    Marked topo (r.put t k i push) := by
  obtain ⟨hword, hmark⟩ := hw.writesWord hm (h.placed.tasks t) (h.words t)
  have hkeep (hq : (r.info t).phase = .queued) : k.word = (r.task t).word := by
    refine hw.word_queued (h.placed.tasks t) hq (fun mode args hc hcalls => ?_)
      fun hy => ((h.words t).yielding hy).1
    subst hc
    exact absurd hq ((h.placed.tasks t).not_queued ⟨hcalls, hm.2.2⟩)
  refine ⟨h.placed.write hm.1 hw, ?_, fun u => ?_, fun e he => ?_⟩
  · refine h.clean.write ?_
    by_cases hq : (r.info t).phase = .queued
    · exact Or.inr (hkeep hq)
    · exact Or.inl (h.placed.absent hq)
  · by_cases hu : u = t
    · subst hu
      rw [Runtime.put_task_self, Runtime.put_info_self]
      exact hword
    · rw [Runtime.put_task_ne r k i push hu, Runtime.put_info_ne r k i push hu]
      exact h.words u
  · rcases (Runtime.mem_put r k i push).mp he with he | ⟨o, ho, rfl⟩
    · by_cases hu : e.1 = t
      · have hq := (h.placed.pushed e he).1
        rw [hu] at hq
        rw [hu, Runtime.put_task_self, hkeep hq, ← hu]
        exact h.pushed e he
      · rw [Runtime.put_task_ne r k i push hu]
        exact h.pushed e he
    · rw [Runtime.put_task_self]
      exact hmark o ho

/-- A step of the scheduler that hands out nothing. -/
theorem Marked.keeps {s : Scheduler} (h : Marked topo r) (hp : Placed topo { r with sched := s })
    (hk : ∀ u, SameTask (r.task u) (s.task u)) (hc : ListClean s)
    (hword : ∀ u, Absent r.sched.places u → (s.task u).word = (r.task u).word) :
    Marked topo { r with sched := s } := by
  refine ⟨hp, hc, fun u => ?_, fun e he => ?_⟩
  · exact (h.words u).same (hk u) fun hph => hword u (h.placed.absent hph)
  · have := hword e.1 (h.placed.pushed e he).2.2
    simp only [Runtime.task] at this ⊢
    rw [this]
    exact h.pushed e he

theorem Marked.insert {n : Nat} {o : Origin} {s : Scheduler} (h : Marked topo r)
    (hn : r.inQueue[n]? = some (t, o)) (hs : schedulerInsertReadyTask r.sched t = some s) :
    Marked topo { r with sched := s, inQueue := r.inQueue.eraseIdx n } := by
  obtain ⟨hphase, -, habs⟩ := h.placed.pushed _ (List.mem_of_getElem? hn)
  obtain ⟨hsame, -⟩ := insert_keeps h.placed.base habs hs
  obtain ⟨hc, hword⟩ := insert_word h.placed.base h.clean habs hs
  refine ⟨h.placed.insert hn hs, hc, fun u => ?_, fun e he => ?_⟩
  · refine (h.words u).same (hsame u) fun hph => hword u ?_
    rintro rfl
    exact hph hphase
  · have := hword e.1 (h.placed.erase_ne hn e he)
    simp only [Runtime.task] at this ⊢
    rw [this]
    exact h.pushed e (List.mem_of_mem_eraseIdx he)

/-- A task that is handed out for the last time has a zero word. -/
theorem WordOk.handOut {k k' : Task} {i : TaskInfo} (h : WordOk k i) (hph : i.phase = .queued)
    (held : Prop) [Decidable held] (count : Nat)
    (hk : SameTask { k with scheduledCount := count } k') (hzero : ¬ held → k'.word = 0) :
    WordOk k' { i with phase := if held then i.phase else .running, live := i.live + 1 } := by
  have hpar : taskIsParallel k' = taskIsParallel k := by simp only [taskIsParallel, hk.degree]
  have hargs := h.queued hph
  refine ⟨fun hne => ?_, fun _ => hargs, ?_, ?_, fun hy => ?_⟩
  · by_cases hheld : held
    · rw [if_pos hheld] at hne
      exact absurd hph hne
    · exact (hzero hheld).trans hargs.symm
  · rw [hk.suspendMode]
    exact h.mode
  · rw [hk.suspendMode]
    exact h.asked
  · refine ⟨hpar.trans (h.yielding hy).1, hargs, ?_⟩
    by_cases hheld : held
    · exact Or.inl (by simp only [if_pos hheld, hph])
    · exact Or.inr (by simp only [if_neg hheld])

theorem Marked.get {cpu pid ts : Nat} {external : Bool} (h : Marked topo r)
    (hm : Marking topo r (.get cpu pid external ts)) :
    Marked topo (r.receive topo (schedulerGetInternal topo r.sched cpu pid external ts)) := by
  have hp := h.placed.get hm.1
  cases hget : schedulerGetInternal topo r.sched cpu pid external ts with
  | mk result s =>
  rw [hget] at hp
  obtain ⟨hc, hword, hzero⟩ := get_word h.placed.base h.clean hget
  cases result with
  | none =>
      obtain ⟨s₁, hr, -, hidle⟩ := get_cases h.placed.base hget
      have hk := (reroutes_keeps h.placed.base hr).trans hidle.keeps
      exact h.keeps hp hk.task hc hword
  | some t =>
      have ho := get_handsOut h.placed.base hget
      have hph := h.placed.handedOut ho
      refine ⟨hp, hc, fun u => ?_, fun e he => ?_⟩
      · by_cases hut : u = t
        · subst hut
          have hok := (h.words u).handOut hph (s.Holding topo u) _ ho.self fun hnot =>
            hzero u rfl (hp.base.absent_iff.mpr hnot)
          rw [Runtime.receive_info_self]
          exact hok
        · have hok := (h.words u).same (ho.other u hut).1 fun hne =>
            hword u (h.placed.absent hne)
          rw [Runtime.receive_info_ne r topo s hut]
          exact hok
      · have := hword e.1 (h.placed.pushed e he).2.2
        simp only [Runtime.receive, Runtime.task] at this ⊢
        rw [this]
        exact h.pushed e he

theorem submitDeadlineWake_word (s : Scheduler) (t u : TaskId) :
    ((submitDeadlineWake s t).task u).word = (s.task u).word := by
  unfold submitDeadlineWake
  by_cases hu : u = t
  · subst hu
    simp only
    split <;> simp [Scheduler.modTask]
  · simp only
    split <;> simp [Scheduler.modTask, hu]

theorem ListClean.wake {s : Scheduler} (h : ListClean s)
    (hidle : Idles s (submitDeadlineWake s t)) : ListClean (submitDeadlineWake s t) := by
  intro q j u hu hlist
  rw [submitDeadlineWake_word]
  rw [hidle.places] at hu
  refine h q j u hu ?_
  simp only [submitDeadlineWake] at hlist
  split at hlist <;> exact hlist

theorem marked_step {c : Call} (hm : Marking topo r c) (hstep : r.step topo c = some r')
    (h : Marked topo r) : Marked topo r' := by
  cases Runtime.step_cases hstep with
  | stay => exact h
  | write hw => exact h.write hm hw
  | unlock hw hi hwait =>
      rename_i t u k i
      have hm' : Marking topo (r.put t k i (some .plain)) (.unlockYield t u) := by
        refine ⟨trivial, fun v hv => ?_, trivial⟩
        obtain rfl := Option.some.inj hv
        simp only [Runtime.put, Function.update_self, hi]
        exact hm.2.1 t rfl
      exact (h.write hm hw).write hm' (.unlockRuns t hwait)
  | wake hpar =>
      rename_i t
      have hidle := submitDeadlineWake_idles h.placed.base.linked t
      have hp := h.placed.keeps hidle.keeps (h.placed.base.idles hidle)
      refine h.keeps hp hidle.frame.task ?_ fun u _ => submitDeadlineWake_word r.sched t u
      exact h.clean.wake hidle
  | insert hn hs => exact h.insert hn hs
  | get hcpu => exact h.get hm
  | purge =>
      rename_i logicPid
      have hk := schedulerDeadlinePurge_keeps h.placed.base h.clean hm.2.2
      have hkeep := purge_keeps h.placed.base logicPid
      exact h.keeps (h.placed.keeps hkeep hk.base) hkeep.task hk.clean hk.word

theorem marked_init (pid : TaskId → Nat) (quantumNs : Nat) (clock : Nat → Nat) :
    Marked topo (Runtime.init pid quantumNs clock) := by
  refine ⟨placed_init pid quantumNs clock, fun q j u hu _ => ?_, fun t => ?_, fun e he => ?_⟩
  · rfl
  · refine ⟨fun _ => rfl, fun hq => ?_, fun hm => ?_, fun ha => ?_, fun hy => ?_⟩
    · cases hq
    · cases hm
    · cases ha
    · cases hy
  · cases he

theorem Marked.exact {c : Call} (h : Marked topo r) : MarkExact topo r c := by
  cases c with
  | insert n =>
      intro e he
      exact h.pushed e (List.mem_of_getElem? he)
  | get cpu pid external ts =>
      intro t ht
      have hb : Base topo (schedulerGetInternal topo r.sched cpu pid external ts).2 :=
        h.placed.base.get
      have hzero := (get_word h.placed.base h.clean (Prod.mk.eta.symm)).2.2 t ht
      by_cases hheld : (schedulerGetInternal topo r.sched cpu pid external ts).2.Holding topo t
      · exact Or.inl hheld
      · exact Or.inr (hzero (hb.absent_iff.mpr hheld))
  | _ => trivial

/-- Along every run that keeps the word meaningful, a task is taken for
yielding exactly when it yielded. -/
theorem yield_mark_exact (topo : Topology) (pid : TaskId → Nat) (quantumNs : Nat)
    (clock : Nat → Nat) (calls : List Call)
    (h : Along (Runtime.step topo) (Marking topo) (Runtime.init pid quantumNs clock) calls) :
    Along (Runtime.step topo) (MarkExact topo) (Runtime.init pid quantumNs clock) calls :=
  along_of_invariant (fun _ _ _ hm hstep hinv => marked_step hm hstep hinv)
    (fun _ _ _ hinv => hinv.exact) h (marked_init pid quantumNs clock)

/-- A run with a yield, a suspension that asks to yield, and a wait that is
woken early, for two tasks. -/
def markedCalls : List Call :=
  [.submit 0, .insert 0, .get 0 0 false 0, .yield 0 true, .insert 0, .get 0 0 false 0,
    .yieldReturns 0, .waitfor 0 0 100, .insert 0, .submit 1, .insert 0, .get 0 0 false 0,
    .waitfor 1 0 200, .insert 0, .deadlineWake 0, .purge 0, .get 0 0 false 0,
    .setSuspendMode 0 (some .submit) 1, .suspend 0, .endBody 0 0 false, .insert 0,
    .get 0 0 false 0]

theorem yield_mark_exact_woken :
    (run (Runtime.step .oneCpu) (.init (fun _ => 0) 0 (fun _ => 0)) markedCalls).isSome = true
      ∧ Along (Runtime.step .oneCpu) (MarkExact .oneCpu) (.init (fun _ => 0) 0 (fun _ => 0))
        markedCalls := by
  refine ⟨by decide +kernel, ?_⟩
  exact yield_mark_exact .oneCpu (fun _ => 0) 0 (fun _ => 0) markedCalls (by decide +kernel)

/-- Two runs in which the mark is wrong. In the first a task that sets a
suspend mode and then pauses is taken for yielding when it is resubmitted.
In the second a sleeping task with a left child in the deadline tree is
woken, and leaves the scheduler with the address of that child. -/
theorem yield_mark_wrong :
    ¬ Along (Runtime.step .oneCpu) (MarkExact .oneCpu) (.init (fun _ => 0) 0 (fun _ => 0))
        [.submit 0, .insert 0, .get 0 0 false 0, .setSuspendMode 0 (some .timeout) 5, .pause 0,
          .submit 0, .insert 0]
      ∧ ¬ Along (Runtime.step .oneCpu) (MarkExact .oneCpu) (.init (fun _ => 0) 0 (fun _ => 0))
        [.submit 0, .insert 0, .get 0 0 false 0, .waitfor 0 0 200, .insert 0,
          .submit 1, .insert 0, .get 0 0 false 0, .waitfor 1 0 100, .insert 0,
          .deadlineWake 0, .purge 0, .get 0 0 false 0] := by
  refine ⟨by decide +kernel, by decide +kernel⟩

end Nosv
