import Nosv.YieldMark

/-!
# The suspend mode in force

`nosv_set_suspend_mode` stores a mode in the flags and its argument in the
shared word, and `task_suspend` reads both back at the end of the body.
`Suspending` adds to the runtime what each task has asked for: the mode and
the argument of its last `nosv_set_suspend_mode` that succeeded since its
previous suspension. Between the two the word is not safe: `nosv_yield`
clears it, and a task that passes through the scheduler comes back with a
zero word. `SettingOk` says what remains of the setting, and it holds along
every run in which

* the steps are `Regular`;
* a `nosv_set_suspend_mode` that fails finds no mode set;
* no task yields, or is pushed other than by its suspension, while its mode
  has an argument that is not zero (`Spent`);
* no parallel task sets a mode while it is stored by the scheduler;
* no purge takes a node with a left child out of a deadline tree to put it
  into a list.
-/

namespace Nosv

open RBTree Relation Places Run

/-- `task_suspend` reads the argument only in these modes. -/
def SuspendMode.TakesArgs (m : SuspendMode) : Prop := m = .submit ∨ m = .timeout

instance (m : SuspendMode) : Decidable m.TakesArgs := inferInstanceAs (Decidable (_ ∨ _))

/-- A mode and its argument. -/
structure Setting where
  mode : SuspendMode
  args : Nat
  deriving DecidableEq, Repr

/-- Nothing was set. -/
def Setting.unset : Setting := ⟨.none, 0⟩

namespace Task

/-- The descriptor as a `nosv_set_suspend_mode` that succeeds leaves it. -/
def withSetting (k : Task) (s : Setting) : Task :=
  { k with suspendMode := s.mode, word := s.args }

/-- The mode has no argument, or a zero one. -/
def Spent (k : Task) : Prop := k.suspendMode.TakesArgs → k.word = 0

instance (k : Task) : Decidable k.Spent := inferInstanceAs (Decidable (_ → _))

end Task

/-! ## Runs with the settings asked for -/

structure Suspending where
  runtime : Runtime
  /-- the last setting that succeeded since the previous suspension -/
  asked : TaskId → Setting

namespace Suspending

/-- What a call asks for. -/
def nextAsked (s : Suspending) : Call → TaskId → Setting
  | .setSuspendMode t (some mode) args =>
      if (nosvSetSuspendMode (s.runtime.task t) (some mode) args).1 then
        Function.update s.asked t ⟨mode, args⟩
      else s.asked
  | .endBody t _ _ =>
      if (s.runtime.task t).suspend then Function.update s.asked t .unset else s.asked
  | _ => s.asked

def step (topo : Topology) (s : Suspending) (c : Call) : Option Suspending :=
  match s.runtime.step topo c with
  | none => none
  | some r => some ⟨r, s.nextAsked c⟩

def init (pid : TaskId → Nat) (quantumNs : Nat) (clock : Nat → Nat) : Suspending :=
  ⟨Runtime.init pid quantumNs clock, fun _ => .unset⟩

/-- A suspension acts on the setting that was asked for, and a call that
returns an error changes nothing. -/
def InForce (s : Suspending) : Call → Prop
  | .endBody t now events => s.runtime.Calls t → (s.runtime.task t).suspend = true →
      taskSuspend (s.runtime.task t) now events
        = taskSuspend ((s.runtime.task t).withSetting (s.asked t)) now events
  | .setSuspendMode t mode args => (nosvSetSuspendMode (s.runtime.task t) mode args).1 = false →
      (nosvSetSuspendMode (s.runtime.task t) mode args).2 = s.runtime.task t
  | _ => True

instance (s : Suspending) (c : Call) : Decidable (s.InForce c) := by
  apply Call.casesOn (motive := fun c => Decidable (InForce s c)) c <;>
    intros <;> (dsimp only [InForce]; infer_instance)

/-- The calls that leave a setting in force. -/
def Sparing (topo : Topology) (s : Suspending) (c : Call) : Prop :=
  Regular topo s.runtime c ∧ (∀ t ∈ plainPush s.runtime c, (s.runtime.task t).Spent) ∧
    match c with
    | .setSuspendMode t mode args =>
        if (nosvSetSuspendMode (s.runtime.task t) mode args).1 then
          (s.runtime.info t).phase ≠ .queued
        else (s.runtime.task t).suspendMode = .none
    | .yield t _ => (s.runtime.task t).Spent
    | .purge logicPid => CleanDeadlinePurge s.runtime.sched logicPid
    | _ => True

instance (topo : Topology) (s : Suspending) (c : Call) : Decidable (Sparing topo s c) := by
  apply Call.casesOn (motive := fun c => Decidable (Sparing topo s c)) c <;>
    intros <;> (dsimp only [Sparing]; infer_instance)

end Suspending

/-! ## What remains of a setting -/

/-- Outside the scheduler the word is the argument; in it, and while the
task yields, there is none. -/
structure SettingOk (k : Task) (i : TaskInfo) (s : Setting) : Prop where
  mode : k.suspendMode = s.mode
  out : i.phase ≠ .queued → s.mode.TakesArgs → k.word = s.args
  queued : i.phase = .queued → s.mode.TakesArgs → s.args = 0
  yielding : i.yielding = true → taskIsParallel k = false
    ∧ (s.mode.TakesArgs → s.args = 0) ∧ (i.phase = .queued ∨ i.phase = .running)

structure Suspending.Kept (topo : Topology) (s : Suspending) : Prop where
  placed : Placed topo s.runtime
  clean : ListClean s.runtime.sched
  settings : ∀ t, SettingOk (s.runtime.task t) (s.runtime.info t) (s.asked t)

variable {topo : Topology} {k k' : Task} {i i' : TaskInfo} {s : Setting}

theorem not_takesArgs_none : ¬ SuspendMode.none.TakesArgs := by decide

/-- Without an argument to read, the word does not matter. -/
theorem taskSuspend_withSetting (hmode : k.suspendMode = s.mode)
    (hword : s.mode.TakesArgs → k.word = s.args) (now : Nat) (events : Bool) :
    taskSuspend k now events = taskSuspend (k.withSetting s) now events := by
  by_cases htakes : s.mode.TakesArgs
  · have hsame : k.withSetting s = k := by
      simp only [Task.withSetting, ← hmode, ← hword htakes]
    rw [hsame]
  · unfold taskSuspend Task.withSetting
    cases hm : s.mode with
    | submit => exact absurd (Or.inl hm) htakes
    | timeout => exact absurd (Or.inr hm) htakes
    | none => simp only [hmode, hm]
    | event => simp only [hmode, hm]

theorem SettingOk.not_yielding (h : SettingOk k i s) (hqueued : i.phase ≠ .queued)
    (hrunning : i.phase ≠ .running) : i.yielding = false := by
  by_contra hy
  rcases (h.yielding (by simpa using hy)).2.2 with hph | hph
  · exact hqueued hph
  · exact hrunning hph

/-- A task whose argument is spent has none left. -/
theorem SettingOk.spent (h : SettingOk k i s) (hph : i.phase ≠ .queued) (hk : k.Spent)
    (htakes : s.mode.TakesArgs) : s.args = 0 := by
  have hzero : k.word = 0 := hk (h.mode ▸ htakes)
  exact (h.out hph htakes).symm.trans hzero

/-- The task stays in its phase. -/
theorem SettingOk.stays (h : SettingOk k i s) (hword : k'.word = k.word)
    (hmode : k'.suspendMode = k.suspendMode) (hpar : taskIsParallel k' = taskIsParallel k)
    (hy : i'.yielding = i.yielding) (hph : i'.phase = i.phase) : SettingOk k' i' s := by
  refine ⟨hmode.trans h.mode, ?_, ?_, ?_⟩
  · rw [hph, hword]
    exact h.out
  · rw [hph]
    exact h.queued
  · rw [hy, hph, hpar]
    exact h.yielding

/-- The task goes to another phase; when it is pushed, it has no argument
left. -/
theorem SettingOk.moves (h : SettingOk k i s) (hword : k'.word = k.word)
    (hmode : k'.suspendMode = k.suspendMode) (hy : i'.yielding = false)
    (hph : i.phase ≠ .queued) (hspent : i'.phase = .queued → k.Spent) : SettingOk k' i' s := by
  refine ⟨hmode.trans h.mode, fun _ htakes => ?_, fun hq htakes => ?_, fun hy' => ?_⟩
  · rw [hword]
    exact h.out hph htakes
  · exact h.spent hph (hspent hq) htakes
  · rw [hy] at hy'
    cases hy'

/-- A mode without an argument in force, for a task that does not yield. -/
theorem SettingOk.of_none (hmode : k.suspendMode = .none) (hy : i.yielding = false) :
    SettingOk k i .unset := by
  refine ⟨hmode, fun _ htakes => ?_, fun _ _ => rfl, fun hy' => ?_⟩
  · exact absurd htakes not_takesArgs_none
  · rw [hy] at hy'
    cases hy'

/-! ## Calls -/

variable {r : Runtime} {t : TaskId} {asked : TaskId → Setting} {c : Call} {push : Option Origin}

theorem Suspending.nextAsked_ne {u : TaskId} (hw : Write topo r c t k i push) (hu : u ≠ t) :
    Suspending.nextAsked ⟨r, asked⟩ c u = asked u := by
  cases hw with
  | setSuspendMode hcalls =>
      rename_i mode args
      cases mode with
      | none => rfl
      | some m =>
          simp only [Suspending.nextAsked]
          split
          · exact Function.update_of_ne hu _ _
          · rfl
  | bodySuspends hcalls hs =>
      simp only [Suspending.nextAsked, if_pos hs]
      exact Function.update_of_ne hu _ _
  | bodyEnds hcalls hs => simp [Suspending.nextAsked, hs]
  | _ => rfl

/-- A mode is set, or a call with an error leaves none. -/
theorem SettingOk.setSuspendMode {mode : Option SuspendMode} {args : Nat} (hcalls : r.Calls t)
    (hs : Suspending.Sparing topo ⟨r, asked⟩ (.setSuspendMode t mode args))
    (h : SettingOk (r.task t) (r.info t) (asked t)) (hph : i.phase = (r.info t).phase)
    (hy : i.yielding = (r.info t).yielding) :
    SettingOk (nosvSetSuspendMode (r.task t) mode args).2 i
      (Suspending.nextAsked ⟨r, asked⟩ (.setSuspendMode t mode args) t) := by
  have hset := hs.2.2
  have hyields : i.yielding = false := hy.trans hcalls.2
  rcases nosvSetSuspendMode_cases (r.task t) mode args with heq | ⟨m, rfl, -, heq⟩
  · simp only [heq, Bool.false_eq_true, if_false] at hset
    have hnext : Suspending.nextAsked ⟨r, asked⟩ (.setSuspendMode t mode args) = asked := by
      cases mode with
      | none => rfl
      | some m => simp only [Suspending.nextAsked, heq, Bool.false_eq_true, if_false]
    rw [hnext, heq]
    exact h.stays rfl hset.symm rfl hy hph
  · simp only [heq, if_true] at hset
    have hnext : Suspending.nextAsked ⟨r, asked⟩ (.setSuspendMode t (some m) args) t = ⟨m, args⟩ := by
      simp only [Suspending.nextAsked, heq, if_true, Function.update_self]
    rw [hnext, heq]
    refine ⟨rfl, fun _ _ => rfl, fun hq => ?_, fun hy' => ?_⟩
    · exact absurd (hph.symm.trans hq) hset
    · rw [hyields] at hy'
      cases hy'

theorem Write.setting (hw : Write topo r c t k i push)
    (hs : Suspending.Sparing topo ⟨r, asked⟩ c) (hok : TaskOk topo (r.task t) (r.info t))
    (h : SettingOk (r.task t) (r.info t) (asked t)) :
    SettingOk k i (Suspending.nextAsked ⟨r, asked⟩ c t) := by
  have hpush := hs.2.1
  have hrun (hmay : r.MayBlock t) : (r.info t).phase ≠ .queued := hok.not_queued hmay
  -- a task in any other phase than these two is not yielding
  have hrest (hq : (r.info t).phase ≠ .queued) (hr : (r.info t).phase ≠ .running) :=
    h.not_yielding hq hr
  cases hw with
  | setAttributes hph hv hpos htyped =>
      exact h.moves rfl rfl (hrest (by simp [hph]) (by simp [hph])) (by simp [hph])
        fun hq => by simp [hph] at hq
  | submitCounts hmay hcount => exact h.stays rfl rfl rfl rfl rfl
  | submitPushes hmay hcount =>
      have hspent := hpush t (by simp [plainPush, hcount])
      rcases hok.rested hmay hcount with hph | hph
      · exact h.moves rfl rfl (hrest (by simp [hph]) (by simp [hph])) (by simp [hph])
          fun _ => hspent
      · exact h.moves rfl rfl (hrest (by simp [hph]) (by simp [hph])) (by simp [hph])
          fun _ => hspent
  | immediateCounts hmay hcount => exact h.stays rfl rfl rfl rfl rfl
  | immediateSets hmay hpar hcount =>
      rcases hok.rested hmay hcount with hph | hph
      · exact h.moves rfl rfl (hrest (by simp [hph]) (by simp [hph])) (by simp [hph])
          fun hq => by cases hq
      · exact h.moves rfl rfl (hrest (by simp [hph]) (by simp [hph])) (by simp [hph])
          fun hq => by cases hq
  | submitInline hph hpar =>
      exact h.moves rfl rfl (hrest (by simp [hph]) (by simp [hph])) (by simp [hph])
        fun hq => by cases hq
  | runImmediate count hph =>
      exact h.moves rfl rfl (hrest (by simp [hph]) (by simp [hph])) (by simp [hph])
        fun hq => by cases hq
  | dropImmediate hph =>
      exact h.moves rfl rfl (hrest (by simp [hph]) (by simp [hph])) (by simp [hph])
        fun _ => hpush t rfl
  | setSuspendMode hcalls => exact h.setSuspendMode hcalls hs rfl rfl
  | suspend hcalls => exact h.stays rfl rfl rfl rfl rfl
  | bodySuspends hcalls hsus =>
      rename_i now events
      have hnext : Suspending.nextAsked ⟨r, asked⟩ (.endBody t now events) t = .unset := by
        simp only [Suspending.nextAsked, if_pos hsus, Function.update_self]
      rw [hnext]
      exact SettingOk.of_none (taskSuspend_mode _ _ _) hcalls.2
  | bodyEnds hcalls hsus =>
      rename_i now events
      have hnext : Suspending.nextAsked ⟨r, asked⟩ (.endBody t now events) = asked := by
        simp [Suspending.nextAsked, hsus]
      rw [hnext]
      by_cases hlast : (r.info t).phase = .running ∧ (r.info t).live - 1 = 0
      · simp only [if_pos hlast]
        exact h.moves rfl rfl hcalls.2 (by simp [hlast.1]) fun hq => by cases hq
      · simp only [if_neg hlast]
        exact h.stays rfl rfl rfl rfl rfl
  | complete =>
      have hph : (r.info t).phase = .ended := hs.1
      exact h.moves rfl rfl (hrest (by simp [hph]) (by simp [hph])) (by simp [hph])
        fun hq => by cases hq
  | eventsOver =>
      have hph : (r.info t).phase = .sleeping := hs.1
      exact h.moves rfl rfl (hrest (by simp [hph]) (by simp [hph])) (by simp [hph])
        fun _ => hpush t rfl
  | pauses hmay hcount => exact h.moves rfl rfl hmay.1.2 (hrun hmay) fun hq => by cases hq
  | pauseReturns hmay hcount => exact h.stays rfl rfl rfl rfl rfl
  | waits hmay hset =>
      rename_i now timeout
      have hd := setTaskDeadline_same (r.task t) now timeout
      refine h.moves (setTaskDeadline_word _ _ _) hd.suspendMode hmay.1.2 (hrun hmay)
        fun _ => hpush t ?_
      simp [plainPush, hset]
  | waitReturns hmay hset =>
      rename_i now timeout
      have hd := setTaskDeadline_same (r.task t) now timeout
      refine h.stays (setTaskDeadline_word _ _ _) hd.suspendMode ?_ rfl rfl
      simp only [taskIsParallel, hd.degree]
  | yields hmay =>
      have hspent := h.spent (hrun hmay) hs.2.2
      refine ⟨h.mode, fun hne => absurd rfl hne, fun _ => hspent, fun _ => ?_⟩
      exact ⟨hmay.2, hspent, Or.inl rfl⟩
  | yieldStays hmay =>
      have hspent := h.spent (hrun hmay) hs.2.2
      refine ⟨h.mode, fun _ htakes => (hspent htakes).symm, fun _ => hspent, fun hy => ?_⟩
      exact ⟨hmay.2, hspent, (h.yielding hy).2.2⟩
  | yieldReturns hlive hyield =>
      have hspent := (h.yielding hyield).2.1
      refine ⟨h.mode, fun _ htakes => (hspent htakes).symm, fun _ => hspent, fun hy => ?_⟩
      cases hy
  | schedpoint hmay => exact h.moves rfl rfl hmay.1.2 (hrun hmay) fun _ => hpush t rfl
  | block hmay => exact h.moves rfl rfl hmay.1.2 (hrun hmay) fun hq => by cases hq
  | unblock hph =>
      exact h.moves rfl rfl (hrest (by simp [hph]) (by simp [hph])) (by simp [hph])
        fun _ => hpush t rfl
  | unlockPushes hmay => exact h.moves rfl rfl hmay.1.2 (hrun hmay) fun _ => hpush t rfl
  | unlockRuns u hph =>
      exact h.moves rfl rfl (hrest (by simp [hph]) (by simp [hph])) (by simp [hph])
        fun hq => by cases hq
  | cancel hcalls hdegree =>
      refine h.stays rfl rfl ?_ rfl rfl
      simp only [taskIsParallel, decide_eq_decide]
      omega

/-! ## Steps of the scheduler -/

theorem SettingOk.same (h : SettingOk k i s) (hk : SameTask k k')
    (hword : i.phase ≠ .queued → k'.word = k.word) : SettingOk k' i s := by
  have hpar : taskIsParallel k' = taskIsParallel k := taskIsParallel_congr hk.degree
  refine ⟨hk.suspendMode.trans h.mode, fun hph => ?_, h.queued, ?_⟩
  · rw [hword hph]
    exact h.out hph
  · rw [hpar]
    exact h.yielding

/-- A task that is handed out for the last time has a zero word, which is
its argument. -/
theorem SettingOk.handOut (h : SettingOk k i s) (hph : i.phase = .queued) (held : Prop)
    [Decidable held] (count : Nat) (hk : SameTask { k with scheduledCount := count } k')
    (hzero : ¬ held → k'.word = 0) :
    SettingOk k' { i with phase := if held then i.phase else .running, live := i.live + 1 } s := by
  have hpar : taskIsParallel k' = taskIsParallel k := taskIsParallel_congr hk.degree
  have hnone := h.queued hph
  refine ⟨hk.suspendMode.trans h.mode, fun hne htakes => ?_, fun _ => hnone, fun hy => ?_⟩
  · by_cases hheld : held
    · rw [if_pos hheld] at hne
      exact absurd hph hne
    · exact (hzero hheld).trans (hnone htakes).symm
  · refine ⟨hpar.trans (h.yielding hy).1, hnone, ?_⟩
    by_cases hheld : held
    · exact Or.inl (by simp only [if_pos hheld, hph])
    · exact Or.inr (by simp only [if_neg hheld])

namespace Suspending.Kept

variable {s : Suspending}

theorem write (h : Kept topo s) (hs : Suspending.Sparing topo s c)
    (hw : Write topo s.runtime c t k i push) :
    Kept topo ⟨s.runtime.put t k i push, s.nextAsked c⟩ := by
  have hok := h.placed.tasks t
  have hset := h.settings t
  refine ⟨h.placed.write hs.1 hw, h.clean.write ?_, fun u => ?_⟩
  · by_cases hq : (s.runtime.info t).phase = .queued
    · refine Or.inr (hw.word_queued hok hq (fun mode args hc hcalls => ?_)
        fun hy => (hset.yielding hy).1)
      subst hc
      rcases nosvSetSuspendMode_cases (s.runtime.task t) mode args with heq | ⟨m, -, -, heq⟩
      · rw [heq]
      · have hne := hs.2.2
        simp only [heq, if_true] at hne
        exact absurd hq hne
    · exact Or.inl (h.placed.absent hq)
  · by_cases hu : u = t
    · subst hu
      rw [Runtime.put_task_self, Runtime.put_info_self]
      exact hw.setting hs hok hset
    · rw [Runtime.put_task_ne _ k i push hu, Runtime.put_info_ne _ k i push hu]
      simp only
      rw [Suspending.nextAsked_ne hw hu]
      exact h.settings u

/-- A step of the scheduler that hands out nothing. -/
theorem keeps {sched : Scheduler} (h : Kept topo s)
    (hp : Placed topo { s.runtime with sched := sched })
    (hk : ∀ u, SameTask (s.runtime.task u) (sched.task u)) (hc : ListClean sched)
    (hword : ∀ u, Absent s.runtime.sched.places u → (sched.task u).word = (s.runtime.task u).word) :
    Kept topo ⟨{ s.runtime with sched := sched }, s.asked⟩ :=
  ⟨hp, hc, fun u => (h.settings u).same (hk u) fun hph => hword u (h.placed.absent hph)⟩

theorem insert {n : Nat} {o : Origin} {sched : Scheduler} (h : Kept topo s)
    (hn : s.runtime.inQueue[n]? = some (t, o))
    (hs : schedulerInsertReadyTask s.runtime.sched t = some sched) :
    Kept topo ⟨{ s.runtime with sched := sched, inQueue := s.runtime.inQueue.eraseIdx n },
      s.asked⟩ := by
  obtain ⟨hphase, -, habs⟩ := h.placed.pushed _ (List.mem_of_getElem? hn)
  obtain ⟨hsame, -⟩ := insert_keeps h.placed.base habs hs
  obtain ⟨hc, hword⟩ := insert_word h.placed.base h.clean habs hs
  refine ⟨h.placed.insert hn hs, hc, fun u => (h.settings u).same (hsame u) fun hph => hword u ?_⟩
  rintro rfl
  exact hph hphase

theorem get {cpu pid ts : Nat} {external : Bool} (h : Kept topo s)
    (hs : Suspending.Sparing topo s (.get cpu pid external ts)) :
    Kept topo ⟨s.runtime.receive topo
      (schedulerGetInternal topo s.runtime.sched cpu pid external ts), s.asked⟩ := by
  have hp := h.placed.get hs.1
  cases hget : schedulerGetInternal topo s.runtime.sched cpu pid external ts with
  | mk result sched =>
  rw [hget] at hp
  obtain ⟨hc, hword, hzero⟩ := get_word h.placed.base h.clean hget
  cases result with
  | none =>
      obtain ⟨s₁, hr, -, hidle⟩ := get_cases h.placed.base hget
      have hk := (reroutes_keeps h.placed.base hr).trans hidle.keeps
      exact h.keeps hp hk.task hc hword
  | some t =>
      have ho := get_handsOut h.placed.base hget
      have hph := h.placed.handedOut ho
      refine ⟨hp, hc, fun u => ?_⟩
      by_cases hut : u = t
      · subst hut
        have hok := (h.settings u).handOut hph (sched.Holding topo u) _ ho.self fun hnot =>
          hzero u rfl (hp.base.absent_iff.mpr hnot)
        simp only [Runtime.receive_info_self]
        exact hok
      · have hok := (h.settings u).same (ho.other u hut).1 fun hne =>
          hword u (h.placed.absent hne)
        simp only [Runtime.receive_info_ne s.runtime topo sched hut]
        exact hok

/-- A call without a trace. -/
theorem stay (h : Kept topo s) (hs : Suspending.Sparing topo s c)
    (hrun : s.runtime.step topo c = some s.runtime) : Kept topo ⟨s.runtime, s.nextAsked c⟩ := by
  cases c with
  | setSuspendMode t mode args =>
      simp only [Runtime.step, Option.ite_none_right_eq_some, Option.some.injEq] at hrun
      have hset := h.write hs (.setSuspendMode hrun.1)
      rwa [hrun.2] at hset
  | endBody t now events =>
      simp only [Runtime.step, Option.ite_none_right_eq_some, Option.some.injEq] at hrun
      obtain ⟨hcalls, heq⟩ := hrun
      cases hsus : (s.runtime.task t).suspend with
      | true =>
          simp only [Runtime.endBody, hsus, if_true] at heq
          have hend := h.write hs (.bodySuspends hcalls hsus)
          rwa [heq] at hend
      | false =>
          simp only [Suspending.nextAsked, hsus, Bool.false_eq_true, if_false]
          exact h
  | _ => exact h

theorem step {s' : Suspending} (hs : Suspending.Sparing topo s c)
    (hstep : s.step topo c = some s') (h : Kept topo s) : Kept topo s' := by
  unfold Suspending.step at hstep
  cases hrun : s.runtime.step topo c with
  | none =>
      rw [hrun] at hstep
      cases hstep
  | some r =>
  rw [hrun] at hstep
  obtain rfl := Option.some.inj hstep
  cases Runtime.step_cases hrun with
  | stay => exact h.stay hs hrun
  | write hw => exact h.write hs hw
  | unlock hw hi hwait =>
      rename_i t u k i
      have hs' : Suspending.Sparing topo ⟨s.runtime.put t k i (some .plain), s.asked⟩
          (.unlockYield t u) := by
        refine ⟨trivial, fun v hv => ?_, trivial⟩
        obtain rfl := Option.some.inj hv
        cases hw with
        | unlockPushes hmay =>
            simp only [Runtime.put_task_self]
            exact hs.2.1 t rfl
      exact (h.write hs hw).write hs' (.unlockRuns t hwait)
  | wake hpar =>
      rename_i t
      have hidle := submitDeadlineWake_idles h.placed.base.linked t
      have hp := h.placed.keeps hidle.keeps (h.placed.base.idles hidle)
      refine h.keeps hp hidle.frame.task ?_ fun u _ => submitDeadlineWake_word s.runtime.sched t u
      exact h.clean.wake hidle
  | insert hn hins => exact h.insert hn hins
  | get hcpu => exact h.get hs
  | purge =>
      rename_i logicPid
      have hk := schedulerDeadlinePurge_keeps h.placed.base h.clean hs.2.2
      have hkeep := purge_keeps h.placed.base logicPid
      exact h.keeps (h.placed.keeps hkeep hk.base) hkeep.task hk.clean hk.word

theorem inForce (h : Kept topo s) (hs : Suspending.Sparing topo s c) : s.InForce c := by
  cases c with
  | setSuspendMode t mode args =>
      intro hfail
      have hnone := hs.2.2
      simp only [hfail, Bool.false_eq_true, if_false] at hnone
      rcases nosvSetSuspendMode_cases (s.runtime.task t) mode args with heq | ⟨m, -, -, heq⟩
      · rw [heq, ← hnone]
      · rw [heq] at hfail
        cases hfail
  | endBody t now events =>
      intro hcalls hsus
      have hok := h.placed.tasks t
      have hph := hok.not_queued ⟨hcalls, (hok.suspend hsus).1⟩
      exact taskSuspend_withSetting (h.settings t).mode ((h.settings t).out hph) now events
  | _ => trivial

end Suspending.Kept

theorem kept_init (pid : TaskId → Nat) (quantumNs : Nat) (clock : Nat → Nat) :
    Suspending.Kept topo (Suspending.init pid quantumNs clock) := by
  refine ⟨placed_init pid quantumNs clock, fun q j u hu _ => rfl, fun t => ?_⟩
  exact SettingOk.of_none rfl rfl

/-- Along every run that spares the settings, each suspension acts on the
last setting that succeeded, and a call that fails changes none. -/
theorem suspend_mode_in_force (topo : Topology) (pid : TaskId → Nat) (quantumNs : Nat)
    (clock : Nat → Nat) (calls : List Call)
    (h : Along (Suspending.step topo) (Suspending.Sparing topo)
      (Suspending.init pid quantumNs clock) calls) :
    Along (Suspending.step topo) Suspending.InForce (Suspending.init pid quantumNs clock) calls :=
  along_of_invariant (fun _ _ _ hs hstep hinv => hinv.step hs hstep)
    (fun _ _ hs hinv => hinv.inForce hs) h (kept_init pid quantumNs clock)

/-- A task that sets a value that is no mode, then a mode whose argument is
not read before it waits, then to yield at its suspension; and that suspends
with a timeout after it was resumed. -/
def sparingCalls : List Call :=
  [.submit 0, .insert 0, .get 0 0 false 0, .setSuspendMode 0 none 9, .setSuspendMode 0 (some .event) 3,
    .waitfor 0 0 100, .insert 0, .get 0 0 false 200, .setSuspendMode 0 (some .submit) 1, .suspend 0,
    .endBody 0 0 false, .insert 0, .get 0 0 false 200, .yield 0 true, .insert 0, .get 0 0 false 200,
    .yieldReturns 0, .setSuspendMode 0 (some .timeout) 5, .suspend 0, .endBody 0 200 false]

theorem suspend_mode_in_force_waits :
    (run (Suspending.step .oneCpu) (.init (fun _ => 0) 0 (fun _ => 0)) sparingCalls).isSome = true
      ∧ Along (Suspending.step .oneCpu) Suspending.InForce (.init (fun _ => 0) 0 (fun _ => 0))
        sparingCalls := by
  refine ⟨by decide +kernel, ?_⟩
  exact suspend_mode_in_force .oneCpu (fun _ => 0) 0 (fun _ => 0) sparingCalls (by decide +kernel)

/-- Three runs of one task in which a setting is lost. A call with an
invalid argument fails and clears the mode that was set. A yield clears the
argument of a suspension that asks to yield. A scheduling
point takes the argument of a timeout to the scheduler, and it does not come
back. -/
theorem suspend_mode_lost :
    ¬ Along (Suspending.step .oneCpu) Suspending.InForce (.init (fun _ => 0) 0 (fun _ => 0))
        [.submit 0, .insert 0, .get 0 0 false 0, .setSuspendMode 0 (some .timeout) 5,
          .setSuspendMode 0 (some .submit) 7]
      ∧ ¬ Along (Suspending.step .oneCpu) Suspending.InForce (.init (fun _ => 0) 0 (fun _ => 0))
        [.submit 0, .insert 0, .get 0 0 false 0, .setSuspendMode 0 (some .submit) 1,
          .yield 0 false, .suspend 0, .endBody 0 0 false]
      ∧ ¬ Along (Suspending.step .oneCpu) Suspending.InForce (.init (fun _ => 0) 0 (fun _ => 0))
        [.submit 0, .insert 0, .get 0 0 false 0, .setSuspendMode 0 (some .timeout) 5,
          .schedpoint 0, .insert 0, .get 0 0 false 0, .suspend 0, .endBody 0 0 false] := by
  refine ⟨by decide +kernel, by decide +kernel, by decide +kernel⟩

end Nosv
