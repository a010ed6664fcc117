import Nosv.TaskMonitor

/-!
# The accumulated costs are balanced

What holds of a task at any time: it is alive exactly while a status is set,
it is alive while its descriptor is in use, and its prediction does not
change while it is alive. The attached task is the only one that becomes
ready before there could be a prediction; no task of its type has completed
before it is detached, so it never gets one.
-/

namespace Nosv

open Run

namespace TaskMonitor

variable {ι : Type} [DecidableEq ι] {start : Start ι} {t : ι} {c c' : EventCount}

/-! ## The descriptor -/

theorem inv_setBlockingCount (h : c.Inv) (n : Int) : (setBlockingCount c n).Inv :=
  ⟨h.idle, h.count, h.fit, h.completing, h.clearing, h.loaded⟩

/-- No execution of the task has been handed out. -/
structure Unrun (c : EventCount) : Prop where
  live : c.live = 0
  suspended : c.suspended = 0
  parked : c.parked = 0
  events : c.events = 0
  queued : c.idle = false → c.queued = true

theorem Unrun.completing (h : Unrun c) (hinv : c.Inv) : c.completing = 0 := by
  cases hi : c.idle with
  | true => exact (hinv.idle hi).2.2.2
  | false =>
      refine hinv.not_completing ?_
      unfold EventCount.total
      rw [h.queued hi, if_pos rfl]
      omega

theorem Unrun.clearing (h : Unrun c) (hinv : c.Inv) : c.clearing = 0 := by
  rcases hinv.clearing with hzero | ⟨-, hone, -⟩
  · exact hzero
  · rw [h.suspended] at hone
    nomatch hone

/-- What the steps of the descriptor leave as it is -/
theorem countStep_kept {m : CountMove} (h : countStep start t c m = some c') :
    c'.idle = c.idle ∧ (start.attached t = true → start.runs = false → c'.live = c.live) := by
  cases m with
  | submit | submitInline | complete => cases h
  | setDegree degree =>
      obtain ⟨-, heq⟩ := Option.ite_none_right_eq_some.mp h
      obtain rfl := Option.some.inj heq
      exact ⟨rfl, fun _ _ => rfl⟩
  | readDegree | resubmit | clearWaiting =>
      obtain ⟨-, heq⟩ := Option.ite_none_right_eq_some.mp h
      obtain rfl := Option.some.inj heq
      exact ⟨rfl, fun _ _ => rfl⟩
  | handOut =>
      obtain ⟨hruns, h⟩ := Option.ite_none_right_eq_some.mp h
      simp only [EventCount.step] at h
      split at h
      · cases h
      · obtain rfl := Option.some.inj h
        exact ⟨rfl, fun _ hnot => absurd hruns (hnot ▸ Bool.false_ne_true)⟩
  | cancel =>
      obtain ⟨-, h⟩ := Option.ite_none_right_eq_some.mp h
      split at h
      · obtain rfl := Option.some.inj h
        exact ⟨rfl, fun _ _ => rfl⟩
      · obtain rfl := Option.some.inj h
        exact ⟨rfl, fun _ _ => rfl⟩
  | increase n | decrease n =>
      obtain ⟨-, h⟩ := Option.ite_none_right_eq_some.mp h
      split at h
      · obtain rfl := Option.some.inj h
        exact ⟨rfl, fun _ _ => rfl⟩
      · obtain rfl := Option.some.inj h
        exact ⟨rfl, fun _ _ => rfl⟩
  | suspend | park | endExecution =>
      obtain ⟨hnot, h⟩ := Option.ite_none_left_eq_some.mp h
      obtain ⟨-, heq⟩ := Option.ite_none_right_eq_some.mp h
      obtain rfl := Option.some.inj heq
      exact ⟨rfl, fun hatt => absurd hatt hnot⟩

theorem countStep_inv {m : CountMove} (hroom : c.Room m) (h : countStep start t c m = some c') (hinv : c.Inv) :
    c'.Inv := by
  have hstep : c.step m = some c' := by
    cases m with
    | submit | submitInline | complete => nomatch h
    | handOut => exact (Option.ite_none_right_eq_some.mp h).2
    | suspend | park | endExecution => exact (Option.ite_none_left_eq_some.mp h).2
    | setDegree degree | readDegree | cancel | increase n | decrease n | resubmit | clearWaiting => exact h
  exact (EventCount.inv_step hroom hstep hinv).1

/-- Without a callback to run, nothing is handed out. -/
theorem countStep_unrun {m : CountMove} (hruns : start.runs = false) (h : countStep start t c m = some c')
    (hinv : c.Inv) (hunrun : Unrun c) : Unrun c' := by
  have hlive : ¬ 0 < c.live := by
    rw [hunrun.live]
    exact Nat.lt_irrefl 0
  cases m with
  | submit | submitInline | complete => nomatch h
  | setDegree degree | readDegree =>
      obtain ⟨-, heq⟩ := Option.ite_none_right_eq_some.mp h
      obtain rfl := Option.some.inj heq
      exact ⟨hunrun.live, hunrun.suspended, hunrun.parked, hunrun.events, hunrun.queued⟩
  | handOut =>
      rw [countStep, hruns] at h
      nomatch h
  | cancel | increase n => exact absurd (Option.ite_none_right_eq_some.mp h).1 hlive
  | decrease n =>
      obtain ⟨hle, h⟩ := Option.ite_none_right_eq_some.mp h
      rw [hunrun.events] at hle
      rw [if_pos (Nat.le_zero.mp hle)] at h
      obtain rfl := Option.some.inj h
      exact hunrun
  | suspend | park | endExecution =>
      obtain ⟨-, h⟩ := Option.ite_none_left_eq_some.mp h
      exact absurd (Option.ite_none_right_eq_some.mp h).1 hlive
  | resubmit =>
      obtain ⟨⟨hparked, -⟩, -⟩ := Option.ite_none_right_eq_some.mp h
      rw [hunrun.parked] at hparked
      exact absurd hparked (Nat.lt_irrefl 0)
  | clearWaiting =>
      obtain ⟨hc, -⟩ := Option.ite_none_right_eq_some.mp h
      rw [hunrun.clearing hinv] at hc
      exact absurd hc (Nat.lt_irrefl 0)

/-! ## One task -/

/-- What holds of a task at any time -/
structure TaskInv (start : Start ι) (t : ι) (k : Monitored) : Prop where
  count : k.count.Inv
  chrono : k.alive = true ↔ k.stats.chrono ≠ none
  busy : k.destroyed = false → k.count.idle = false → k.alive = true
  counting : 0 < k.counting → k.alive = true
  called : 0 < k.called → k.stats.initialized = true
  initialized : k.alive = true → k.stats.initialized = true ∨ start.attached t = true
  raw : k.stats.initialized = false → k.stats.predicted = false
  attached : start.attached t = true → k.destroyed = false →
    k.stats.predicted = false ∧ k.count.idle = false ∧ 0 < k.count.live
  unrun : start.runs = false → start.attached t = false → Unrun k.count

variable {k k' : Monitored} {type type' : TypeStats}

/-- Where the task waits for the submission that reaches zero -/
def Awaited (k : Monitored) : Prop :=
  k.count.idle = true ∨ (0 < k.count.parked ∧ k.count.queued = false) ∨ 0 < k.paused

/-- What a submission leaves of the task -/
structure Released (k k' : Monitored) : Prop where
  inv : k'.count.Inv
  busy : k.count.idle = false → k'.count.idle = false
  live : k'.count.live = k.count.live
  unrun : Unrun k.count → Unrun k'.count
  rest : k' = { k with count := k'.count, paused := k'.paused }

/-- A submission that was awaited leaves the descriptor in order. -/
theorem releaseCount_released (hawaited : countDown k.count.task.blockingCount = 0 → Awaited k)
    (h : releaseCount k = some k') (hinv : k.count.Inv) : Released k k' := by
  have hblock := inv_setBlockingCount hinv (countDown k.count.task.blockingCount)
  have hunrun : Unrun k.count → Unrun (setBlockingCount k.count (countDown k.count.task.blockingCount)) :=
    fun hu => ⟨hu.live, hu.suspended, hu.parked, hu.events, hu.queued⟩
  unfold releaseCount at h
  dsimp only at h
  split at h
  · next hzero =>
      split at h
      · obtain ⟨c', hsubmit, rfl⟩ := Option.map_eq_some_iff.mp h
        have hinv' := (EventCount.inv_step (fun _ => trivial) hsubmit hblock).1
        obtain ⟨-, heq⟩ := Option.ite_none_right_eq_some.mp hsubmit
        obtain rfl := Option.some.inj heq
        exact ⟨hinv', fun _ => rfl, rfl,
          fun hu => ⟨hu.live, hu.suspended, hu.parked, hu.events, fun _ => rfl⟩, rfl⟩
      · next hidle =>
          split at h
          · next hparked =>
              obtain ⟨c', hresubmit, rfl⟩ := Option.map_eq_some_iff.mp h
              have hinv' := (EventCount.inv_step (fun _ => trivial) hresubmit hblock).1
              obtain ⟨-, heq⟩ := Option.ite_none_right_eq_some.mp hresubmit
              obtain rfl := Option.some.inj heq
              exact ⟨hinv', id, rfl, fun hu => absurd hparked.1 (Nat.not_lt.mpr (Nat.le_of_eq hu.parked)), rfl⟩
          · next hparked =>
              split at h
              · obtain rfl := Option.some.inj h
                exact ⟨hblock, id, rfl, hunrun, rfl⟩
              · next hpaused =>
                  exact absurd ((hawaited hzero).resolve_left hidle |>.resolve_left hparked) hpaused
  · obtain rfl := Option.some.inj h
    exact ⟨hblock, id, rfl, hunrun, rfl⟩

theorem Monitored.Acts.live (h : k.Acts) : 0 < k.count.live := Nat.lt_of_le_of_lt (Nat.zero_le _) h

/-- An execution in progress keeps the task alive. -/
theorem TaskInv.alive_of_live (h : TaskInv start t k) (hdestroyed : k.destroyed = false)
    (hlive : 0 < k.count.live) : k.alive = true :=
  h.busy hdestroyed (h.count.busy (by unfold EventCount.total; omega))

/-- The descriptor moves, and nothing else of the task. -/
theorem TaskInv.moved (h : TaskInv start t k) (hcount : c'.Inv)
    (hidle : c'.idle = false → k.count.idle = false ∨ 0 < k.counting)
    (hattached : start.attached t = true → k.count.idle = false → 0 < k.count.live →
      c'.idle = false ∧ 0 < c'.live)
    (hunrun : start.runs = false → start.attached t = false → Unrun k.count → Unrun c')
    {counting : Nat} (hcounting : counting ≤ k.counting) (paused : Nat) :
    TaskInv start t { k with count := c', counting := counting, paused := paused } where
  count := hcount
  chrono := h.chrono
  busy hd hi := (hidle hi).elim (h.busy hd) h.counting
  counting hpos := h.counting (Nat.lt_of_lt_of_le hpos hcounting)
  called := h.called
  initialized := h.initialized
  raw := h.raw
  attached hatt hd := by
    obtain ⟨hpred, hi, hlive⟩ := h.attached hatt hd
    exact ⟨hpred, hattached hatt hi hlive⟩
  unrun hruns hatt := hunrun hruns hatt (h.unrun hruns hatt)

/-- A task that is alive, or that has been asked about, changes its status. -/
theorem TaskInv.changed (h : TaskInv start t k) (hinit : k.stats.initialized = true ∨ k.alive = true)
    (status : Status) {called counting : Nat} (hcalled : called ≤ k.called) :
    TaskInv start t { (change type k status).2 with called := called, counting := counting, alive := true } where
  count := h.count
  chrono := iff_of_true rfl (Option.some_ne_none _)
  busy _ _ := rfl
  counting _ := rfl
  called hpos := h.called (Nat.lt_of_lt_of_le hpos hcalled)
  initialized _ := hinit.elim Or.inl h.initialized
  raw := h.raw
  attached := h.attached
  unrun := h.unrun

theorem TaskInv.submitted (h : TaskInv start t k) (cost : Option Nat)
    (hsamples : start.attached t = true → k.destroyed = false → type.samples = 0) (called : Nat) :
    TaskInv start t { k with stats := taskmonitorTaskSubmitted type k.stats cost, called := called } := by
  unfold taskmonitorTaskSubmitted
  split
  · next hinit =>
      exact ⟨h.count, h.chrono, h.busy, h.counting, fun _ => hinit, h.initialized, h.raw, h.attached, h.unrun⟩
  · next hinit =>
      refine ⟨h.count, h.chrono, h.busy, h.counting, fun _ => rfl, fun _ => Or.inl rfl,
        fun hraw => absurd hraw.symm Bool.false_ne_true, fun hatt hd => ?_, h.unrun⟩
      obtain ⟨hpred, hi, hlive⟩ := h.attached hatt hd
      refine ⟨?_, hi, hlive⟩
      rw [hsamples hatt hd, hpred]
      rfl

/-- What a task has in the accounts does not change by a prediction that is
made before it becomes ready, or finds none. -/
theorem submitted_weight (h : TaskInv start t k) (hdestroyed : k.destroyed = false) (cost : Option Nat)
    (hsamples : start.attached t = true → k.destroyed = false → type.samples = 0) (called : Nat) :
    Monitored.weight { k with stats := taskmonitorTaskSubmitted type k.stats cost, called := called } = k.weight
    ∧ Monitored.unpredicted { k with stats := taskmonitorTaskSubmitted type k.stats cost, called := called }
      = k.unpredicted := by
  unfold taskmonitorTaskSubmitted
  split
  · exact ⟨rfl, rfl⟩
  · next hinit =>
      have hpred : k.stats.predicted = false := h.raw (Bool.eq_false_of_not_eq_true hinit)
      unfold Monitored.weight Monitored.unpredicted
      dsimp only
      by_cases halive : k.alive = true
      · have hatt := (h.initialized halive).resolve_left hinit
        rw [hpred, hsamples hatt hdestroyed]
        exact ⟨by simp, by simp⟩
      · rw [if_neg fun hand => halive hand.1, if_neg fun hand => halive hand.1, if_neg fun hand => halive hand.1,
          if_neg fun hand => halive hand.1]
        exact ⟨rfl, rfl⟩

/-! ## The accounts -/

/-- The accounts go with what the task has in them. -/
structure Accounts (type : TypeStats) (k : Monitored) (type' : TypeStats) (k' : Monitored) : Prop where
  cost : type'.accumulatedCost + k.weight = type.accumulatedCost + k'.weight
  count : type'.numPredictionlessInstances + k.unpredicted = type.numPredictionlessInstances + k'.unpredicted
  safe : type'.failed = type.failed

theorem Accounts.same (hweight : k'.weight = k.weight) (hcount : k'.unpredicted = k.unpredicted) :
    Accounts type k type k' := ⟨by rw [hweight], by rw [hcount], rfl⟩

theorem u64Sub_of_le {m n : Nat} (hle : n ≤ m) (hlt : m < 18446744073709551616) : u64Sub m n = m - n := by
  unfold u64Sub u64
  omega

/-- A task becomes ready, or was. -/
theorem change_accounts (hchrono : k.alive = true ↔ k.stats.chrono ≠ none) {called counting : Nat}
    (hcost : k.alive = false → k.stats.predicted = true →
      type.accumulatedCost + k.stats.cost < 18446744073709551616)
    (hcount : k.alive = false → k.stats.predicted = false →
      type.numPredictionlessInstances + 1 < 18446744073709551616) :
    Accounts type k (change type k .ready).1
      { (change type k .ready).2 with called := called, counting := counting, alive := true } := by
  cases halive : k.alive with
  | true =>
      have htype : (change type k .ready).1 = type := by
        unfold change taskmonitorTaskStarted
        exact if_neg fun hand => hchrono.mp halive hand.1
      rw [htype]
      refine Accounts.same ?_ ?_
      · unfold Monitored.weight
        rw [halive]
        rfl
      · unfold Monitored.unpredicted
        rw [halive]
        rfl
  | false =>
      have hnone : k.stats.chrono = none := by
        by_contra hne
        rw [hchrono.mpr hne] at halive
        nomatch halive
      have hweight : k.weight = 0 := if_neg fun hand => by simp [halive] at hand
      have hunpredicted : k.unpredicted = 0 := if_neg fun hand => by simp [halive] at hand
      cases hpred : k.stats.predicted with
      | true =>
          have htype : (change type k .ready).1 = increaseAccumulatedCost type k.stats.cost := by
            unfold change taskmonitorTaskStarted
            dsimp only
            rw [if_pos ⟨hnone, rfl⟩, if_pos hpred]
          rw [htype]
          refine ⟨?_, ?_, rfl⟩
          · rw [hweight, increaseAccumulatedCost, u64_of_lt (hcost halive hpred)]
            unfold Monitored.weight
            exact congrArg (type.accumulatedCost + ·) (if_pos ⟨rfl, hpred⟩).symm
          · rw [hunpredicted]
            unfold Monitored.unpredicted
            refine congrArg (type.numPredictionlessInstances + ·) (if_neg fun hand => ?_).symm
            exact absurd (hpred.symm.trans hand.2) (by decide)
      | false =>
          have htype : (change type k .ready).1 = increaseNumPredictionlessInstances type := by
            unfold change taskmonitorTaskStarted
            dsimp only
            rw [if_pos ⟨hnone, rfl⟩, if_neg (by rw [hpred]; exact Bool.false_ne_true)]
          rw [htype]
          refine ⟨?_, ?_, rfl⟩
          · rw [hweight]
            unfold Monitored.weight
            refine congrArg (type.accumulatedCost + ·) (if_neg fun hand => ?_).symm
            exact absurd (hpred.symm.trans hand.2) (by decide)
          · rw [hunpredicted, increaseNumPredictionlessInstances, u64_of_lt (hcount halive hpred)]
            unfold Monitored.unpredicted
            exact congrArg (type.numPredictionlessInstances + ·) (if_pos ⟨rfl, hpred⟩).symm

theorem decreaseAccumulatedCost_of_le {cost : Nat} (hle : cost ≤ type.accumulatedCost)
    (hlt : type.accumulatedCost < 18446744073709551616) :
    decreaseAccumulatedCost type cost = { type with accumulatedCost := type.accumulatedCost - cost } := by
  rw [decreaseAccumulatedCost, u64Sub_of_le hle hlt, decide_eq_false (Nat.not_lt.mpr hle), Bool.or_false]

theorem decreaseNumPredictionlessInstances_of_pos (hpos : 1 ≤ type.numPredictionlessInstances)
    (hlt : type.numPredictionlessInstances < 18446744073709551616) :
    decreaseNumPredictionlessInstances type
      = { type with numPredictionlessInstances := type.numPredictionlessInstances - 1 } := by
  rw [decreaseNumPredictionlessInstances, u64Sub_of_le hpos hlt]

/-- A task that is alive takes back what it has in the accounts. -/
theorem finish_accounts (halive : k.alive = true) (hcost : k.weight ≤ type.accumulatedCost)
    (hcost' : type.accumulatedCost < 18446744073709551616)
    (hcount : k.unpredicted ≤ type.numPredictionlessInstances)
    (hcount' : type.numPredictionlessInstances < 18446744073709551616) :
    Accounts type k (finish type k).1 (finish type k).2 := by
  have hweight : (finish type k).2.weight = 0 := if_neg fun hand => nomatch hand.1
  have hunpredicted : (finish type k).2.unpredicted = 0 := if_neg fun hand => nomatch hand.1
  cases hpred : k.stats.predicted with
  | true =>
      have hw : k.weight = k.stats.cost := if_pos ⟨halive, hpred⟩
      have hu : k.unpredicted = 0 := if_neg fun hand => absurd (hpred.symm.trans hand.2) (by decide)
      have htype : (finish type k).1 = { type with
          samples := type.samples + 1, accumulatedCost := type.accumulatedCost - k.stats.cost } := by
        unfold finish taskmonitorTaskCompleted
        dsimp only
        rw [if_pos hpred]
        exact decreaseAccumulatedCost_of_le (hw ▸ hcost) hcost'
      refine ⟨?_, ?_, by rw [htype]⟩
      · rw [hweight, htype]
        dsimp only
        omega
      · rw [hunpredicted, htype, hu]
  | false =>
      have hw : k.weight = 0 := if_neg fun hand => absurd (hpred.symm.trans hand.2) (by decide)
      have hu : k.unpredicted = 1 := if_pos ⟨halive, hpred⟩
      have htype : (finish type k).1 = { type with
          samples := type.samples + 1
          numPredictionlessInstances := type.numPredictionlessInstances - 1 } := by
        unfold finish taskmonitorTaskCompleted
        dsimp only
        rw [if_neg (by rw [hpred]; exact Bool.false_ne_true)]
        exact decreaseNumPredictionlessInstances_of_pos (hu ▸ hcount) hcount'
      refine ⟨?_, ?_, by rw [htype]⟩
      · rw [hweight, htype, hw]
      · rw [hunpredicted, htype]
        dsimp only
        omega

/-! ## A step -/

/-- What holds before a step of a task, besides what holds of the task -/
structure Ready (start : Start ι) (t : ι) (type : TypeStats) (k : Monitored) : Prop where
  inv : TaskInv start t k
  present : k.destroyed = false
  samples : start.attached t = true → type.samples = 0
  cost : k.weight ≤ type.accumulatedCost
  count : k.unpredicted ≤ type.numPredictionlessInstances
  costFits : type.accumulatedCost < 18446744073709551616
  countFits : type.numPredictionlessInstances < 18446744073709551616

/-- What a step has done: only the completion of a task that runs callbacks,
or of the attached one, is a sample. -/
structure Done (start : Start ι) (t : ι) (type : TypeStats) (k : Monitored) (type' : TypeStats) (k' : Monitored) :
    Prop where
  inv : TaskInv start t k'
  accounts : Accounts type k type' k'
  samples : type'.samples = type.samples ∨ start.runs = true
    ∨ (start.attached t = true ∧ k'.destroyed = true)

theorem change_samples (type : TypeStats) (k : Monitored) (status : Status) :
    (change type k status).1.samples = type.samples := by
  unfold change taskmonitorTaskStarted
  dsimp only
  split
  · split <;> rfl
  · rfl

/-- A status other than the first, or another than ready, is not accounted. -/
theorem change_other {status : Status} (h : k.stats.chrono ≠ none) : (change type k status).1 = type := by
  unfold change taskmonitorTaskStarted
  exact if_neg fun hand => h hand.1

theorem runs_false_of_attached (h : start.attached t = true) : start.runs = false := by
  cases start with
  | typeInit => exact absurd (of_decide_eq_true h) (by simp)
  | attach u => rfl

theorem done_ready (h : Ready start t type k) {called counting : Nat} (hpos : 0 < k.called)
    (hcalled : called ≤ k.called)
    (hcost : k.alive = false → k.stats.predicted = true →
      type.accumulatedCost + k.stats.cost < 18446744073709551616)
    (hcount : k.alive = false → k.stats.predicted = false →
      type.numPredictionlessInstances + 1 < 18446744073709551616) :
    Done start t type k (change type k .ready).1
      { (change type k .ready).2 with called := called, counting := counting, alive := true } where
  inv := h.inv.changed (Or.inl (h.inv.called hpos)) .ready hcalled
  accounts := change_accounts h.inv.chrono hcost hcount
  samples := Or.inl (change_samples type k .ready)

theorem done_count (h : Ready start t type k) (hcount : c'.Inv)
    (hidle : c'.idle = false → k.count.idle = false ∨ 0 < k.counting)
    (hattached : start.attached t = true → k.count.idle = false → 0 < k.count.live →
      c'.idle = false ∧ 0 < c'.live)
    (hunrun : start.runs = false → start.attached t = false → Unrun k.count → Unrun c')
    {counting : Nat} (hcounting : counting ≤ k.counting) (paused : Nat) :
    Done start t type k type { k with count := c', counting := counting, paused := paused } :=
  ⟨h.inv.moved hcount hidle hattached hunrun hcounting paused, Accounts.same rfl rfl, Or.inl rfl⟩

theorem Ready.finish (h : Ready start t type k) (halive : k.alive = true) :
    Accounts type k (finish type k).1 (finish type k).2 :=
  finish_accounts halive h.cost h.costFits h.count h.countFits

/-- A completion is that of a task that runs callbacks. -/
theorem done_complete (h : Ready start t type k) (hcounting : k.counting = 0)
    (hstep : k.count.step .complete = some c') :
    Done start t type k (finish type k).1 { (finish type k).2 with count := c' } := by
  have hinv := h.inv
  obtain ⟨hcount, ⟨hbusy, htotal⟩⟩ := EventCount.inv_step (fun _ => trivial) hstep hinv.count
  obtain ⟨hpos, heq⟩ := Option.ite_none_right_eq_some.mp hstep
  obtain rfl := Option.some.inj heq
  have hruns : start.runs = true := by
    by_contra hf
    have hf := Bool.eq_false_of_not_eq_true hf
    cases hatt : start.attached t with
    | true =>
        have hlive := (hinv.attached hatt h.present).2.2
        unfold EventCount.total at htotal
        omega
    | false =>
        have hzero := (hinv.unrun hf hatt).completing hinv.count
        omega
  have hnot : ∀ {P : Prop}, start.runs = false → P := fun hf => absurd (hruns.symm.trans hf) (by decide)
  have haccounts := h.finish (hinv.busy h.present hbusy)
  refine ⟨⟨hcount, ?_, fun _ hi => (nomatch hi), fun hp => ?_, hinv.called, fun ha => (nomatch ha), hinv.raw,
    fun hatt => hnot (runs_false_of_attached hatt), fun hf => hnot hf⟩,
    ⟨haccounts.cost, haccounts.count, haccounts.safe⟩, Or.inr (Or.inl hruns)⟩
  · exact iff_of_false (fun ha => (nomatch ha)) fun hne => hne rfl
  · exact absurd hcounting (Nat.ne_of_gt hp)

theorem done_detach (h : Ready start t type k) (hcounting : k.counting = 0) (hatt : start.attached t = true) :
    Done start t type k (finish type k).1 { (finish type k).2 with destroyed := true } := by
  have hinv := h.inv
  have haccounts := h.finish (hinv.alive_of_live h.present (hinv.attached hatt h.present).2.2)
  refine ⟨⟨hinv.count, ?_, fun hd => (nomatch hd), fun hp => ?_, hinv.called, fun ha => (nomatch ha), hinv.raw,
    fun _ hd => (nomatch hd), fun hf hnatt => absurd hatt (hnatt ▸ Bool.false_ne_true)⟩,
    ⟨haccounts.cost, haccounts.count, haccounts.safe⟩, Or.inr (Or.inr ⟨hatt, rfl⟩)⟩
  · exact iff_of_false (fun ha => (nomatch ha)) fun hne => hne rfl
  · exact absurd hcounting (Nat.ne_of_gt hp)

/-- What is asked of one step -/
structure Allows (start : Start ι) (t : ι) (type : TypeStats) (k : Monitored) (m : Move) : Prop where
  release : m = .release → countDown k.count.task.blockingCount = 0 → Awaited k
  ended : m = .complete ∨ m = .detach → k.counting = 0
  room : ∀ n, m = .count n → k.count.Room n
  cost : m = .ready ∨ m = .wake → 0 < k.called → k.alive = false → k.stats.predicted = true →
    type.accumulatedCost + k.stats.cost < 18446744073709551616
  count : m = .ready ∨ m = .wake → 0 < k.called → k.alive = false → k.stats.predicted = false →
    type.numPredictionlessInstances + 1 < 18446744073709551616

theorem taskStep_done {m : Move} (hallows : Allows start t type k m) (h : Ready start t type k)
    (hstep : taskStep start t type k m = some (type', k')) : Done start t type k type' k' := by
  have hinv := h.inv
  cases m with
  | submitted cost =>
      obtain ⟨rfl, rfl⟩ := Prod.mk.inj (Option.some.inj hstep)
      obtain ⟨hweight, hunpredicted⟩ :=
        submitted_weight hinv h.present cost (fun hatt _ => h.samples hatt) (k.called + 1)
      exact ⟨hinv.submitted cost (fun hatt _ => h.samples hatt) _, Accounts.same hweight hunpredicted, Or.inl rfl⟩
  | ready =>
      obtain ⟨hpos, heq⟩ := Option.ite_none_right_eq_some.mp hstep
      obtain ⟨rfl, rfl⟩ := Prod.mk.inj (Option.some.inj heq)
      exact done_ready h hpos (Nat.sub_le _ _) (hallows.cost (Or.inl rfl) hpos) (hallows.count (Or.inl rfl) hpos)
  | wake =>
      obtain ⟨hpos, heq⟩ := Option.ite_none_right_eq_some.mp hstep
      obtain ⟨rfl, rfl⟩ := Prod.mk.inj (Option.some.inj heq)
      exact done_ready h hpos (Nat.sub_le _ _) (hallows.cost (Or.inr rfl) hpos) (hallows.count (Or.inr rfl) hpos)
  | release =>
      obtain ⟨hpos, heq⟩ := Option.ite_none_right_eq_some.mp hstep
      obtain ⟨k₁, hrelease, heq⟩ := Option.map_eq_some_iff.mp heq
      obtain ⟨rfl, rfl⟩ := Prod.mk.inj heq
      have hreleased := releaseCount_released (hallows.release rfl) hrelease hinv.count
      rw [hreleased.rest]
      exact done_count h hreleased.inv (fun _ => Or.inr hpos)
        (fun _ hi hl => ⟨hreleased.busy hi, hreleased.live ▸ hl⟩) (fun _ _ => hreleased.unrun) (Nat.sub_le _ _) _
  | inline =>
      obtain ⟨⟨hpos, hruns⟩, heq⟩ := Option.ite_none_right_eq_some.mp hstep
      obtain ⟨c', hsubmit, heq⟩ := Option.map_eq_some_iff.mp heq
      obtain ⟨rfl, rfl⟩ := Prod.mk.inj heq
      have hcount := (EventCount.inv_step (fun _ => trivial) hsubmit (inv_setBlockingCount hinv.count _)).1
      have hnot : ∀ {P : Prop}, start.runs = false → P := fun hf => absurd (hruns.symm.trans hf) (by decide)
      exact done_count h hcount (fun _ => Or.inr hpos) (fun hatt => hnot (runs_false_of_attached hatt))
        (fun hf => hnot hf) (Nat.sub_le _ _) _
  | status status =>
      obtain ⟨hacts, heq⟩ := Option.ite_none_right_eq_some.mp hstep
      have halive := hinv.alive_of_live h.present hacts.live
      have hchange : change type k status = (type', k') := Option.some.inj heq
      obtain rfl : (change type k status).1 = type' := congrArg Prod.fst hchange
      obtain rfl : (change type k status).2 = k' := congrArg Prod.snd hchange
      have hinv' : TaskInv start t { (change type k status).2 with
          called := k.called, counting := k.counting, alive := true } :=
        hinv.changed (Or.inr halive) status (Nat.le_refl _)
      have hk : { (change type k status).2 with
          called := k.called, counting := k.counting, alive := true } = (change type k status).2 := by
        unfold change
        rw [← halive]
      rw [hk] at hinv'
      refine ⟨hinv', ?_, Or.inl (change_samples _ _ _)⟩
      rw [change_other (hinv.chrono.mp halive)]
      exact Accounts.same rfl rfl
  | pause =>
      obtain ⟨-, heq⟩ := Option.ite_none_right_eq_some.mp hstep
      obtain ⟨rfl, rfl⟩ := Prod.mk.inj (Option.some.inj heq)
      exact done_count h (inv_setBlockingCount hinv.count (countUp k.count.task.blockingCount)) Or.inl
        (fun _ hi hl => ⟨hi, hl⟩)
        (fun _ _ hu => ⟨hu.live, hu.suspended, hu.parked, hu.events, hu.queued⟩) (Nat.le_refl _) _
  | suspendNone =>
      obtain ⟨⟨hacts, hatt⟩, heq⟩ := Option.ite_none_right_eq_some.mp hstep
      obtain ⟨c', hpark, heq⟩ := Option.map_eq_some_iff.mp heq
      obtain ⟨rfl, rfl⟩ := Prod.mk.inj heq
      have hcount := (EventCount.inv_step (fun _ => trivial) hpark (inv_setBlockingCount hinv.count _)).1
      obtain ⟨-, heq⟩ := Option.ite_none_right_eq_some.mp hpark
      obtain rfl := Option.some.inj heq
      exact done_count h hcount Or.inl (fun hatt' => absurd (hatt'.symm.trans hatt) (by decide))
        (fun _ _ hu => absurd hacts.live (Nat.not_lt.mpr (Nat.le_of_eq hu.live))) (Nat.le_refl _) _
  | count n =>
      obtain ⟨-, heq⟩ := Option.ite_none_right_eq_some.mp hstep
      obtain ⟨c', hcstep, heq⟩ := Option.map_eq_some_iff.mp heq
      obtain ⟨rfl, rfl⟩ := Prod.mk.inj heq
      obtain ⟨hidle, hlive⟩ := countStep_kept hcstep
      exact done_count h (countStep_inv (hallows.room n rfl) hcstep hinv.count) (fun hi => Or.inl (hidle ▸ hi))
        (fun hatt hi hl => ⟨hidle ▸ hi, (hlive hatt (runs_false_of_attached hatt)) ▸ hl⟩)
        (fun hruns _ hu => countStep_unrun hruns hcstep hinv.count hu) (Nat.le_refl _) _
  | complete =>
      obtain ⟨c', hcstep, heq⟩ := Option.map_eq_some_iff.mp hstep
      obtain ⟨rfl, rfl⟩ := Prod.mk.inj heq
      exact done_complete h (hallows.ended (Or.inl rfl)) hcstep
  | detach =>
      obtain ⟨hatt, heq⟩ := Option.ite_none_right_eq_some.mp hstep
      obtain ⟨rfl, rfl⟩ := Prod.mk.inj (Option.some.inj heq)
      exact done_detach h (hallows.ended (Or.inr rfl)) hatt

/-! ## All tasks -/

/-- The addresses of the tasks in memory -/
structure Addresses (ι : Type) where
  address : ι → Fin 18446744073709551616
  injective : Function.Injective address
  nonnull : ∀ t, address t ≠ 0

variable [Fintype ι] {s s' : Monitor ι}

omit [DecidableEq ι] in
theorem Addresses.card_lt (mem : Addresses ι) : Fintype.card ι < 18446744073709551616 := by
  have hlt := Fintype.card_lt_of_injective_not_surjective mem.address mem.injective fun hsurj => by
    obtain ⟨t, ht⟩ := hsurj 0
    exact mem.nonnull t ht
  rwa [Fintype.card_fin] at hlt

theorem sum_update (f : Monitored → Nat) (tasks : ι → Monitored) (t : ι) (k : Monitored) :
    (∑ i, f (Function.update tasks t k i)) + f (tasks t) = (∑ i, f (tasks i)) + f k := by
  rw [← Finset.add_sum_erase Finset.univ _ (Finset.mem_univ t),
    ← Finset.add_sum_erase Finset.univ (fun i => f (tasks i)) (Finset.mem_univ t), Function.update_self]
  have hrest : ∑ i ∈ Finset.univ.erase t, f (Function.update tasks t k i)
      = ∑ i ∈ Finset.univ.erase t, f (tasks i) :=
    Finset.sum_congr rfl fun i hi => by rw [Function.update_of_ne (Finset.ne_of_mem_erase hi)]
  rw [hrest]
  omega

omit [DecidableEq ι] in
theorem sum_unpredicted_le (tasks : ι → Monitored) : ∑ t, (tasks t).unpredicted ≤ Fintype.card ι := by
  have hle : ∀ t ∈ Finset.univ, (tasks t).unpredicted ≤ 1 := by
    intro t _
    unfold Monitored.unpredicted
    split
    · exact Nat.le_refl 1
    · exact Nat.zero_le 1
  have hsum := Finset.sum_le_card_nsmul Finset.univ _ 1 hle
  rw [Finset.card_univ] at hsum
  simpa using hsum

theorem weight_le (k : Monitored) : k.weight ≤ if k.alive = true then k.stats.cost else 0 := by
  unfold Monitored.weight
  split
  · next hand => rw [if_pos hand.1]
  · exact Nat.zero_le _

omit [DecidableEq ι] in
theorem CostsFit.sum_weight_lt (h : CostsFit s) : ∑ t, (s.tasks t).weight < 18446744073709551616 :=
  Nat.lt_of_le_of_lt (Finset.sum_le_sum fun t _ => weight_le (s.tasks t)) h

structure Inv (start : Start ι) (s : Monitor ι) : Prop where
  tasks : ∀ t, TaskInv start t (s.tasks t)
  samples : ∀ t, start.attached t = true → (s.tasks t).destroyed = false → s.type.samples = 0
  balanced : Balanced s
  fit : CostsFit s

theorem Inv.ready (mem : Addresses ι) (h : Inv start s) (hpresent : (s.tasks t).destroyed = false) :
    Ready start t s.type (s.tasks t) where
  inv := h.tasks t
  present := hpresent
  samples hatt := h.samples t hatt hpresent
  cost := by
    rw [h.balanced.cost]
    exact Finset.single_le_sum (f := fun t => (s.tasks t).weight) (fun _ _ => Nat.zero_le _) (Finset.mem_univ t)
  count := by
    rw [h.balanced.count]
    exact Finset.single_le_sum (f := fun t => (s.tasks t).unpredicted) (fun _ _ => Nat.zero_le _)
      (Finset.mem_univ t)
  costFits := h.balanced.cost ▸ h.fit.sum_weight_lt
  countFits := h.balanced.count ▸ Nat.lt_of_le_of_lt (sum_unpredicted_le s.tasks) mem.card_lt

/-- A task that becomes ready finds room in the accounts. -/
theorem Inv.room (mem : Addresses ι) (h : Inv start s) (halive : (s.tasks t).alive = false) {k : Monitored}
    (hk : k.alive = true) (hcost : k.stats.cost = (s.tasks t).stats.cost)
    (hpred : k.stats.predicted = (s.tasks t).stats.predicted)
    (hfit : CostsFit ⟨s.type, Function.update s.tasks t k⟩) :
    ((s.tasks t).stats.predicted = true → s.type.accumulatedCost + (s.tasks t).stats.cost < 18446744073709551616)
    ∧ ((s.tasks t).stats.predicted = false → s.type.numPredictionlessInstances + 1 < 18446744073709551616) := by
  have hweight : (s.tasks t).weight = 0 := if_neg fun hand => by simp [halive] at hand
  have hunpredicted : (s.tasks t).unpredicted = 0 := if_neg fun hand => by simp [halive] at hand
  constructor
  · intro hp
    have hw : k.weight = (s.tasks t).stats.cost := (if_pos ⟨hk, hpred.trans hp⟩).trans hcost
    have hsum := sum_update Monitored.weight s.tasks t k
    have hlt := hfit.sum_weight_lt
    dsimp only at hlt
    rw [h.balanced.cost]
    omega
  · intro hp
    have hu : k.unpredicted = 1 := if_pos ⟨hk, hpred.trans hp⟩
    have hsum := sum_update Monitored.unpredicted s.tasks t k
    have hle := sum_unpredicted_le (Function.update s.tasks t k)
    have hlt := mem.card_lt
    rw [h.balanced.count]
    omega

theorem inv_step (mem : Addresses ι) {a : ι × Move} (hpromised : Promised s a) (hroom : Room s a)
    (hunwrapped : Unwrapped s a) (hfits : CostsFitAfter start s a) (hstep : step start s a = some s')
    (h : Inv start s) : Inv start s' := by
  obtain ⟨t, m⟩ := a
  rw [CostsFitAfter, hstep] at hfits
  obtain ⟨hdestroyed, heq⟩ := Option.ite_none_left_eq_some.mp hstep
  have hpresent := Bool.eq_false_of_not_eq_true hdestroyed
  obtain ⟨⟨type', k'⟩, htask, heq⟩ := Option.map_eq_some_iff.mp heq
  obtain rfl : Monitor.mk type' (Function.update s.tasks t k') = s' := heq
  -- a task that becomes ready is the only one whose costs are new
  have hentering : m = .ready ∨ m = .wake → 0 < (s.tasks t).called →
      k'.alive = true ∧ k'.stats.cost = (s.tasks t).stats.cost
        ∧ k'.stats.predicted = (s.tasks t).stats.predicted := by
    rintro (rfl | rfl) hpos
    · obtain ⟨-, heq⟩ := Option.ite_none_right_eq_some.mp htask
      obtain ⟨-, rfl⟩ := Prod.mk.inj (Option.some.inj heq)
      exact ⟨rfl, rfl, rfl⟩
    · obtain ⟨-, heq⟩ := Option.ite_none_right_eq_some.mp htask
      obtain ⟨-, rfl⟩ := Prod.mk.inj (Option.some.inj heq)
      exact ⟨rfl, rfl, rfl⟩
  have hallows : Allows start t s.type (s.tasks t) m := by
    refine ⟨?_, ?_, ?_, fun hm hpos halive hp => ?_, fun hm hpos halive hp => ?_⟩
    · rintro rfl hzero
      refine (hpromised hzero).imp_right (Or.imp_right fun hrunning => ?_)
      exact hunwrapped hrunning.1 hrunning.2 hzero
    · rintro (rfl | rfl)
      · exact hpromised
      · exact hpromised
    · rintro n rfl
      exact hroom
    · obtain ⟨hk, hcost, hpred⟩ := hentering hm hpos
      exact (h.room mem halive hk hcost hpred hfits).1 hp
    · obtain ⟨hk, hcost, hpred⟩ := hentering hm hpos
      exact (h.room mem halive hk hcost hpred hfits).2 hp
  obtain ⟨hinv, haccounts, hsamples⟩ := taskStep_done hallows (h.ready mem hpresent) htask
  refine ⟨fun u => ?_, fun u hatt hdest => ?_, ⟨?_, ?_, ?_⟩, hfits⟩
  · dsimp only
    by_cases hu : u = t
    · rw [hu, Function.update_self]
      exact hinv
    · rw [Function.update_of_ne hu]
      exact h.tasks u
  · -- the sample of the attached task is the first of its type
    dsimp only at hdest ⊢
    rcases hsamples with hsame | hruns | ⟨hatt', hgone⟩
    · rw [hsame]
      by_cases hu : u = t
      · exact h.samples t (hu ▸ hatt) hpresent
      · rw [Function.update_of_ne hu] at hdest
        exact h.samples u hatt hdest
    · exact absurd (hruns.symm.trans (runs_false_of_attached hatt)) (by decide)
    · have hu : u = t := by
        have heq := (of_decide_eq_true hatt).symm.trans (of_decide_eq_true hatt')
        exact Start.attach.inj heq
      rw [hu, Function.update_self, hgone] at hdest
      nomatch hdest
  · have hsum := sum_update Monitored.weight s.tasks t k'
    have hcost := haccounts.cost
    rw [h.balanced.cost] at hcost
    dsimp only
    omega
  · have hsum := sum_update Monitored.unpredicted s.tasks t k'
    have hcount := haccounts.count
    rw [h.balanced.count] at hcount
    dsimp only
    omega
  · exact haccounts.safe.trans h.balanced.safe

omit [Fintype ι] in
theorem created_inv : TaskInv start t created ∨ start.attached t = true := by
  cases hatt : start.attached t with
  | true => exact Or.inr rfl
  | false =>
      refine Or.inl ⟨EventCount.inv_init, by decide, fun _ hi => (nomatch hi), fun hp => absurd hp (by decide),
        fun hp => absurd hp (by decide), fun ha => (nomatch ha), fun _ => rfl,
        fun h => absurd (hatt.symm.trans h) (by decide), fun _ _ => ⟨rfl, rfl, rfl, rfl, fun hi => (nomatch hi)⟩⟩

omit [Fintype ι] in
theorem adopted_inv (hatt : start.attached t = true) :
    TaskInv start t (adopted { taskStatsInit with chrono := some .ready }) := by
  refine ⟨⟨fun hi => (nomatch hi), fun _ => by decide, by decide, fun _ => by decide, Or.inl rfl,
    fun hl => absurd rfl hl⟩, by decide, fun _ _ => rfl, fun _ => rfl, fun hp => absurd hp (by decide),
    fun _ => Or.inr hatt, fun _ => rfl, fun _ _ => ⟨rfl, rfl, by decide⟩, fun _ h => ?_⟩
  exact absurd (hatt.symm.trans h) (by decide)

/-- What one task adds to a sum in which every other task has no part. -/
theorem sum_update_created (f : Monitored → Nat) (hzero : f created = 0) (t : ι) (k : Monitored) :
    ∑ i, f (Function.update (fun _ => created) t k i) = f k := by
  have hsum := sum_update f (fun _ : ι => created) t k
  rw [Finset.sum_eq_zero (fun _ _ => hzero), hzero] at hsum
  omega

omit [Fintype ι] in
theorem init_attach (u : ι) : (init (Start.attach u)).tasks
    = Function.update (fun _ => created) u (adopted { taskStatsInit with chrono := some .ready }) := rfl

theorem inv_init (start : Start ι) : Inv start (init start) := by
  let cost := fun k : Monitored => if k.alive = true then k.stats.cost else 0
  have hcost : cost created = 0 := rfl
  cases start with
  | typeInit =>
      have hnot : ∀ {t : ι}, (Start.typeInit : Start ι).attached t ≠ true := fun h =>
        nomatch of_decide_eq_true h
      refine ⟨fun t => created_inv.resolve_right hnot, fun t h => absurd h hnot, ⟨?_, ?_, rfl⟩, ?_⟩
      · exact (Finset.sum_eq_zero fun _ _ => rfl).symm
      · exact (Finset.sum_eq_zero fun _ _ => rfl).symm
      · have hzero : ∑ t : ι, (if ((init Start.typeInit).tasks t).alive = true
            then ((init Start.typeInit).tasks t).stats.cost else 0) = 0 := Finset.sum_eq_zero fun _ _ => hcost
        rw [CostsFit, hzero]
        decide
  | attach u =>
      let k := adopted { taskStatsInit with chrono := some .ready }
      refine ⟨fun t => ?_, fun t _ _ => rfl, ⟨?_, ?_, rfl⟩, ?_⟩
      · rw [init_attach]
        by_cases ht : t = u
        · subst ht
          rw [Function.update_self]
          exact adopted_inv (decide_eq_true rfl)
        · rw [Function.update_of_ne ht]
          exact created_inv.resolve_right fun h => ht (Start.attach.inj (of_decide_eq_true h)).symm
      · rw [init_attach, sum_update_created Monitored.weight rfl u k]
        rfl
      · rw [init_attach, sum_update_created Monitored.unpredicted rfl u k]
        rfl
      · rw [CostsFit, init_attach]
        exact Nat.lt_of_le_of_lt (Nat.le_of_eq (sum_update_created cost hcost u k)) (by decide)

/-! ## Runs -/

end TaskMonitor

end Nosv
