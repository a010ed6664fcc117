import Nosv.Runtime

/-!
# What a call does

Every call of a task is one or two writes, each to one descriptor and to
the state of its task. `Write` lists them with the guards under which they
happen, and `Runtime.step_cases` says that a step is made of them or is a
step of the scheduler. Whatever is proved of all runs is checked on the
writes, case by case, and never on `Runtime.step`.
-/

namespace Nosv

open RBTree Relation Places

/-! ## Writes to one task -/

namespace Runtime

variable (r : Runtime) (t : TaskId) (k : Task) (i : TaskInfo) (push : Option Origin)

@[simp] theorem put_task_self : (r.put t k i push).task t = k := by
  simp [put, task, Scheduler.modTask]

@[simp] theorem put_info_self : (r.put t k i push).info t = i := by
  simp only [put, Function.update_self]

variable {t}

theorem put_task_ne {u : TaskId} (hu : u ≠ t) : (r.put t k i push).task u = r.task u := by
  simp [put, task, Scheduler.modTask, hu]

theorem put_info_ne {u : TaskId} (hu : u ≠ t) : (r.put t k i push).info u = r.info u := by
  simp only [put, Function.update_of_ne hu]

theorem mem_put {e : TaskId × Origin} :
    e ∈ (r.put t k i push).inQueue ↔ e ∈ r.inQueue ∨ ∃ o ∈ push, e = (t, o) := by
  cases push with
  | none => simp [put]
  | some o => simp [put]

variable (topo : Topology) (s : Scheduler)

theorem receive_info_ne {u : TaskId} (hu : u ≠ t) :
    (r.receive topo (some t, s)).info u = r.info u := by
  simp only [receive, Function.update_of_ne hu]

variable (t)

theorem receive_info_self : (r.receive topo (some t, s)).info t = { r.info t with
    phase := if s.Holding topo t then (r.info t).phase else .running,
    live := (r.info t).live + 1 } := by
  simp only [receive, Function.update_self]

end Runtime

/-! ## The writes of a call -/

/-- The writes of a call to one task, with the task it pushes. -/
inductive Write (topo : Topology) (r : Runtime) :
    Call → TaskId → Task → TaskInfo → Option Origin → Prop
  | setAttributes {t priority affinity degree} (hidle : (r.info t).phase = .idle)
      (hvalid : Affinity.Valid topo affinity) (hpos : 0 < degree)
      (htyped : Task.Typed { r.task t with priority := priority, affinity := affinity,
                                           degree := degree }) :
      Write topo r (.setAttributes t priority affinity degree) t
        { r.task t with priority := priority, affinity := affinity, degree := degree }
        { r.info t with cancelled := false } none
  | submitCounts {t} (hmay : r.MaySubmit t) (hcount : r.submitCount t ≠ 0) :
      Write topo r (.submit t) t { r.task t with blockingCount := r.submitCount t } (r.info t) none
  | submitPushes {t} (hmay : r.MaySubmit t) (hcount : r.submitCount t = 0) :
      Write topo r (.submit t) t { r.task t with blockingCount := r.submitCount t }
        { r.info t with phase := .queued } (some .plain)
  | immediateCounts {t} (hmay : r.MaySubmit t) (hcount : r.submitCount t ≠ 0) :
      Write topo r (.submitImmediate t) t { r.task t with blockingCount := r.submitCount t }
        (r.info t) none
  | immediateSets {t} (hmay : r.MaySubmit t) (hpar : taskIsParallel (r.task t) = false)
      (hcount : r.submitCount t = 0) :
      Write topo r (.submitImmediate t) t { r.task t with blockingCount := r.submitCount t }
        { r.info t with phase := .immediate } none
  | submitInline {t} (hidle : (r.info t).phase = .idle)
      (hpar : taskIsParallel (r.task t) = false) :
      Write topo r (.submitInline t) t { r.task t with blockingCount := r.submitCount t }
        { r.info t with phase := .running, live := 1 } none
  | runImmediate {t counted} (count : Nat) (himm : (r.info t).phase = .immediate) :
      Write topo r (.runImmediate t counted) t { r.task t with scheduledCount := count }
        { r.info t with phase := .running, live := 1 } none
  | dropImmediate {t} (himm : (r.info t).phase = .immediate) :
      Write topo r (.dropImmediate t) t (r.task t) { r.info t with phase := .queued } (some .plain)
  | setSuspendMode {t mode args} (hcalls : r.Calls t) :
      Write topo r (.setSuspendMode t mode args) t (nosvSetSuspendMode (r.task t) mode args).2
        { r.info t with
            args := if (nosvSetSuspendMode (r.task t) mode args).1 then args else (r.info t).args,
            asked := (nosvSetSuspendMode (r.task t) mode args).1 && mode == some .submit
              && args == 1 } none
  | suspend {t} (hcalls : r.Calls t) :
      Write topo r (.suspend t) t { r.task t with suspend := true } (r.info t) none
  | bodySuspends {t now events} (hcalls : r.Calls t) (hs : (r.task t).suspend = true) :
      Write topo r (.endBody t now events) t (taskSuspend (r.task t) now events).1
        { r.info t with phase := (taskSuspend (r.task t) now events).2.1,
                        live := (r.info t).live - 1, args := 0, asked := false }
        (if (taskSuspend (r.task t) now events).2.2 then
          some (if (r.info t).asked then Origin.yields else .plain) else none)
  | bodyEnds {t now events} (hcalls : r.Calls t) (hs : (r.task t).suspend = false) :
      Write topo r (.endBody t now events) t { r.task t with blockingCount := 1 }
        { r.info t with
            phase := if (r.info t).phase = .running ∧ (r.info t).live - 1 = 0 then .ended
              else (r.info t).phase,
            live := (r.info t).live - 1 } none
  | complete {t} :
      Write topo r (.complete t) t (taskComplete (r.task t))
        { r.info t with phase := .idle } none
  | eventsOver {t} :
      Write topo r (.eventsOver t) t (r.task t) { r.info t with phase := .queued } (some .plain)
  | pauses {t} (hmay : r.MayBlock t) (hcount : 0 < countUp (r.task t).blockingCount) :
      Write topo r (.pause t) t { r.task t with blockingCount := countUp (r.task t).blockingCount }
        { r.info t with phase := .paused, live := 0 } none
  | pauseReturns {t} (hmay : r.MayBlock t) (hcount : ¬ 0 < countUp (r.task t).blockingCount) :
      Write topo r (.pause t) t { r.task t with blockingCount := countUp (r.task t).blockingCount }
        (r.info t) none
  | waits {t now timeout} (hmay : r.MayBlock t)
      (hset : (setTaskDeadline (r.task t) now timeout).1 = true) :
      Write topo r (.waitfor t now timeout) t (setTaskDeadline (r.task t) now timeout).2
        { r.info t with phase := .queued, live := 0 } (some .plain)
  | waitReturns {t now timeout} (hmay : r.MayBlock t)
      (hset : (setTaskDeadline (r.task t) now timeout).1 = false) :
      Write topo r (.waitfor t now timeout) t (setTaskDeadline (r.task t) now timeout).2
        (r.info t) none
  | yields {t} (hmay : r.MayBlock t) :
      Write topo r (.yield t true) t { r.task t with word := 18446744073709551615 }
        { r.info t with phase := .queued, live := 0, yielding := true, args := 0 } (some .yields)
  | yieldStays {t} (hmay : r.MayBlock t) :
      Write topo r (.yield t false) t { r.task t with word := 0 } { r.info t with args := 0 } none
  | yieldReturns {t} (hlive : 0 < (r.info t).live) (hyield : (r.info t).yielding = true) :
      Write topo r (.yieldReturns t) t { r.task t with word := 0 }
        { r.info t with yielding := false } none
  | schedpoint {t} (hmay : r.MayBlock t) :
      Write topo r (.schedpoint t) t (r.task t) { r.info t with phase := .queued, live := 0 }
        (some .plain)
  | block {t} (hmay : r.MayBlock t) :
      Write topo r (.block t) t (r.task t) { r.info t with phase := .waiting, live := 0 } none
  | unblock {t} (hwait : (r.info t).phase = .waiting) :
      Write topo r (.unblock t) t (r.task t) { r.info t with phase := .queued } (some .plain)
  | unlockPushes {t u} (hmay : r.MayBlock t) :
      Write topo r (.unlockYield t u) t (r.task t) { r.info t with phase := .queued, live := 0 }
        (some .plain)
  | unlockRuns (t : TaskId) {u} (hwait : (r.info u).phase = .waiting) :
      Write topo r (.unlockYield t u) u (r.task u) { r.info u with phase := .running, live := 1 }
        none
  | cancel {t} (hcalls : r.Calls t) (hdegree : 0 ≤ (r.task t).degree) :
      Write topo r (.cancel t) t { r.task t with degree := -(r.task t).degree }
        { r.info t with cancelled := true } none

/-- What a step does, in terms of writes and of steps of the scheduler. -/
inductive StepCase (topo : Topology) (r : Runtime) : Call → Runtime → Prop
  | stay {c} : StepCase topo r c r
  | write {c t k i push} (hw : Write topo r c t k i push) : StepCase topo r c (r.put t k i push)
  | unlock {t u k i} (hw : Write topo r (.unlockYield t u) t k i (some .plain))
      (hi : i = { r.info t with phase := .queued, live := 0 })
      (hwait : ((r.put t k i (some .plain)).info u).phase = .waiting) :
      StepCase topo r (.unlockYield t u) ((r.put t k i (some .plain)).put u
        ((r.put t k i (some .plain)).task u)
        { (r.put t k i (some .plain)).info u with phase := .running, live := 1 } none)
  | wake {t} (hpar : taskIsParallel (r.task t) = false) :
      StepCase topo r (.deadlineWake t) { r with sched := submitDeadlineWake r.sched t }
  | insert {n t o s} (hn : r.inQueue[n]? = some (t, o))
      (hs : schedulerInsertReadyTask r.sched t = some s) :
      StepCase topo r (.insert n) { r with sched := s, inQueue := r.inQueue.eraseIdx n }
  | get {cpu pid external ts} (hcpu : cpu < topo.count .cpu) :
      StepCase topo r (.get cpu pid external ts)
        (r.receive topo (schedulerGetInternal topo r.sched cpu pid external ts))
  | purge {logicPid} :
      StepCase topo r (.purge logicPid) { r with sched := schedulerDeadlinePurge r.sched logicPid }

theorem Runtime.step_cases {topo : Topology} {r r' : Runtime} {c : Call}
    (h : r.step topo c = some r') : StepCase topo r c r' := by
  cases c with
  | setAttributes t priority affinity degree =>
      simp only [Runtime.step] at h
      split at h
      · rename_i hg
        obtain rfl := Option.some.inj h
        exact .write (.setAttributes hg.1 hg.2.1 hg.2.2.1 hg.2.2.2)
      · cases h
  | submit t =>
      simp only [Runtime.step] at h
      split at h
      · rename_i hmay
        split at h
        · rename_i hcount
          obtain rfl := Option.some.inj h
          exact .write (.submitPushes hmay hcount)
        · rename_i hcount
          obtain rfl := Option.some.inj h
          exact .write (.submitCounts hmay hcount)
      · cases h
  | submitImmediate t =>
      simp only [Runtime.step] at h
      split at h
      · rename_i hmay
        split at h
        · rename_i hcount
          obtain rfl := Option.some.inj h
          exact .write (.immediateSets hmay.1 hmay.2 hcount)
        · rename_i hcount
          obtain rfl := Option.some.inj h
          exact .write (.immediateCounts hmay.1 hcount)
      · cases h
  | submitInline t =>
      simp only [Runtime.step] at h
      split at h
      · rename_i hg
        obtain rfl := Option.some.inj h
        exact .write (.submitInline hg.1 hg.2)
      · cases h
  | runImmediate t counted =>
      simp only [Runtime.step] at h
      split at h
      · rename_i hg
        obtain rfl := Option.some.inj h
        cases counted
        · exact .write (.runImmediate (r.task t).scheduledCount hg)
        · exact .write (.runImmediate _ hg)
      · cases h
  | dropImmediate t =>
      simp only [Runtime.step] at h
      split at h
      · rename_i hg
        obtain rfl := Option.some.inj h
        exact .write (.dropImmediate hg)
      · cases h
  | deadlineWake t =>
      simp only [Runtime.step] at h
      split at h
      · rename_i hg
        obtain rfl := Option.some.inj h
        exact .wake hg
      · cases h
  | setSuspendMode t mode args =>
      simp only [Runtime.step] at h
      split at h
      · rename_i hg
        obtain rfl := Option.some.inj h
        exact .write (.setSuspendMode hg)
      · cases h
  | suspend t =>
      simp only [Runtime.step] at h
      split at h
      · rename_i hg
        obtain rfl := Option.some.inj h
        exact .write (.suspend hg)
      · cases h
  | endBody t now events =>
      simp only [Runtime.step, Runtime.endBody] at h
      split at h
      · rename_i hg
        obtain rfl := Option.some.inj h
        split
        · rename_i hs
          exact .write (.bodySuspends hg hs)
        · rename_i hs
          exact .write (.bodyEnds hg (by simpa using hs))
      · cases h
  | complete t =>
      obtain rfl := Option.some.inj h
      exact .write .complete
  | eventsOver t =>
      obtain rfl := Option.some.inj h
      exact .write .eventsOver
  | pause t =>
      simp only [Runtime.step] at h
      split at h
      · rename_i hg
        split at h
        · rename_i hcount
          obtain rfl := Option.some.inj h
          exact .write (.pauses hg hcount)
        · rename_i hcount
          obtain rfl := Option.some.inj h
          exact .write (.pauseReturns hg hcount)
      · cases h
  | waitfor t now timeout =>
      simp only [Runtime.step] at h
      split at h
      · rename_i hg
        split at h
        · rename_i hset
          obtain rfl := Option.some.inj h
          exact .write (.waits hg hset)
        · rename_i hset
          obtain rfl := Option.some.inj h
          exact .write (.waitReturns hg (by simpa using hset))
      · cases h
  | yield t switch =>
      simp only [Runtime.step] at h
      split at h
      · rename_i hg
        cases switch
        · obtain rfl := Option.some.inj h
          exact .write (.yieldStays hg)
        · obtain rfl := Option.some.inj h
          exact .write (.yields hg)
      · cases h
  | yieldReturns t =>
      simp only [Runtime.step] at h
      split at h
      · rename_i hg
        obtain rfl := Option.some.inj h
        exact .write (.yieldReturns hg.1 hg.2)
      · cases h
  | schedpoint t =>
      simp only [Runtime.step] at h
      split at h
      · rename_i hg
        obtain rfl := Option.some.inj h
        exact .write (.schedpoint hg)
      · cases h
  | block t =>
      simp only [Runtime.step] at h
      split at h
      · rename_i hg
        obtain rfl := Option.some.inj h
        exact .write (.block hg)
      · cases h
  | unblock t =>
      simp only [Runtime.step] at h
      split at h
      · rename_i hg
        obtain rfl := Option.some.inj h
        exact .write (.unblock hg)
      · cases h
  | unlockYield t u =>
      simp only [Runtime.step] at h
      split at h
      · rename_i hg
        obtain rfl := Option.some.inj h
        refine .unlock (.unlockPushes hg.1) rfl ?_
        simpa only [Runtime.put, Function.update_of_ne hg.2.2] using hg.2.1
      · cases h
  | cancel t =>
      simp only [Runtime.step, nosvCancel] at h
      split at h
      · rename_i hg
        split at h
        · obtain rfl := Option.some.inj h
          exact .stay
        · rename_i k hk
          obtain rfl := Option.some.inj h
          split at hk
          · cases hk
          · rename_i hdegree
            obtain rfl := Option.some.inj hk
            exact .write (.cancel hg (by omega))
      · cases h
  | insert n =>
      simp only [Runtime.step] at h
      split at h
      · cases h
      · rename_i t o hn
        split at h
        · cases h
        · rename_i s hs
          obtain rfl := Option.some.inj h
          exact .insert hn hs
  | get cpu pid external ts =>
      simp only [Runtime.step] at h
      split at h
      · rename_i hcpu
        obtain rfl := Option.some.inj h
        exact .get hcpu
      · cases h
  | purge logicPid =>
      obtain rfl := Option.some.inj h
      exact .purge

end Nosv
