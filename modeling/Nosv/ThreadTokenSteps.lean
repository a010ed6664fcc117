import Nosv.ThreadTokens

/-!
# The steps of the threads keep the tokens apart

One lemma for each way in which a step passes tokens on; `sound_step`
takes the moves of `Crew.step` apart into these.
-/

namespace Nosv

open Places

/-- What the tokens depend on. -/
def Worker.view (x : Worker) :
    Pid × Pc × Bool × Option TaskId × Option TaskId × List TaskId :=
  (x.pid, x.pc, x.signaled, x.handle, x.immediateSuccessor, x.stack)

def Process.view (x : Process) : List WorkerId × List CreationEvent × Option TaskId :=
  (x.idleThreads, x.threadCreationQueue.toList, x.delegate.handle)

namespace Crew

variable {s s' : Crew} {t : TaskId} {w v : WorkerId} {p : Pid} {x y : Worker}

/-! ## Fields that hold no token -/

theorem workerTokens_view (h : y.view = x.view) : s.workerTokens w y = s.workerTokens w x := by
  cases x
  cases y
  simp only [Worker.view, Prod.mk.injEq] at h
  obtain ⟨rfl, rfl, rfl, rfl, rfl, rfl⟩ := h
  rfl

theorem WorkerOk.view (hx : s.WorkerOk w x) (h : y.view = x.view) : s.WorkerOk w y := by
  cases x
  cases y
  simp only [Worker.view, Prod.mk.injEq] at h
  obtain ⟨rfl, rfl, rfl, rfl, rfl, rfl⟩ := h
  exact ⟨hx.owns, hx.nodup, hx.shape, hx.handle, hx.sends⟩

theorem Idle.view (hx : Idle x p) (h : y.view = x.view) : Idle y p := by
  simp only [Worker.view, Prod.mk.injEq] at h
  obtain ⟨hpid, -, -, hhandle, hslot, hstack⟩ := h
  exact ⟨hstack.trans hx.stack, hhandle.trans hx.handle, hslot.trans hx.slot, hpid.trans hx.pid⟩

theorem NoWorker.view (hx : NoWorker x) (h : y.view = x.view) : NoWorker y := by
  simp only [Worker.view, Prod.mk.injEq] at h
  obtain ⟨-, hpc, hsignaled, hhandle, hslot, hstack⟩ := h
  exact ⟨hpc.trans hx.pc, hstack.trans hx.stack, hslot.trans hx.slot, hhandle.trans hx.handle,
    hsignaled.trans hx.signaled⟩

theorem processTokens_view {z z' : Process} (h : z'.view = z.view) :
    s.processTokens z' = s.processTokens z := by
  simp only [Process.view, Prod.mk.injEq] at h
  obtain ⟨hidle, hqueue, hdelegate⟩ := h
  rw [processTokens, processTokens, hidle, hqueue, hdelegate]

theorem Sound.congr (h : s.Sound) (hworker : ∀ v, (s'.worker v).view = (s.worker v).view)
    (hjob : s'.job = s.job) (hprocess : ∀ p, (s'.process p).view = (s.process p).view)
    (hworkers : s'.workers = s.workers) (hjobs : s'.jobs = s.jobs) : s'.Sound := by
  have hid : ∀ t, (s'.job t).ident = (s.job t).ident := fun t => by rw [hjob]
  have hpar : ∀ t, (s'.job t).parallel = (s.job t).parallel := fun t => by rw [hjob]
  have hpid : ∀ v, (s'.worker v).pid = (s.worker v).pid := fun v => congrArg Prod.fst (hworker v)
  refine ⟨?_, fun v => ((h.worker v).view (hworker v)).congr hid hpid, fun p => ?_,
    fun t => hjob ▸ h.job t, fun v hv => (h.noWorker v (hworkers ▸ hv)).view (hworker v),
    fun t ht => hjob ▸ h.noJob t (hjobs ▸ ht)⟩
  · have hhold : s'.hold = s.hold := by
      funext c
      cases c with
      | worker v => rw [hold, hold, workerTokens_congr hpar, workerTokens_view (hworker v)]
      | process p => rw [hold, hold, processTokens_congr hpar, processTokens_view (hprocess p)]
      | job t => rw [hold, hold, hjob]
    rw [hhold]
    exact h.distinct
  · have hp := h.process p
    have hview := hprocess p
    simp only [Process.view, Prod.mk.injEq] at hview
    obtain ⟨hidle, hqueue, hdelegate⟩ := hview
    refine ⟨fun v hv => ?_, fun e he t ht => ?_, fun t ht => ?_⟩
    · rw [hidle] at hv
      exact (hp.idle v hv).view (hworker v)
    · rw [hqueue] at he
      exact (hp.queue e he t ht).congr (hid t)
    · rw [hdelegate] at ht
      exact (hp.delegate t ht).congr (hid t)

/-- A write to a worker that no token depends on. -/
theorem Sound.setWorker_view (h : s.Sound) (hx : x.view = (s.worker w).view) :
    (s.setWorker w x).Sound := by
  refine h.congr (fun v => ?_) rfl (fun _ => rfl) rfl rfl
  by_cases hv : v = w
  · subst hv
    simpa [Crew.setWorker] using hx
  · simp [Crew.setWorker, hv]

/-- A write to a process that no token depends on. -/
theorem Sound.setProcess_view (h : s.Sound) {z : Process} (hz : z.view = (s.process p).view) :
    (s.setProcess p z).Sound := by
  refine h.congr (fun _ => rfl) rfl (fun q => ?_) rfl rfl
  by_cases hq : q = p
  · subst hq
    simpa [Crew.setProcess] using hz
  · simp [Crew.setProcess, hq]

theorem Sound.cpuSetPid (h : s.Sound) (c : Cpu) (o : Option Pid) : (s.cpuSetPid c o).Sound :=
  h.congr (fun _ => rfl) rfl (fun _ => rfl) rfl rfl

theorem Sound.setLock (h : s.Sound) (o : Option LockOwner) : (s.setLock o).Sound :=
  h.congr (fun _ => rfl) rfl (fun _ => rfl) rfl rfl

/-! ## What there is -/

theorem Sound.born (h : s.Sound) (hpc : (s.worker w).pc ≠ .absent) : w < s.workers := by
  by_contra hle
  exact hpc (h.noWorker w (Nat.le_of_not_lt hle)).pc

theorem Sound.jobBorn (h : s.Sound) (hplace : (s.job t).place ≠ .dead) : t < s.jobs := by
  by_contra hle
  exact hplace (h.noJob t (Nat.le_of_not_lt hle)).place

/-! ## A thread goes on with what it has -/

/-- Only the program counter changes, and what is in hand stays there. -/
theorem Sound.setPc (h : s.Sound) {pc : Pc} (hpc : (s.worker w).pc ≠ .absent)
    (hhandle : pc.handle = (s.worker w).pc.handle) (hwakes : pc.wakes = (s.worker w).pc.wakes)
    (hresting : pc.resting = (s.worker w).pc.resting)
    (htook : pc.tookHandle = (s.worker w).pc.tookHandle)
    (hshape : Worker.Shape { s.worker w with pc := pc })
    (hsends : ∀ a k p t, pc = .hand a k → k.target s w = some p → k.handle = some t → s.Fresh t p) :
    (s.setPc w pc).Sound := by
  have hw := h.worker w
  refine h.setWorker (h.born hpc) rfl ⟨hw.owns, hw.nodup, hshape, hw.handle, hsends⟩
    (fun _ _ => ⟨rfl, rfl, rfl⟩) ?_
  simp [workerTokens, Worker.given, hhandle, hwakes, hresting, htook]

theorem given_of_stack (hstack : x.stack ≠ []) : x.given = none := if_neg fun hand => hstack hand.1

/-- The worker reads the handle that it was given. -/
theorem Sound.takeHandle (h : s.Sound) (hpc : (s.worker w).pc = .hunt)
    (ht : (s.worker w).handle = some t) :
    (s.setPc w (.hand .block (.dispatch t false))).Sound := by
  have hw := h.worker w
  have hshape := hw.shape
  rw [Worker.Shape, hpc] at hshape
  obtain ⟨hstack, hslot⟩ := hshape
  have hnone := hslot (by simp [ht])
  refine h.setWorker (h.born (by simp [hpc])) rfl
    ⟨hw.owns, hw.nodup, ⟨rfl, hstack, hnone, Or.inr ht⟩, hw.handle, ?_⟩
    (h.keeps_of_up (by rw [hpc]; rfl)) ?_
  · intro a k p u hk htarget
    cases hk
    cases htarget
  · simp [workerTokens, Worker.given, hpc, hstack, ht, Pc.handle, Hand.handle, Pc.wakes, Hand.wakes,
      Pc.resting, Pc.tookHandle]

/-- `worker_block` returns. -/
theorem Sound.unblock (h : s.Sound) (hpc : (s.worker w).pc = .blocked)
    (hsignaled : (s.worker w).signaled = true) (c : Option Cpu) {pc : Pc}
    (hloop : (s.worker w).stack = [] → pc = .loop) (hbody : (s.worker w).stack ≠ [] → pc = .body) :
    (s.setWorker w { s.worker w with signaled := false, cpu := c, pc := pc }).Sound := by
  have hw := h.worker w
  have hshape := hw.shape
  rw [Worker.Shape, hpc] at hshape
  by_cases hstack : (s.worker w).stack = []
  · obtain rfl := hloop hstack
    refine h.setWorker (h.born (by simp [hpc])) rfl
      ⟨hw.owns, hw.nodup, ⟨hstack, fun _ => hshape hstack⟩, hw.handle, fun a k p t hk => by cases hk⟩
      (fun _ _ => ⟨rfl, rfl, rfl⟩) ?_
    simp [workerTokens, Worker.given, hpc, hstack, hsignaled, Pc.handle, Pc.wakes, Pc.resting,
      Pc.tookHandle]
  · obtain rfl := hbody hstack
    refine h.setWorker (h.born (by simp [hpc])) rfl
      ⟨hw.owns, hw.nodup, hstack, hw.handle, fun a k p t hk => by cases hk⟩
      (fun _ _ => ⟨rfl, rfl, rfl⟩) ?_
    simp [workerTokens, Worker.given, hpc, hstack, hsignaled, Pc.handle, Pc.wakes, Pc.resting]

theorem Sound.stackBorn (h : s.Sound) (ht : t ∈ (s.worker w).stack) : t < s.jobs := by
  by_contra hle
  have hno := h.noJob t (Nat.le_of_not_lt hle)
  have := (h.worker w).owns t ht hno.parallel
  rw [hno.worker] at this
  cases this

/-- **A thread blocks in a task**, and leaves with it the right to wake
it. -/
theorem Sound.block (h : s.Sound) {j : Job} (hpc : (s.worker w).pc ≠ .absent)
    (hup : (s.worker w).pc.resting = false) (ht : t ∈ (s.worker w).stack)
    (hj : j.ident = (s.job t).ident) (hjok : j.Ok) (hplace : j.place ≠ .flight)
    (hpid : x.pid = (s.worker w).pid) (hok : s.WorkerOk w x) (hkeeps : Keeps (s.worker w) x)
    (hhandle : x.pc.handle = (s.worker w).pc.handle) (hwakes : x.pc.wakes = (s.worker w).pc.wakes)
    (hresting : x.pc.resting = true) (hsignaled : x.signaled = (s.worker w).signaled) :
    ((s.setJob t j).setWorker w x).Sound := by
  refine h.setJobWorker hj (h.stackBorn ht) hjok (h.born hpc) hpid hok (h.keeps_of_up hup) ?_
  obtain ⟨hstack, -, hslot⟩ := hkeeps
  have hne : (s.worker w).stack ≠ [] := List.ne_nil_of_mem ht
  have hpar : j.parallel = (s.job t).parallel := parallel_of_ident hj
  -- the right to wake the thread goes to the task, unless that is a parallel one
  have hkeep : (if j.parallel then 0 else wakeToken j.keeps)
      ≤ {Token.wake w} + (if (s.job t).parallel then 0 else wakeToken (s.job t).keeps) := by
    by_cases hparallel : (s.job t).parallel = true
    · simp [hpar, hparallel]
    · have hord := eq_false_of_ne_true hparallel
      have howns := (h.worker w).owns t ht hord
      by_cases hrun : j.place = .running <;>
        simp [hpar, hord, Job.keeps, h.running hup ht hord, worker_of_ident hj, howns, hrun]
  have hplace' : (s.job t).parallel = false → (s.job t).place ≠ .flight := fun hord => by
    simp [h.running hup ht hord]
  have hfree : (if j.place = .flight then 0 else s.jobToken (some t))
      ≤ (if (s.job t).place = .flight then 0 else s.jobToken (some t)) := by
    rw [if_neg hplace]
    by_cases hparallel : (s.job t).parallel = true
    · simp [jobToken, hparallel]
    · rw [if_neg (hplace' (eq_false_of_ne_true hparallel))]
  rw [workerTokens, workerTokens, given_of_stack hne, given_of_stack (hstack ▸ hne), hhandle, hwakes,
    hslot, hresting, hup, hsignaled, jobTokens_eq hpar, jobTokens_eq rfl]
  refine Multiset.le_iff_count.mpr fun tok => ?_
  have hfree := Multiset.count_le_of_le tok hfree
  have hkeep := Multiset.count_le_of_le tok hkeep
  simp only [if_true, Bool.false_eq_true, if_false, jobToken_none, Multiset.count_add,
    Multiset.count_zero] at hfree hkeep ⊢
  omega

/-! ## Tasks in flight -/

/-- The place of an ordinary task that somebody has in hand or in a slot. -/
theorem Sound.flight_of_mem (h : s.Sound) {o : Option TaskId} (ho : o = some t)
    (hle : s.jobToken o ≤ s.workerTokens w (s.worker w)) (hpar : (s.job t).parallel = false) :
    (s.job t).place = .flight := by
  refine h.flight (c := .worker w) (Multiset.mem_of_le hle ?_) (by simp) hpar
  exact mem_jobToken.mpr ⟨ho, hpar⟩

theorem slot_le : s.jobToken x.immediateSuccessor ≤ s.workerTokens w x :=
  Multiset.le_iff_count.mpr fun tok => by
    simp only [workerTokens, Multiset.count_add]
    omega

theorem hand_le : s.jobToken x.pc.handle ≤ s.workerTokens w x :=
  Multiset.le_iff_count.mpr fun tok => by
    simp only [workerTokens, Multiset.count_add]
    omega

/-- A task takes off. -/
theorem jobTokens_takeOff {j : Job} (hj : j.ident = (s.job t).ident) (hflight : j.place = .flight)
    (hplace : (s.job t).place ≠ .flight) (hrun : (s.job t).place ≠ .running) :
    jobTokens t j + s.jobToken (some t) = jobTokens t (s.job t) := by
  have hkeeps : j.keeps = (s.job t).keeps := by
    simp [Job.keeps, hflight, hrun, worker_of_ident hj]
  rw [jobTokens_eq (parallel_of_ident hj), jobTokens_eq rfl, if_pos hflight, if_neg hplace, hkeeps,
    parallel_of_ident hj, zero_add, add_comm]

/-- A task that nobody executes lands. -/
theorem jobTokens_land {j : Job} (hj : j.ident = (s.job t).ident) (hplace : j.place ≠ .flight)
    (hflight : (s.job t).parallel = false → (s.job t).place = .flight) (hrun : j.place ≠ .running) :
    jobTokens t j ≤ jobTokens t (s.job t) + s.jobToken (some t) := by
  have hpar := parallel_of_ident hj
  by_cases hparallel : (s.job t).parallel = true
  · simp [jobTokens, hpar, hparallel]
  · have hplace' := hflight (eq_false_of_ne_true hparallel)
    have hkeeps : j.keeps = (s.job t).keeps := by
      simp [Job.keeps, hplace', hrun, worker_of_ident hj]
    rw [jobTokens_eq hpar, jobTokens_eq rfl, if_pos hplace', if_neg hplace, hkeeps, hpar, zero_add,
      add_comm]

/-- A place that is neither in flight nor running is as good as another. -/
theorem jobTokens_stay {j : Job} (hj : j.ident = (s.job t).ident)
    (hflight : j.place = .flight ↔ (s.job t).place = .flight)
    (hrun : j.place = .running ↔ (s.job t).place = .running) :
    jobTokens t j = jobTokens t (s.job t) := by
  have hkeeps : j.keeps = (s.job t).keeps := by
    simp [Job.keeps, hrun, worker_of_ident hj]
  simp only [jobTokens, hflight, hkeeps, parallel_of_ident hj]

/-- A thread that has nothing in hand gets a task. -/
theorem Sound.getHand (h : s.Sound) {j : Job} {pc : Pc} (hj : j.ident = (s.job t).ident)
    (hjborn : t < s.jobs) (hjok : j.Ok)
    (htake : jobTokens t j + s.jobToken (some t) = jobTokens t (s.job t))
    (hpc : (s.worker w).pc ≠ .absent) (hup : (s.worker w).pc.resting = false)
    (hempty : (s.worker w).pc.handle = none) (hhandle : pc.handle = some t)
    (hwakes : pc.wakes = (s.worker w).pc.wakes) (hresting : pc.resting = false)
    (hgiven : Worker.given { s.worker w with pc := pc } = (s.worker w).given)
    (hok : s.WorkerOk w { s.worker w with pc := pc }) : ((s.setJob t j).setPc w pc).Sound := by
  show ((s.setJob t j).setWorker w { s.worker w with pc := pc }).Sound
  refine h.setJobWorker hj hjborn hjok (h.born hpc) rfl hok (h.keeps_of_up hup) ?_
  refine Multiset.le_iff_count.mpr fun tok => ?_
  have htake := congrArg (Multiset.count tok) htake
  simp only [workerTokens, hhandle, hwakes, hresting, hup, hempty, hgiven, jobToken_none,
    Multiset.count_add, Multiset.count_zero] at htake ⊢
  omega

/-- A thread takes its immediate successor in hand. -/
theorem Sound.takeSlot (h : s.Sound) {pc : Pc} (hslot : (s.worker w).immediateSuccessor = some t)
    (hpc : (s.worker w).pc ≠ .absent) (hempty : (s.worker w).pc.handle = none)
    (hhandle : pc.handle = some t) (hwakes : pc.wakes = (s.worker w).pc.wakes)
    (hresting : pc.resting = (s.worker w).pc.resting)
    (hgiven : Worker.given { s.worker w with pc := pc } = (s.worker w).given)
    (hok : s.WorkerOk w { s.worker w with immediateSuccessor := none, pc := pc }) :
    (s.setWorker w { s.worker w with immediateSuccessor := none, pc := pc }).Sound := by
  refine h.setWorker (h.born hpc) rfl hok (fun p hw => ?_) ?_
  · have := ((h.process p).idle w hw).slot
    rw [hslot] at this
    cases this
  · have hgiven' : Worker.given { s.worker w with immediateSuccessor := none, pc := pc }
        = (s.worker w).given := hgiven
    refine Multiset.le_iff_count.mpr fun tok => ?_
    simp only [workerTokens, hslot, hhandle, hwakes, hresting, hempty, hgiven', jobToken_none,
      Multiset.count_add, Multiset.count_zero]
    omega

/-- The task in the slot goes to the scheduler. -/
theorem Sound.dropSlot (h : s.Sound) (hslot : (s.worker w).immediateSuccessor = some t)
    (hpc : (s.worker w).pc ≠ .absent) (hok : s.WorkerOk w { s.worker w with immediateSuccessor := none }) :
    ((s.schedulerSubmit t).setWorker w { s.worker w with immediateSuccessor := none }).Sound := by
  have hflight : (s.job t).parallel = false → (s.job t).place = .flight :=
    h.flight_of_mem hslot slot_le
  have hborn : t < s.jobs := by
    by_contra hle
    have hno := h.noJob t (Nat.le_of_not_lt hle)
    have := hflight hno.parallel
    rw [hno.place] at this
    cases this
  have hjob := h.job t
  refine h.setJobWorker (j := { s.job t with place := .ready }) rfl hborn
    ⟨hjob.count, fun hpar _ => hjob.unblocked hpar (by simp [hflight hpar]), by simp, hjob.shared⟩
    (h.born hpc) rfl hok (fun p hw => ?_) ?_
  · have := ((h.process p).idle w hw).slot
    rw [hslot] at this
    cases this
  · have hland : jobTokens t { s.job t with place := .ready } ≤ _ :=
      jobTokens_land (s := s) rfl (by simp) hflight (by simp)
    have hgiven' : Worker.given { s.worker w with immediateSuccessor := none }
        = (s.worker w).given := rfl
    refine Multiset.le_iff_count.mpr fun tok => ?_
    have hland := Multiset.count_le_of_le tok hland
    simp only [workerTokens, hslot, hgiven', jobToken_none, Multiset.count_add,
      Multiset.count_zero] at hland ⊢
    omega

/-- A task goes into an empty slot. -/
theorem Sound.fillSlot (h : s.Sound) {j : Job} (hj : j.ident = (s.job t).ident) (hjborn : t < s.jobs)
    (hjok : j.Ok) (htake : jobTokens t j + s.jobToken (some t) = jobTokens t (s.job t))
    (hslot : (s.worker w).immediateSuccessor = none) (hpc : (s.worker w).pc ≠ .absent)
    (hup : (s.worker w).pc.resting = false)
    (hok : s.WorkerOk w { s.worker w with immediateSuccessor := some t }) :
    ((s.setJob t j).setWorker w { s.worker w with immediateSuccessor := some t }).Sound := by
  refine h.setJobWorker hj hjborn hjok (h.born hpc) rfl hok (h.keeps_of_up hup) ?_
  have hgiven' : Worker.given { s.worker w with immediateSuccessor := some t }
      = (s.worker w).given := rfl
  refine Multiset.le_iff_count.mpr fun tok => ?_
  have htake := congrArg (Multiset.count tok) htake
  simp only [workerTokens, hslot, hgiven', jobToken_none, Multiset.count_add,
    Multiset.count_zero] at htake ⊢
  omega

/-! ## Handing over -/

theorem Sound.handBorn (h : s.Sound) (ht : (s.worker w).pc.handle = some t) : t < s.jobs := by
  by_contra hle
  have hno := h.noJob t (Nat.le_of_not_lt hle)
  have := h.flight_of_mem ht hand_le hno.parallel
  rw [hno.place] at this
  cases this

theorem processTokens_push (s : Crew) (z : Process) (w : WorkerId) :
    s.processTokens { z with idleThreads := w :: z.idleThreads } = {.wake w} + s.processTokens z := by
  simp only [processTokens, ← Multiset.cons_coe, Multiset.map_cons]
  rw [← Multiset.singleton_add, add_assoc, add_assoc, add_assoc]

theorem ProcessOk.push {z : Process} (hz : s.ProcessOk p z)
    (hid : ∀ t, (s'.job t).ident = (s.job t).ident)
    (hothers : ∀ v ∈ z.idleThreads, Idle (s'.worker v) p) (hw : Idle (s'.worker w) p) :
    s'.ProcessOk p { z with idleThreads := w :: z.idleThreads } where
  idle v hv := by
    rcases List.mem_cons.mp hv with rfl | hv
    · exact hw
    · exact hothers v hv
  queue e he t ht := (hz.queue e he t ht).congr (hid t)
  delegate t ht := (hz.delegate t ht).congr (hid t)

/-- A worker without a task goes to the list of idle threads, and still has
something to do. -/
theorem Sound.goIdle (h : s.Sound) {j : Job} {pc : Pc} (hj : j.ident = (s.job t).ident)
    (hjborn : t < s.jobs) (hjok : j.Ok) (hpc : (s.worker w).pc ≠ .absent)
    (hup : (s.worker w).pc.resting = false) (hresting : pc.resting = true)
    (hidle : Idle (s.worker w) (s.worker w).pid) (hok : s.WorkerOk w { s.worker w with pc := pc })
    (hle : s.jobToken pc.handle + wakeToken pc.wakes + jobTokens t j
      ≤ s.jobToken (s.worker w).pc.handle + wakeToken (s.worker w).pc.wakes
        + jobTokens t (s.job t)) :
    (((s.setJob t j).workerAddToIdleList w).setPc w pc).Sound := by
  obtain ⟨s', hs'⟩ : ∃ s', s' = ((s.setJob t j).workerAddToIdleList w).setPc w pc := ⟨_, rfl⟩
  rw [← hs']
  have hworker : s'.worker = Function.update s.worker w { s.worker w with pc := pc } := by
    rw [hs']
    rfl
  have hjob : s'.job = Function.update s.job t j := by
    rw [hs']
    rfl
  have hprocess : s'.process = Function.update s.process (s.worker w).pid
      { s.process (s.worker w).pid with
        idleThreads := w :: (s.process (s.worker w).pid).idleThreads } := by
    rw [hs']
    rfl
  have hid : ∀ u, (s'.job u).ident = (s.job u).ident := by
    intro u
    rw [hs']
    exact ident_setJob hj u
  refine h.own (T := {t}) (P := {(s.worker w).pid}) hworker (h.born hpc) rfl (by rw [hs']; rfl)
    (by rw [hs']; rfl) hid (fun u hu => ?_) (fun u hu => ?_) (fun q hq => ?_) hok (fun u hu => ?_)
    (fun _ _ => ⟨rfl, rfl, rfl⟩) (fun q hq hothers => ?_) ?_
  · rw [hjob, Function.update_of_ne (Finset.notMem_singleton.mp hu)]
  · rwa [Finset.mem_singleton.mp hu]
  · rw [hprocess, Function.update_of_ne (Finset.notMem_singleton.mp hq)]
  · rw [Finset.mem_singleton.mp hu, hjob, Function.update_self]
    exact hjok
  · rw [Finset.mem_singleton.mp hq, hprocess, Function.update_self]
    refine (h.process _).push hid (fun u hu => ?_) ?_
    · refine hothers u _ ((h.process _).idle u hu) fun heq => ?_
      exact h.not_idle hup _ (heq ▸ hu)
    · rw [hworker, Function.update_self]
      exact ⟨hidle.stack, hidle.handle, hidle.slot, rfl⟩
  · rw [Finset.sum_singleton, Finset.sum_singleton, Finset.sum_singleton, Finset.sum_singleton,
      hprocess, hjob, Function.update_self, Function.update_self, processTokens_push]
    refine Multiset.le_iff_count.mpr fun tok => ?_
    have hle := Multiset.count_le_of_le tok hle
    simp only [workerTokens, Worker.given, hidle.handle, ite_self, jobToken_none, hup, hresting,
      if_true, Bool.false_eq_true, if_false, Multiset.count_add, Multiset.count_zero] at hle ⊢
    omega

/-- The task in hand has been started before: its thread is woken. The
one that wakes it goes to the list of idle threads, if it has no task
itself. -/
theorem Sound.wakeOwner (h : s.Sound) {a : After} {busy : Bool}
    (hpc : (s.worker w).pc = .hand a (.dispatch t busy)) (hv : (s.job t).worker = some v) :
    (s.dispatch w a t busy).Sound := by
  have hw := h.worker w
  have hshape := hw.shape
  rw [Worker.Shape, hpc] at hshape
  have hjob := h.job t
  have hpar : (s.job t).parallel = false := by
    by_contra hparallel
    rw [hjob.shared (eq_true_of_ne_false hparallel)] at hv
    cases hv
  have hhandle : (s.worker w).pc.handle = some t := by rw [hpc]; rfl
  have hflight := h.flight_of_mem hhandle hand_le hpar
  have hborn := h.handBorn hhandle
  have hjok : Job.Ok { s.job t with place := .running } :=
    ⟨hjob.count, fun hpar _ => hjob.unblocked hpar (by simp [hflight]), by simp, hjob.shared⟩
  have hsends : ∀ a' k p u, Pc.hand a (.newCpu v) = .hand a' k → k.target s w = some p →
      k.handle = some u → s.Fresh u p := by
    intro a' k p u hk htarget
    cases hk
    cases htarget
  -- the task lands, and gives up the right to wake its thread
  have hland : jobTokens t { s.job t with place := .running } + {Token.wake v}
      = jobTokens t (s.job t) + s.jobToken (some t) := by
    rw [jobTokens_eq (s := s) (j := { s.job t with place := .running }) rfl, jobTokens_eq rfl]
    simp [hflight, hpar, Job.keeps, hv, add_comm]
  cases busy with
  | true =>
      obtain ⟨rfl, hstack⟩ := hshape
      have hdispatch : s.dispatch w .block t true
          = (s.setJob t { s.job t with place := .running }).setWorker w
            { s.worker w with pc := .hand .block (.newCpu v) } := by
        simp [dispatch, hv, Crew.setPc, Crew.setJob]
      rw [hdispatch]
      refine h.setJobWorker rfl hborn hjok (h.born (by simp [hpc])) rfl
        ⟨hw.owns, hw.nodup, fun _ hnil => absurd hnil hstack, hw.handle, hsends⟩
        (fun _ _ => ⟨rfl, rfl, rfl⟩) ?_
      refine Multiset.le_iff_count.mpr fun tok => ?_
      have hland := congrArg (Multiset.count tok) hland
      simp only [workerTokens, Worker.given, hstack, hpc, Pc.handle, Hand.handle, Pc.wakes,
        Hand.wakes, Pc.resting, wakeToken_some, wakeToken_none, jobToken_none, false_and, if_false,
        Multiset.count_add, Multiset.count_zero] at hland ⊢
      omega
  | false =>
      obtain ⟨rfl, hstack, hslot, hgiven⟩ := hshape
      have hnone : (s.worker w).handle = none := by
        rcases hgiven with hnone | hsome
        · exact hnone
        · have := (hw.handle t hstack hsome).1
          rw [hv] at this
          cases this
      have hdispatch : s.dispatch w .block t false
          = ((s.setJob t { s.job t with place := .running }).workerAddToIdleList w).setPc w
            (.hand .block (.newCpu v)) := by
        simp [dispatch, hv]
      rw [hdispatch]
      refine h.goIdle rfl hborn hjok (by simp [hpc]) (by rw [hpc]; rfl) rfl
        ⟨hstack, hnone, hslot, rfl⟩ ⟨hw.owns, hw.nodup, fun _ _ => hslot, hw.handle, hsends⟩ ?_
      rw [hpc]
      refine Multiset.le_iff_count.mpr fun tok => ?_
      have hland := congrArg (Multiset.count tok) hland
      simp only [Pc.handle, Hand.handle, Pc.wakes, Hand.wakes, wakeToken_some, wakeToken_none,
        jobToken_none, Multiset.count_add, Multiset.count_zero] at hland ⊢
      omega

/-- The task in hand has not been started, and belongs to another process. -/
theorem Sound.transfer (h : s.Sound) {a : After} {busy : Bool}
    (hpc : (s.worker w).pc = .hand a (.dispatch t busy)) (hv : (s.job t).worker = none)
    (hpid : (s.job t).pid ≠ (s.worker w).pid) : (s.dispatch w a t busy).Sound := by
  have hw := h.worker w
  have hshape := hw.shape
  rw [Worker.Shape, hpc] at hshape
  have hsends : ∀ a' k p u, Pc.hand a (.transfer (s.job t).pid (some t)) = .hand a' k →
      k.target s w = some p → k.handle = some u → s.Fresh u p := by
    intro a' k p u hk htarget hu
    cases hk
    cases htarget
    cases hu
    exact ⟨hv, rfl⟩
  cases busy with
  | true =>
      obtain ⟨rfl, hstack⟩ := hshape
      have hdispatch : s.dispatch w .block t true
          = s.setPc w (.hand .block (.transfer (s.job t).pid (some t))) := by
        simp [dispatch, hv, hpid]
      rw [hdispatch]
      exact h.setPc (by simp [hpc]) (by rw [hpc]; rfl) (by rw [hpc]; rfl) (by rw [hpc]; rfl)
        (by rw [hpc]; rfl) (fun _ hnil => absurd hnil hstack) hsends
  | false =>
      obtain ⟨rfl, hstack, hslot, hgiven⟩ := hshape
      have hnone : (s.worker w).handle = none := by
        rcases hgiven with hnone | hsome
        · exact hnone
        · exact absurd (hw.handle t hstack hsome).2 hpid
      have hdispatch : s.dispatch w .block t false
          = ((s.setJob t (s.job t)).workerAddToIdleList w).setPc w
            (.hand .block (.transfer (s.job t).pid (some t))) := by
        simp [dispatch, hv, hpid, Crew.setJob]
      rw [hdispatch]
      refine h.goIdle rfl (h.handBorn (w := w) (by rw [hpc]; rfl)) (h.job t) (by simp [hpc])
        (by rw [hpc]; rfl) rfl ⟨hstack, hnone, hslot, rfl⟩
        ⟨hw.owns, hw.nodup, fun _ _ => hslot, hw.handle, hsends⟩ ?_
      rw [hpc]
      exact le_rfl

/-! ## Tasks that get a worker, or lose it -/

theorem mem_of_handle (hok : s.WorkerOk v x) (hstack : x.stack = []) (ht : x.handle = some t)
    (hpar : (s.job t).parallel = false) : Token.job t ∈ s.workerTokens v x := by
  by_cases htook : x.pc.tookHandle = true
  · -- the handle is in hand
    unfold Pc.tookHandle at htook
    split at htook
    · rename_i u hpc
      have hshape := hok.shape
      rw [Worker.Shape, hpc] at hshape
      rcases hshape.2.2.2 with hnone | hsome
      · rw [ht] at hnone
        cases hnone
      · refine Multiset.mem_of_le hand_le (mem_jobToken.mpr ⟨?_, hpar⟩)
        rw [hpc, ← ht, hsome]
        rfl
    · cases htook
  · have hgiven : x.given = some t := by
      rw [Worker.given, if_pos ⟨hstack, eq_false_of_ne_true htook⟩, ht]
    have : s.jobToken x.given ≤ s.workerTokens v x := Multiset.le_iff_count.mpr fun tok => by
      simp only [workerTokens, Multiset.count_add]
      omega
    exact Multiset.mem_of_le this (mem_jobToken.mpr ⟨hgiven, hpar⟩)

theorem mem_of_queue {z : Process} {e : CreationEvent} (he : e ∈ z.threadCreationQueue.toList)
    (ht : e.handle = some t) (hpar : (s.job t).parallel = false) :
    Token.job t ∈ s.processTokens z := by
  obtain ⟨l₁, l₂, hsplit⟩ := List.append_of_mem he
  have := mem_jobToken.mpr ⟨ht, hpar⟩
  simp [processTokens, hsplit, this]

theorem mem_of_delegate {z : Process} (ht : z.delegate.handle = some t)
    (hpar : (s.job t).parallel = false) : Token.job t ∈ s.processTokens z := by
  have := mem_jobToken.mpr ⟨ht, hpar⟩
  simp [processTokens, this]

/-- Only worker `w` has anything to do with the tasks of `N`, and they
change as they like. -/
theorem Sound.renew (h : s.Sound) {N : TaskId → Prop} (hdistinct : Distinct s'.hold)
    (hjob : ∀ u, ¬ N u → s'.job u = s.job u) (hworker : ∀ v, v ≠ w → s'.worker v = s.worker v)
    (hprocess : s'.process = s.process) (hord : ∀ u, N u → (s.job u).parallel = false)
    (hstacks : ∀ u, N u → ∀ v, v ≠ w → u ∉ (s.worker v).stack)
    (hcarried : ∀ u, N u → ∀ c, Token.job u ∈ s.hold c → c = .worker w ∨ c = .job u)
    (hgive : ∀ v a o, v ≠ w → (s.worker v).pc = .hand a (.give w o) →
      (s'.worker w).pid = (s.worker w).pid)
    (hok : s'.WorkerOk w (s'.worker w)) (hidle : ∀ p, w ∉ (s.process p).idleThreads)
    (hjobok : ∀ u, N u → (s'.job u).Ok)
    (hnoWorker : ∀ v, s'.workers ≤ v → NoWorker (s'.worker v))
    (hnoJob : ∀ u, s'.jobs ≤ u → s.jobs ≤ u ∧ ¬ N u) : s'.Sound := by
  have hfresh : ∀ {u p}, s.Fresh u p → ¬ N u → s'.Fresh u p := fun hu hne =>
    hu.congr (by rw [hjob _ hne])
  have hout : ∀ {v u}, v ≠ w → N u → Token.job u ∉ s.workerTokens v (s.worker v) :=
    fun hv hu hin => by
      rcases hcarried _ hu (.worker _) hin with heq | heq
      · exact hv (Part.worker.inj heq)
      · cases heq
  have houtp : ∀ {u p}, N u → Token.job u ∉ s.processTokens (s.process p) := fun hu hin => by
    rcases hcarried _ hu (.process _) hin with heq | heq <;> cases heq
  refine ⟨hdistinct, fun v => ?_, fun p => ?_, fun u => ?_, hnoWorker, fun u hu => ?_⟩
  · by_cases hv : v = w
    · rw [hv]
      exact hok
    · rw [hworker v hv]
      have hokv := h.worker v
      refine ⟨fun u hu hparu => ?_, hokv.nodup, hokv.shape, fun u hstack hu => ?_,
        fun a k p u hpc htarget hu => ?_⟩
      · have hne : ¬ N u := fun hN => hstacks u hN v hv hu
        rw [hjob u hne] at hparu ⊢
        exact hokv.owns u hu hparu
      · refine hfresh (hokv.handle u hstack hu) fun hN => ?_
        exact hout hv hN (mem_of_handle hokv hstack hu (hord u hN))
      · have htarget' : k.target s v = some p := by
          cases k with
          | give v' o =>
              by_cases hv' : v' = w
              · subst hv'
                rw [← htarget, Hand.target, Hand.target, hgive v a o hv hpc]
              · rw [← htarget, Hand.target, Hand.target, hworker v' hv']
          | create o => rw [← htarget, Hand.target, Hand.target, hworker v hv]
          | spawn o => rw [← htarget, Hand.target, Hand.target, hworker v hv]
          | submitSelf | dispatch | transfer | wakeIdle | newCpu | setPid | signal | put =>
              exact htarget
        refine hfresh (hokv.sends a k p u hpc htarget' hu) fun hN => ?_
        refine hout hv hN (Multiset.mem_of_le hand_le (mem_jobToken.mpr ⟨?_, hord u hN⟩))
        rw [hpc]
        exact hu
  · rw [hprocess]
    have hokp := h.process p
    refine ⟨fun v hv => ?_, fun e he u hu => hfresh (hokp.queue e he u hu) fun hN => ?_,
      fun u hu => hfresh (hokp.delegate u hu) fun hN => ?_⟩
    · rw [hworker v fun heq => hidle p (heq ▸ hv)]
      exact hokp.idle v hv
    · exact houtp hN (mem_of_queue he hu (hord u hN))
    · exact houtp hN (mem_of_delegate hu (hord u hN))
  · by_cases hu : N u
    · exact hjobok u hu
    · rw [hjob u hu]
      exact h.job u
  · obtain ⟨hle, hne⟩ := hnoJob u hu
    rw [hjob u hne]
    exact h.noJob u hle

/-- Task `t` gets another worker, and nobody else has anything to do with
it. -/
theorem Sound.rebind (h : s.Sound) {j : Job} (hord : (s.job t).parallel = false)
    (hj : j.parallel = false) (hjborn : t < s.jobs) (hjok : j.Ok) (hborn : w < s.workers)
    (hpid : x.pid = (s.worker w).pid) (hstacks : ∀ v, v ≠ w → t ∉ (s.worker v).stack)
    (hcarried : ∀ c, Token.job t ∈ s.hold c → c = .worker w ∨ c = .job t)
    (hok : (s.setJob t j).WorkerOk w x) (hidle : ∀ p, w ∉ (s.process p).idleThreads)
    (hle : s.workerTokens w x + jobTokens t j
      ≤ s.workerTokens w (s.worker w) + jobTokens t (s.job t)) :
    ((s.setJob t j).setWorker w x).Sound := by
  obtain ⟨s', hs'⟩ : ∃ s', s' = (s.setJob t j).setWorker w x := ⟨_, rfl⟩
  rw [← hs']
  have hself : s'.worker w = x := by simp [hs', Crew.setWorker]
  have hother : ∀ v, v ≠ w → s'.worker v = s.worker v := fun v hv => by
    simp [hs', Crew.setWorker, hv, Crew.setJob]
  have hjobt : s'.job t = j := by simp [hs', Crew.setWorker, Crew.setJob]
  have hjobs : ∀ u, u ≠ t → s'.job u = s.job u := fun u hu => by
    simp [hs', Crew.setWorker, Crew.setJob, hu]
  have hpar : ∀ u, (s'.job u).parallel = (s.job u).parallel := by
    intro u
    by_cases hu : u = t
    · rw [hu, hjobt, hj, hord]
    · rw [hjobs u hu]
  have hpids : ∀ v, (s'.worker v).pid = (s.worker v).pid := by
    intro v
    by_cases hv : v = w
    · rw [hv, hself, hpid]
    · rw [hother v hv]
  have hprocess : s'.process = s.process := by rw [hs']; rfl
  refine h.renew (w := w) (N := fun u => u = t) ?_ hjobs hother hprocess (fun u hu => hu ▸ hord)
    (fun u hu => hu ▸ hstacks) (fun u hu => hu ▸ hcarried) (fun _ _ _ _ _ => hpids w) ?_ hidle
    (fun u hu => ?_) (fun v hv => ?_) (fun u hu => ?_)
  · refine distinct_exchange h.distinct {w} ∅ {t} (fun v hv => ?_) (fun p _ => ?_)
      (fun u hu => ?_) ?_
    · simp only [hold, workerTokens_congr hpar, hother v (Finset.notMem_singleton.mp hv)]
    · simp only [hold, processTokens_congr hpar, hprocess]
    · simp only [hold, hjobs u (Finset.notMem_singleton.mp hu)]
    · simpa only [hold, Finset.sum_singleton, Finset.sum_empty, zero_add, hself, hjobt,
        workerTokens_congr hpar] using hle
  · rw [hself]
    exact hok.congr (fun u => by rw [hs']; rfl) hpids
  · rw [show u = t from hu, hjobt]
    exact hjok
  · have hv : s.workers ≤ v := by rw [hs'] at hv; exact hv
    rw [hother v (Nat.ne_of_gt (Nat.lt_of_lt_of_le hborn hv))]
    exact h.noWorker v hv
  · have hu : s.jobs ≤ u := by rw [hs'] at hu; exact hu
    exact ⟨hu, Nat.ne_of_gt (Nat.lt_of_lt_of_le hjborn hu)⟩

/-- An ordinary task that nobody has in flight is with nobody. -/
theorem Sound.carried (h : s.Sound) (hpar : (s.job t).parallel = false)
    (hplace : (s.job t).place ≠ .flight) (c : Part) (hc : Token.job t ∈ s.hold c) : c = .job t := by
  by_contra hne
  exact hplace (h.flight hc hne hpar)

theorem Sound.notMem_stack (h : s.Sound) (hpar : (s.job t).parallel = false)
    (hworker : (s.job t).worker ≠ some v) : t ∉ (s.worker v).stack := fun hin =>
  hworker ((h.worker v).owns t hin hpar)

/-- The worker executes the task in hand. -/
theorem Sound.execute (h : s.Sound) {a : After} (hpc : (s.worker w).pc = .hand a (.dispatch t false))
    (hv : (s.job t).worker = none) : (s.taskExecute w t).Sound := by
  have hw := h.worker w
  have hshape := hw.shape
  rw [Worker.Shape, hpc] at hshape
  obtain ⟨rfl, hstack, hslot, -⟩ := hshape
  have hhandle : (s.worker w).pc.handle = some t := by rw [hpc]; rfl
  have hup : (s.worker w).pc.resting = false := by rw [hpc]; rfl
  have hborn := h.born (w := w) (by simp [hpc])
  by_cases hparallel : (s.job t).parallel = true
  · have hexec : s.taskExecute w t = s.setWorker w
        { s.worker w with handle := some t, stack := [t], pc := .body } := by
      simp [taskExecute, hparallel, Crew.setJob, hstack]
    rw [hexec]
    refine h.setWorker hborn rfl ⟨?_, List.nodup_singleton t, List.cons_ne_nil t [],
      (fun u hnil => by cases hnil), (fun a k p u hk => by cases hk)⟩ (h.keeps_of_up hup) ?_
    · intro u hu hord
      rw [List.mem_singleton.mp hu, hparallel] at hord
      cases hord
    · refine Multiset.le_iff_count.mpr fun tok => ?_
      simp only [workerTokens, Worker.given, hpc, Pc.handle, Pc.wakes, Hand.wakes, Pc.resting,
        List.cons_ne_nil, false_and, if_false, Bool.false_eq_true, jobToken_none, Multiset.count_add,
        Multiset.count_zero]
      omega
  · have hpar := eq_false_of_ne_true hparallel
    have hflight := h.flight_of_mem hhandle hand_le hpar
    have hjob := h.job t
    have hexec : s.taskExecute w t
        = (s.setJob t { s.job t with worker := some w, place := .running }).setWorker w
          { s.worker w with handle := some t, stack := [t], pc := .body } := by
      simp [taskExecute, hpar, Crew.setJob, hstack]
    rw [hexec]
    refine h.rebind hpar hpar (h.handBorn hhandle)
      ⟨hjob.count, fun _ _ => hjob.unblocked hpar (by simp [hflight]), by simp, by simp [hpar]⟩
      hborn rfl (fun v _ => h.notMem_stack hpar (by simp [hv])) (fun c hc => Or.inl ?_)
      ⟨?_, List.nodup_singleton t, List.cons_ne_nil t [], (fun u hnil => by cases hnil),
        (fun a k p u hk => by cases hk)⟩ (h.not_idle hup) ?_
    · exact h.distinct.inj hc (j := .worker w)
        (Multiset.mem_of_le hand_le (mem_jobToken.mpr ⟨hhandle, hpar⟩))
    · intro u hu _
      rw [List.mem_singleton.mp hu]
      simp [Crew.setJob]
    · have hland : jobTokens t { s.job t with worker := some w, place := .running }
          = jobTokens t (s.job t) + s.jobToken (some t) := by
        rw [jobTokens_eq (s := s) (j := { s.job t with worker := some w, place := .running }) rfl,
          jobTokens_eq rfl]
        simp [hflight, Job.keeps, hv]
      refine Multiset.le_iff_count.mpr fun tok => ?_
      have hland := congrArg (Multiset.count tok) hland
      simp only [workerTokens, Worker.given, hpc, Pc.handle, Hand.handle, Pc.wakes, Hand.wakes,
        Pc.resting, List.cons_ne_nil, false_and, if_false, Bool.false_eq_true, jobToken_none, Multiset.count_add,
        Multiset.count_zero] at hland ⊢
      omega

/-- A task that rests runs inside the one that submits it. -/
theorem Sound.executeInline (h : s.Sound) (hpc : (s.worker w).pc = .body) (hborn : t < s.jobs)
    (hpar : (s.job t).parallel = false) (hplace : (s.job t).place = .rest)
    (hfits : CountFits (s.job t).count) :
    ((s.setJob t { s.job t with count := countDown (s.job t).count }).taskExecute w t).Sound := by
  have hw := h.worker w
  have hstack := hw.shape
  rw [Worker.Shape, hpc] at hstack
  have hup : (s.worker w).pc.resting = false := by rw [hpc]; rfl
  have hjob := h.job t
  have hnone := hjob.rest (Or.inl hplace)
  have hdown := hjob.down hpar hfits
  have hexec : (s.setJob t { s.job t with count := countDown (s.job t).count }).taskExecute w t
      = (s.setJob t { s.job t with
          count := countDown (s.job t).count, worker := some w, place := .running }).setWorker w
        { s.worker w with handle := some t, stack := t :: (s.worker w).stack, pc := .body } := by
    simp [taskExecute, hpar, Crew.setJob]
  have hnotin := fun v => h.notMem_stack (v := v) hpar (by simp [hnone])
  rw [hexec]
  refine h.rebind hpar hpar hborn ⟨fun _ => Or.inl hdown, fun _ _ => hdown, by simp, by simp [hpar]⟩
    (h.born (by simp [hpc])) rfl (fun v _ => hnotin v)
    (fun c hc => Or.inr (h.carried hpar (by simp [hplace]) c hc))
    ⟨?_, List.nodup_cons.mpr ⟨hnotin w, hw.nodup⟩, List.cons_ne_nil t _,
      (fun u hnil => by cases hnil), (fun a k p u hk => by cases hk)⟩ (h.not_idle hup) ?_
  · intro u hu hparu
    rcases List.mem_cons.mp hu with rfl | hu
    · simp [Crew.setJob]
    · have hne : u ≠ t := fun heq => hnotin w (heq ▸ hu)
      simp only [Crew.setJob, Function.update_of_ne hne] at hparu ⊢
      exact hw.owns u hu hparu
  · have hjobs : jobTokens t { s.job t with
        count := countDown (s.job t).count, worker := some w, place := .running }
        = jobTokens t (s.job t) := by
      simp [jobTokens, Job.keeps, hplace, hnone]
    rw [hjobs]
    refine add_le_add ?_ le_rfl
    refine Multiset.le_iff_count.mpr fun tok => ?_
    simp only [workerTokens, Worker.given, hstack, hpc, Pc.handle, Pc.wakes, Pc.resting,
      List.cons_ne_nil, false_and, if_false, Bool.false_eq_true, jobToken_none, Multiset.count_add,
      Multiset.count_zero]
    omega

/-- The worker is done with the task on top. -/
theorem Sound.leave (h : s.Sound) {j : Job} {rest : List TaskId}
    (hstack : (s.worker w).stack = t :: rest) (hpc : (s.worker w).pc ≠ .absent)
    (hup : (s.worker w).pc.resting = false) (hj : j.parallel = (s.job t).parallel)
    (hjpid : j.pid = (s.job t).pid) (hjworker : j.worker = none)
    (hplace : (s.job t).parallel = false → j.place ≠ .flight) (hjok : j.Ok)
    (hpid : x.pid = (s.worker w).pid) (hxstack : x.stack = rest) (hshape : x.Shape)
    (hnone : rest = [] → x.handle = none) (hhandle : x.pc.handle = none)
    (hwakes : x.pc.wakes = none) (hxup : x.pc.resting = false)
    (hslot : x.immediateSuccessor = (s.worker w).immediateSuccessor)
    (hsignaled : x.signaled = (s.worker w).signaled) :
    ((s.setJob t j).setWorker w x).Sound := by
  have hw := h.worker w
  have hnodup := hw.nodup
  rw [hstack, List.nodup_cons] at hnodup
  have htop : t ∈ (s.worker w).stack := by rw [hstack]; exact List.mem_cons_self
  have hborn := h.stackBorn htop
  have hgiven : x.given = none := by
    unfold Worker.given
    split
    · rename_i hcond
      exact hnone (hxstack ▸ hcond.1)
    · rfl
  have hworker : s.workerTokens w x ≤ s.workerTokens w (s.worker w) := by
    refine Multiset.le_iff_count.mpr fun tok => ?_
    simp only [workerTokens, hgiven, hhandle, hwakes, hxup, hup, hslot, hsignaled, jobToken_none,
      wakeToken_none, Multiset.count_add, Multiset.count_zero]
    omega
  have hsends : ∀ {s' : Crew} a k p u, x.pc = .hand a k → k.target s' w = some p →
      k.handle = some u → s'.Fresh u p := by
    intro s' a k p u hk _ hu
    rw [hk] at hhandle
    rw [show k.handle = none from hhandle] at hu
    cases hu
  have hokhandle : ∀ {s' : Crew} u, x.stack = [] → x.handle = some u → s'.Fresh u x.pid := by
    intro s' u hnil hu
    rw [hnone (hxstack ▸ hnil)] at hu
    cases hu
  by_cases hparallel : (s.job t).parallel = true
  · have hid : j.ident = (s.job t).ident := by
      rw [Job.ident, Job.ident, hj, hjpid, hjworker, (h.job t).shared hparallel]
    refine h.setJobWorker hid hborn hjok (h.born hpc) hpid
      ⟨fun u hu => hw.owns u ?_, hxstack ▸ hnodup.2, hshape, hokhandle, hsends⟩
      (h.keeps_of_up hup) ?_
    · rw [hstack]
      exact List.mem_cons_of_mem t (hxstack ▸ hu)
    · refine add_le_add hworker ?_
      simp [jobTokens, hj, hparallel]
  · have hpar := eq_false_of_ne_true hparallel
    have hrunning := h.running hup htop hpar
    refine h.rebind hpar (hj.trans hpar) hborn hjok (h.born hpc) hpid
      (fun v hv => h.notMem_stack hpar ?_)
      (fun c hc => Or.inr (h.carried hpar (by simp [hrunning]) c hc))
      ⟨fun u hu hparu => ?_, hxstack ▸ hnodup.2, hshape, hokhandle, hsends⟩ (h.not_idle hup) ?_
    · rw [hw.owns t htop hpar]
      exact fun heq => hv (Option.some.inj heq).symm
    · rw [hxstack] at hu
      have hne : u ≠ t := fun heq => hnodup.1 (heq ▸ hu)
      simp only [Crew.setJob, Function.update_of_ne hne] at hparu ⊢
      exact hw.owns u (by rw [hstack]; exact List.mem_cons_of_mem t hu) hparu
    · refine add_le_add hworker ?_
      rw [jobTokens_eq hj, jobTokens_eq rfl]
      simp [hplace hpar, hrunning, Job.keeps, hjworker, hj, hpar]

/-! ## Processes -/

/-- A process changes without anybody taking part in it. -/
theorem Sound.setProcess (h : s.Sound) {z : Process} (hok : s.ProcessOk p z)
    (hle : s.processTokens z ≤ s.processTokens (s.process p)) : (s.setProcess p z).Sound := by
  have hself : (s.setProcess p z).process p = z := by simp [Crew.setProcess]
  have hother : ∀ q, q ≠ p → (s.setProcess p z).process q = s.process q := fun q hq => by
    simp [Crew.setProcess, hq]
  refine ⟨distinct_exchange h.distinct ∅ {p} ∅ (fun v _ => rfl) (fun q hq => ?_) (fun u _ => rfl) ?_,
    fun v => (h.worker v).congr (fun _ => rfl) fun _ => rfl, fun q => ?_, h.job, h.noWorker,
    h.noJob⟩
  · rw [hold, hold, hother q (Finset.notMem_singleton.mp hq)]
    rfl
  · simp only [hold, hself, Finset.sum_empty, Finset.sum_singleton, zero_add, add_zero]
    exact hle
  · by_cases hq : q = p
    · subst hq
      rw [hself]
      exact hok.congr (fun _ => rfl) fun _ _ => id
    · rw [hother q hq]
      exact (h.process q).congr (fun _ => rfl) fun _ _ => id

/-- The list of idle threads is popped: the thread is in hand. -/
theorem Sound.popIdle (h : s.Sound) {pc : Pc} {rest : List WorkerId}
    (hlist : (s.process p).idleThreads = v :: rest) (hpc : (s.worker w).pc ≠ .absent)
    (hhandle : pc.handle = (s.worker w).pc.handle) (hempty : (s.worker w).pc.wakes = none)
    (hwakes : pc.wakes = some v) (hresting : pc.resting = (s.worker w).pc.resting)
    (htook : pc.tookHandle = (s.worker w).pc.tookHandle)
    (hok : s.WorkerOk w { s.worker w with pc := pc }) :
    ((s.setProcess p { s.process p with idleThreads := rest }).setPc w pc).Sound := by
  have hp := h.process p
  show ((s.setProcess p { s.process p with idleThreads := rest }).setWorker w
    { s.worker w with pc := pc }).Sound
  refine h.setProcessWorker (h.born hpc) rfl hok (fun _ _ => ⟨rfl, rfl, rfl⟩)
    (fun u hu => Or.inl (hlist ▸ List.mem_cons_of_mem v hu)) hp.queue hp.delegate ?_
  have hprocess : s.processTokens (s.process p)
      = {.wake v} + s.processTokens { s.process p with idleThreads := rest } := by
    rw [← processTokens_push]
    exact processTokens_view (by simp [Process.view, hlist])
  have hgiven : Worker.given { s.worker w with pc := pc } = (s.worker w).given := by
    simp [Worker.given, htook]
  refine Multiset.le_iff_count.mpr fun tok => ?_
  rw [hprocess]
  simp only [workerTokens, hgiven, hhandle, hwakes, hempty, hresting, wakeToken_some,
    wakeToken_none, Multiset.count_add, Multiset.count_zero]
  omega

theorem processTokens_put (z : Process) (e : CreationEvent) :
    s.processTokens { z with threadCreationQueue := (eventQueuePut z.threadCreationQueue e).2 }
      ≤ s.processTokens z + s.jobToken e.handle := by
  by_cases hfull : z.threadCreationQueue.length = z.threadCreationQueue.totalElements
  · have hput : (eventQueuePut z.threadCreationQueue e).2 = z.threadCreationQueue := by
      rw [eventQueuePut, ringBufferPush_full e hfull]
    rw [hput]
    exact Multiset.le_add_right _ _
  · have hroom : z.threadCreationQueue.length < z.threadCreationQueue.totalElements :=
      Nat.lt_of_le_of_ne z.threadCreationQueue.length_le hfull
    have hput : (eventQueuePut z.threadCreationQueue e).2.toList
        = z.threadCreationQueue.toList ++ [e] := (ringBufferPush_room e hroom).2.1
    refine Multiset.le_iff_count.mpr fun tok => ?_
    simp only [processTokens, hput, List.map_append, List.sum_append, List.map_cons, List.map_nil,
      List.sum_cons, List.sum_nil, Multiset.count_add, Multiset.count_zero]
    omega

theorem mem_eventQueuePut {z : Process} {e e' : CreationEvent}
    (he : e' ∈ (eventQueuePut z.threadCreationQueue e).2.toList) :
    e' ∈ z.threadCreationQueue.toList ∨ e' = e := by
  by_cases hfull : z.threadCreationQueue.length = z.threadCreationQueue.totalElements
  · rw [eventQueuePut, ringBufferPush_full e hfull] at he
    exact Or.inl he
  · have hroom : z.threadCreationQueue.length < z.threadCreationQueue.totalElements :=
      Nat.lt_of_le_of_ne z.threadCreationQueue.length_le hfull
    rw [eventQueuePut, (ringBufferPush_room e hroom).2.1, List.mem_append, List.mem_singleton] at he
    exact he

/-- An event is put into the queue of a process; the task that it is about
was in hand. -/
theorem Sound.put (h : s.Sound) {pc : Pc} {e : CreationEvent} (hpc : (s.worker w).pc ≠ .absent)
    (hempty : pc.handle = none) (hhandle : e.handle = (s.worker w).pc.handle)
    (hwakes : pc.wakes = (s.worker w).pc.wakes) (hresting : pc.resting = (s.worker w).pc.resting)
    (htook : pc.tookHandle = (s.worker w).pc.tookHandle)
    (hfresh : ∀ t, e.handle = some t → s.Fresh t p)
    (hok : s.WorkerOk w { s.worker w with pc := pc }) : ((s.putEvent p e).setPc w pc).Sound := by
  have hp := h.process p
  show ((s.setProcess p { s.process p with
      threadCreationQueue := (eventQueuePut (s.process p).threadCreationQueue e).2 }).setWorker w
    { s.worker w with pc := pc }).Sound
  refine h.setProcessWorker (h.born hpc) rfl hok (fun _ _ => ⟨rfl, rfl, rfl⟩)
    (fun u hu => Or.inl hu) (fun e' he' t ht => ?_) hp.delegate ?_
  · rcases mem_eventQueuePut he' with hin | rfl
    · exact hp.queue e' hin t ht
    · exact hfresh t ht
  · have hput := processTokens_put (s := s) (s.process p) e
    have hgiven : Worker.given { s.worker w with pc := pc } = (s.worker w).given := by
      simp [Worker.given, htook]
    refine Multiset.le_iff_count.mpr fun tok => ?_
    have hput := Multiset.count_le_of_le tok hput
    simp only [workerTokens, hgiven, hempty, hwakes, hresting, hhandle, jobToken_none,
      Multiset.count_add, Multiset.count_zero] at hput ⊢
    omega

/-! ## Two threads -/

/-- Worker `w` does something to worker `v`, which it is waking. -/
theorem Sound.setTwo (h : s.Sound) (hne : v ≠ w) (hborn : w < s.workers) (hbornv : v < s.workers)
    (hpid : x.pid = (s.worker w).pid) (hpidv : y.pid = (s.worker v).pid)
    (hok : s.WorkerOk w x) (hokv : s.WorkerOk v y)
    (hidle : ∀ p, w ∈ (s.process p).idleThreads → Keeps (s.worker w) x)
    (hidlev : ∀ p, v ∉ (s.process p).idleThreads)
    (hle : s.workerTokens w x + s.workerTokens v y
      ≤ s.workerTokens w (s.worker w) + s.workerTokens v (s.worker v)) :
    ((s.setWorker v y).setWorker w x).Sound := by
  obtain ⟨s', hs'⟩ : ∃ s', s' = (s.setWorker v y).setWorker w x := ⟨_, rfl⟩
  rw [← hs']
  have hself : s'.worker w = x := by simp [hs', Crew.setWorker]
  have hselfv : s'.worker v = y := by simp [hs', Crew.setWorker, hne]
  have hother : ∀ u, u ≠ w → u ≠ v → s'.worker u = s.worker u := fun u hu huv => by
    simp [hs', Crew.setWorker, hu, huv]
  have hpids : ∀ u, (s'.worker u).pid = (s.worker u).pid := by
    intro u
    by_cases hu : u = w
    · rw [hu, hself, hpid]
    · by_cases huv : u = v
      · rw [huv, hselfv, hpidv]
      · rw [hother u hu huv]
  have hid : ∀ u, (s'.job u).ident = (s.job u).ident := fun u => by rw [hs']; rfl
  have hpar : ∀ u, (s'.job u).parallel = (s.job u).parallel := fun u => parallel_of_ident (hid u)
  have hprocess : s'.process = s.process := by rw [hs']; rfl
  refine ⟨distinct_exchange h.distinct {w, v} ∅ ∅ (fun u hu => ?_) (fun p _ => ?_)
      (fun u _ => ?_) ?_, fun u => ?_, fun p => ?_, fun u => ?_, fun u hu => ?_, fun u hu => ?_⟩
  · simp only [Finset.mem_insert, Finset.mem_singleton, not_or] at hu
    simp only [hold, workerTokens_congr hpar, hother u hu.1 hu.2]
  · simp only [hold, processTokens_congr hpar, hprocess]
  · rw [hs']
    rfl
  · have hpair : w ∉ ({v} : Finset WorkerId) := by simpa using Ne.symm hne
    simpa only [hold, Finset.sum_insert hpair, Finset.sum_singleton, Finset.sum_empty, add_zero,
      hself, hselfv, workerTokens_congr hpar] using hle
  · by_cases hu : u = w
    · rw [hu, hself]
      exact hok.congr hid hpids
    · by_cases huv : u = v
      · rw [huv, hselfv]
        exact hokv.congr hid hpids
      · rw [hother u hu huv]
        exact (h.worker u).congr hid hpids
  · rw [hprocess]
    refine (h.process p).congr hid fun u hu hidleu => ?_
    have huv : u ≠ v := fun heq => hidlev p (heq ▸ hu)
    by_cases huw : u = w
    · subst huw
      obtain ⟨hstack, hhandle, hslot⟩ := hidle p hu
      rw [hself]
      exact ⟨hstack.trans hidleu.stack, hhandle.trans hidleu.handle, hslot.trans hidleu.slot,
        hpid.trans hidleu.pid⟩
    · rw [hother u huw huv]
      exact hidleu
  · rw [hs']
    exact h.job u
  · have hu : s.workers ≤ u := by rw [hs'] at hu; exact hu
    rw [hother u (Nat.ne_of_gt (Nat.lt_of_lt_of_le hborn hu))
      (Nat.ne_of_gt (Nat.lt_of_lt_of_le hbornv hu))]
    exact h.noWorker u hu
  · have hu : s.jobs ≤ u := by rw [hs'] at hu; exact hu
    rw [show s'.job u = s.job u by rw [hs']; rfl]
    exact h.noJob u hu

/-! ## Waking a thread -/

theorem wake_mem_of_hand (hwakes : x.pc.wakes = some v) : Token.wake v ∈ s.workerTokens w x := by
  have := mem_wakeToken.mpr hwakes
  simp [workerTokens, this]

/-- A thread that is being woken rests, unless it wakes itself. -/
theorem Sound.resting_of_wakes (h : s.Sound) (hwakes : (s.worker w).pc.wakes = some v)
    (hne : v ≠ w) : (s.worker v).pc.resting = true := by
  by_contra hup
  have := h.distinct.inj (i := .worker v) (j := .worker w)
    (wake_mem_of_up (eq_false_of_ne_true hup)) (wake_mem_of_hand hwakes)
  exact hne (Part.worker.inj this)

theorem Sound.wakes_not_idle (h : s.Sound) (hwakes : (s.worker w).pc.wakes = some v) (p : Pid) :
    v ∉ (s.process p).idleThreads := by
  intro hv
  have hidle : Token.wake v ∈ s.hold (.process p) := by simp [hold, processTokens, hv]
  cases h.distinct.inj (i := .worker w) (wake_mem_of_hand hwakes) hidle

theorem Sound.wakes_born (h : s.Sound) (hpc : (s.worker w).pc ≠ .absent)
    (hwakes : (s.worker w).pc.wakes = some v) : v < s.workers := by
  by_cases hne : v = w
  · exact hne ▸ h.born hpc
  · refine h.born fun habsent => ?_
    have := h.resting_of_wakes hwakes hne
    rw [habsent] at this
    cases this

/-- A thread that rests does not look at its handle. -/
theorem shape_of_resting (hresting : x.pc.resting = true) (hx : x.Shape) (o : Option TaskId) :
    Worker.Shape { x with handle := o } := by
  unfold Worker.Shape at hx ⊢
  cases hpc : x.pc with
  | hand a k =>
      simp only [hpc] at hx hresting ⊢
      cases k with
      | submitSelf u => cases a <;> cases hresting
      | dispatch u busy =>
          cases busy with
          | true => exact hx
          | false => cases a <;> cases hresting
      | transfer | wakeIdle | give | newCpu | setPid | signal | create | spawn | put => exact hx
  | blocked =>
      simp only [hpc] at hx ⊢
      exact hx
  | absent | starting | loop | hunt | body | attach | killer | closing | unlock | gone =>
      rw [hpc] at hresting
      cases hresting

theorem resting_hand {a : After} {k k' : Hand} (hk : ∀ u, k ≠ .submitSelf u)
    (hk' : ∀ u, k ≠ .dispatch u false) (hl : ∀ u, k' ≠ .submitSelf u)
    (hl' : ∀ u, k' ≠ .dispatch u false) : (Pc.hand a k).resting = (Pc.hand a k').resting := by
  cases a with
  | block =>
      have hrest : ∀ k : Hand, (∀ u, k ≠ .submitSelf u) → (∀ u, k ≠ .dispatch u false) →
          (Pc.hand .block k).resting = true := by
        intro k hk hk'
        cases k with
        | submitSelf u => exact absurd rfl (hk u)
        | dispatch u busy =>
            cases busy with
            | true => rfl
            | false => exact absurd rfl (hk' u)
        | transfer | wakeIdle | give | newCpu | setPid | signal | create | spawn | put => rfl
      rw [hrest k hk hk', hrest k' hl hl']
  | detach | exit | unlock => rfl

theorem tookHandle_hand {a : After} {k : Hand} (hk : ∀ u, k ≠ .dispatch u false) :
    (Pc.hand a k).tookHandle = false := by
  cases a with
  | block =>
      cases k with
      | dispatch u busy =>
          cases busy with
          | true => rfl
          | false => exact absurd rfl (hk u)
      | submitSelf | transfer | wakeIdle | give | newCpu | setPid | signal | create | spawn
      | put => rfl
  | detach | exit | unlock => rfl

theorem given_le : s.jobToken x.given ≤ s.jobToken x.handle := by
  unfold Worker.given
  split
  · exact le_rfl
  · exact Multiset.zero_le _

/-- The worker from the list of idle threads gets its handle. -/
theorem Sound.give (h : s.Sound) {a : After} {o : Option TaskId}
    (hpc : (s.worker w).pc = .hand a (.give v o)) :
    ((s.setWorker v { s.worker v with handle := o }).setPc w (.hand a (.newCpu v))).Sound := by
  have hw := h.worker w
  have hshape := hw.shape
  rw [Worker.Shape, hpc] at hshape
  have habsent : (s.worker w).pc ≠ .absent := by simp [hpc]
  have hwakes : (s.worker w).pc.wakes = some v := by rw [hpc]; rfl
  have hfresh : ∀ t, o = some t → s.Fresh t (s.worker v).pid := fun t ht =>
    hw.sends a (.give v o) _ t hpc rfl ht
  have hsends : ∀ a' k p u, Pc.hand a (.newCpu v) = .hand a' k → k.target s w = some p →
      k.handle = some u → s.Fresh u p := by
    intro a' k p u hk htarget
    cases hk
    cases htarget
  have hrest : (Pc.hand a (.newCpu v)).resting = (Pc.hand a (.give v o)).resting :=
    resting_hand (by simp) (by simp) (by simp) (by simp)
  by_cases hne : v = w
  · subst hne
    have heq : (s.setWorker v { s.worker v with handle := o }).setPc v (.hand a (.newCpu v))
        = s.setWorker v { s.worker v with handle := o, pc := .hand a (.newCpu v) } := by
      simp [Crew.setPc, Crew.setWorker]
    rw [heq]
    refine h.setWorker (h.born habsent) rfl ⟨hw.owns, hw.nodup, hshape, fun t _ ht => hfresh t ht,
      hsends⟩ (fun p hp => absurd hp (h.wakes_not_idle hwakes p)) ?_
    have hgiven := given_le (s := s)
      (x := { s.worker v with handle := o, pc := .hand a (.newCpu v) })
    refine Multiset.le_iff_count.mpr fun tok => ?_
    have hgiven := Multiset.count_le_of_le tok hgiven
    simp only [workerTokens, hpc, hrest, Pc.handle, Hand.handle, Pc.wakes, Hand.wakes, jobToken_none,
      Multiset.count_add, Multiset.count_zero] at hgiven ⊢
    omega
  · have hv := h.worker v
    have heq : (s.setWorker v { s.worker v with handle := o }).setPc w (.hand a (.newCpu v))
        = (s.setWorker v { s.worker v with handle := o }).setWorker w
          { s.worker w with pc := .hand a (.newCpu v) } := by
      simp [Crew.setPc, Crew.setWorker, Ne.symm hne]
    rw [heq]
    refine h.setTwo hne (h.born habsent) (h.wakes_born habsent hwakes) rfl rfl
      ⟨hw.owns, hw.nodup, hshape, hw.handle, hsends⟩
      ⟨hv.owns, hv.nodup, shape_of_resting (h.resting_of_wakes hwakes hne) hv.shape o,
        fun t _ ht => hfresh t ht, hv.sends⟩ (fun _ _ => ⟨rfl, rfl, rfl⟩)
      (h.wakes_not_idle hwakes) ?_
    have hgiven := given_le (s := s) (x := { s.worker v with handle := o })
    have hgivenw : Worker.given { s.worker w with pc := .hand a (.newCpu v) }
        = (s.worker w).given := by
      simp [Worker.given, hpc, tookHandle_hand]
    refine Multiset.le_iff_count.mpr fun tok => ?_
    have hgiven := Multiset.count_le_of_le tok hgiven
    simp only [workerTokens, hgivenw, hpc, hrest, Pc.handle, Hand.handle, Pc.wakes, Hand.wakes,
      jobToken_none, Multiset.count_add, Multiset.count_zero] at hgiven ⊢
    omega

theorem After.pc_hand (a : After) : a.pc.handle = none ∧ a.pc.wakes = none ∧ a.pc.tookHandle = false := by
  cases a <;> exact ⟨rfl, rfl, rfl⟩

theorem resting_after {a : After} {k : Hand} (hk : ∀ u, k ≠ .submitSelf u)
    (hk' : ∀ u, k ≠ .dispatch u false) : a.pc.resting = (Pc.hand a k).resting := by
  have hnew : (Pc.hand a k).resting = (Pc.hand a (.newCpu 0)).resting :=
    resting_hand hk hk' (by simp) (by simp)
  rw [hnew]
  cases a <;> rfl

/-- What becomes of a thread that has handed its CPU over. -/
theorem shape_after {a : After} (hpc : x.pc = a.pc)
    (hx : a = .block → x.stack = [] → x.immediateSuccessor = none) : x.Shape := by
  unfold Worker.Shape
  rw [hpc]
  cases a with
  | block => exact hx rfl
  | detach | exit | unlock => trivial

theorem sends_after {a : After} : ∀ a' k p u, a.pc = .hand a' k → k.target s w = some p →
    k.handle = some u → s.Fresh u p := by
  intro a' k p u hk
  cases a <;> cases hk

/-- The thread is signalled. -/
theorem Sound.signal (h : s.Sound) {a : After} (hpc : (s.worker w).pc = .hand a (.signal v)) :
    ((s.setWorker v { s.worker v with signaled := true }).setPc w a.pc).Sound := by
  have hw := h.worker w
  have hshape := hw.shape
  rw [Worker.Shape, hpc] at hshape
  have habsent : (s.worker w).pc ≠ .absent := by simp [hpc]
  have hwakes : (s.worker w).pc.wakes = some v := by rw [hpc]; rfl
  have hempty : (s.worker w).pc.handle = none := by rw [hpc]; rfl
  obtain ⟨hnohandle, hnowakes, hnotook⟩ := After.pc_hand a
  have hrest : a.pc.resting = (s.worker w).pc.resting := by
    rw [hpc]
    exact resting_after (by simp) (by simp)
  by_cases hne : v = w
  · subst hne
    have heq : (s.setWorker v { s.worker v with signaled := true }).setPc v a.pc
        = s.setWorker v { s.worker v with signaled := true, pc := a.pc } := by
      simp [Crew.setPc, Crew.setWorker]
    rw [heq]
    refine h.setWorker (h.born habsent) rfl ⟨hw.owns, hw.nodup, shape_after rfl hshape, hw.handle,
      sends_after⟩ (fun _ _ => ⟨rfl, rfl, rfl⟩) ?_
    have hgiven : Worker.given { s.worker v with signaled := true, pc := a.pc }
        = (s.worker v).given := by
      simp [Worker.given, hpc, hnotook, tookHandle_hand]
    refine Multiset.le_iff_count.mpr fun tok => ?_
    simp only [workerTokens, hgiven, hrest, hnohandle, hnowakes, hempty, hwakes, jobToken_none,
      wakeToken_none, wakeToken_some, if_true, Multiset.count_add, Multiset.count_zero]
    omega
  · have hv := h.worker v
    have heq : (s.setWorker v { s.worker v with signaled := true }).setPc w a.pc
        = (s.setWorker v { s.worker v with signaled := true }).setWorker w
          { s.worker w with pc := a.pc } := by
      simp [Crew.setPc, Crew.setWorker, Ne.symm hne]
    rw [heq]
    refine h.setTwo hne (h.born habsent) (h.wakes_born habsent hwakes) rfl rfl
      ⟨hw.owns, hw.nodup, shape_after rfl hshape, hw.handle, sends_after⟩
      ⟨hv.owns, hv.nodup, hv.shape, hv.handle, hv.sends⟩ (fun _ _ => ⟨rfl, rfl, rfl⟩)
      (h.wakes_not_idle hwakes) ?_
    have hgivenw : Worker.given { s.worker w with pc := a.pc } = (s.worker w).given := by
      simp [Worker.given, hpc, hnotook, tookHandle_hand]
    have hgiven : Worker.given { s.worker v with signaled := true } = (s.worker v).given := rfl
    refine Multiset.le_iff_count.mpr fun tok => ?_
    simp only [workerTokens, hgivenw, hgiven, hrest, hnohandle, hnowakes, hempty, hwakes,
      jobToken_none, wakeToken_none, wakeToken_some, if_true, Multiset.count_add,
      Multiset.count_zero]
    omega

/-! ## New threads and new tasks -/

theorem absent_of_drop {f g : Part → Multiset Token} {tok : Token} {c : Part} (hf : Distinct f)
    (hmem : tok ∈ f c) (hdrop : g c + {tok} ≤ f c) (hle : ∀ d, g d ≤ f d) : Absent g tok := by
  intro d hd
  have hdf := Multiset.mem_of_le (hle d) hd
  obtain rfl := hf.inj hdf hmem
  have hone : (f d).count tok ≤ 1 := Multiset.nodup_iff_count_le_one.mp (hf.nodup d) tok
  have hsum := Multiset.count_le_of_le tok hdrop
  have hpos : 0 < (g d).count tok := Multiset.count_pos.mpr hd
  simp only [Multiset.count_add, Multiset.count_singleton_self] at hsum
  omega

theorem nodup_jobToken {o : Option TaskId} : (s.jobToken o).Nodup := by
  cases o with
  | none => exact Multiset.nodup_zero
  | some t =>
      rw [jobToken]
      split
      · exact Multiset.nodup_zero
      · exact Multiset.nodup_singleton _

/-- Nobody has the tokens of `o`. -/
def Nowhere (s : Crew) (o : Option TaskId) : Prop := ∀ tok ∈ s.jobToken o, Absent s.hold tok

/-- `worker_create_local`: the new thread has the handle, if nobody else
has it. -/
theorem Sound.addWorker (h : s.Sound) {c : Cpu} {o : Option TaskId}
    (hfresh : ∀ t, o = some t → s.Fresh t p) (hout : s.Nowhere o) :
    (s.workerCreateLocal p c o).Sound := by
  obtain ⟨s', hs'⟩ : ∃ s', s' = s.workerCreateLocal p c o := ⟨_, rfl⟩
  have h₁ : (s.setProcess p { s.process p with threads := s.workers :: (s.process p).threads }).Sound :=
    h.setProcess_view rfl
  have hnew := h.noWorker s.workers (Nat.le_refl _)
  have hup : (s.worker s.workers).pc.resting = false := by rw [hnew.pc]; rfl
  rw [← hs']
  have hself : s'.worker s.workers = newWorker p c o := by
    rw [hs']
    simp [workerCreateLocal, Crew.setWorker]
  have hother : ∀ v, v ≠ s.workers → s'.worker v = s.worker v := fun v hv => by
    rw [hs']
    simp [workerCreateLocal, Crew.setWorker, hv, Crew.setProcess]
  have hworkers : s'.workers = s.workers + 1 := by rw [hs']; rfl
  have hjob : s'.job = s.job := by rw [hs']; rfl
  have hpar : ∀ t, (s'.job t).parallel = (s.job t).parallel := fun t => by rw [hjob]
  refine h₁.renew (w := s.workers) (N := fun _ => False) ?_ (fun u _ => by rw [hjob]; rfl)
    (fun v hv => hother v hv) (by rw [hs']; rfl) (fun _ hN => hN.elim) (fun _ hN => hN.elim)
    (fun _ hN => hN.elim) (fun v a o' hv hgive => ?_) ?_ (fun q => h₁.not_idle hup q)
    (fun _ hN => hN.elim) (fun v hv => ?_) (fun u hu => ?_)
  · -- the handle is the only token that was not there
    refine h.distinct.gain (i := .worker s.workers) (m := s.jobToken o) (fun d hd => ?_) ?_
      nodup_jobToken hout
    · cases d with
      | worker v =>
          have hv : v ≠ s.workers := fun heq => hd (heq ▸ rfl)
          rw [hold, hold, workerTokens_congr hpar, hother v hv]
      | process q =>
          have hview : (s'.process q).view = (s.process q).view := by
            rw [hs']
            by_cases hq : q = p
            · subst hq
              simp [workerCreateLocal, Crew.setWorker, Crew.setProcess, Process.view]
            · simp [workerCreateLocal, Crew.setWorker, Crew.setProcess, hq]
          rw [hold, hold, processTokens_congr hpar, processTokens_view hview]
      | job t => rw [hold, hold, hjob]
    · rw [hold, hold, workerTokens_congr hpar, hself]
      have hold' : s.workerTokens s.workers (s.worker s.workers) = {.wake s.workers} := by
        simp [workerTokens, Worker.given, hnew.slot, hnew.pc, hnew.handle, hnew.signaled, Pc.handle,
          Pc.wakes, Pc.resting]
      have hnew' : s.workerTokens s.workers (newWorker p c o)
          = s.jobToken o + {.wake s.workers} := by
        simp [workerTokens, Worker.given, newWorker, Pc.handle, Pc.wakes, Pc.resting, Pc.tookHandle]
      rw [hold', hnew', add_comm]
  · have := h.resting_of_wakes (w := v) (v := s.workers) (by rw [show (s.worker v).pc = _ from hgive]; rfl)
      (Ne.symm hv)
    rw [hup] at this
    cases this
  · rw [hself]
    refine ⟨(fun u hu => by cases hu), List.nodup_nil, ⟨rfl, fun _ => rfl⟩, fun t _ ht => ?_,
      (fun a k q u hk => by cases hk)⟩
    exact (hfresh t ht).congr (by rw [hjob])
  · rw [hworkers] at hv
    rw [hother v (Nat.ne_of_gt hv)]
    exact h.noWorker v (Nat.le_of_succ_le hv)
  · have hjobs : s'.jobs = s.jobs := by rw [hs']; rfl
    exact ⟨hjobs ▸ hu, id⟩

end Crew

end Nosv
