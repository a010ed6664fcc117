import Nosv.Lib.Places
import Nosv.Threads

/-!
# What only one thread has

The right to execute an ordinary task and the right to wake a thread, as
they are passed around with the CPUs: `hold` says which of them each part
of the state has, and `Sound` that nobody has what somebody else has.

* A task that is not in flight keeps the right to execute it itself. In
  flight, it is in a slot, with a thread that hands it over, in the handle
  that a worker was given, or on its way to a delegate.
* A thread that is not about to block keeps the right to wake it. One that
  blocks in a task leaves it with that task until the task is handed over;
  one that has no task leaves it in the list of idle threads.
-/

namespace Nosv

open Places

inductive Token where
  | job (t : TaskId)
  | wake (w : WorkerId)
  deriving DecidableEq

/-- The parts of the state that hold tokens. -/
inductive Part where
  | worker (w : WorkerId)
  | process (p : Pid)
  | job (t : TaskId)
  deriving DecidableEq

/-! ## What a thread has in hand -/

def Hand.handle : Hand → Option TaskId
  | .submitSelf t | .dispatch t _ => some t
  | .transfer _ h | .wakeIdle _ h | .give _ h | .create h | .spawn h | .put _ h => h
  | .newCpu _ | .setPid _ | .signal _ => none

/-- The thread that is being woken. -/
def Hand.wakes : Hand → Option WorkerId
  | .give v _ | .newCpu v | .setPid v | .signal v => some v
  | .submitSelf _ | .dispatch _ _ | .transfer _ _ | .wakeIdle _ _ | .create _ | .spawn _
  | .put _ _ => none

/-- The process that the task in hand is for, as far as it is known. -/
def Hand.target (s : Crew) (w : WorkerId) : Hand → Option Pid
  | .transfer p _ | .wakeIdle p _ | .put p _ => some p
  | .give v _ => some (s.worker v).pid
  | .create _ | .spawn _ => some (s.worker w).pid
  | .submitSelf _ | .dispatch _ _ | .newCpu _ | .setPid _ | .signal _ => none

def Pc.handle : Pc → Option TaskId
  | .hand _ k => k.handle
  | _ => none

def Pc.wakes : Pc → Option WorkerId
  | .hand _ k => k.wakes
  | _ => none

/-- The thread is blocked, or will be without a step of its own for itself:
somebody else may already wake it. -/
def Pc.resting : Pc → Bool
  | .blocked => true
  | .hand .block k =>
      match k with
      | .submitSelf _ | .dispatch _ false => false
      | _ => true
  | _ => false

/-- The handle has been read and is in the hands of the thread. -/
def Pc.tookHandle : Pc → Bool
  | .hand .block (.dispatch _ false) => true
  | _ => false

/-- The handle that a worker without a task has been given. -/
def Worker.given (x : Worker) : Option TaskId :=
  if x.stack = [] ∧ x.pc.tookHandle = false then x.handle else none

def DelegatePc.handle : DelegatePc → Option TaskId
  | .create _ h | .spawn _ h => h
  | .pull | .gone => none

def CreationEvent.handle : CreationEvent → Option TaskId
  | .creation _ h => h
  | .shutdown => none

/-- The thread that is blocked in a task that does not run. -/
def Job.keeps (j : Job) : Option WorkerId := if j.place = .running then none else j.worker

/-- What the threads know of a task that they hand over. -/
def Job.ident (j : Job) : Bool × Option WorkerId × Pid := (j.parallel, j.worker, j.pid)

namespace Crew

/-! ## Who has what -/

/-- Executions of a parallel task are not counted here. -/
def jobToken (s : Crew) : Option TaskId → Multiset Token
  | none => 0
  | some t => if (s.job t).parallel then 0 else {.job t}

def wakeToken : Option WorkerId → Multiset Token
  | none => 0
  | some v => {.wake v}

def workerTokens (s : Crew) (w : WorkerId) (x : Worker) : Multiset Token :=
  s.jobToken x.immediateSuccessor + s.jobToken x.pc.handle + wakeToken x.pc.wakes
    + s.jobToken x.given + (if x.pc.resting then 0 else {.wake w})
    + (if x.signaled then {.wake w} else 0)

def processTokens (s : Crew) (x : Process) : Multiset Token :=
  (x.idleThreads : Multiset WorkerId).map .wake
    + (x.threadCreationQueue.toList.map fun e => s.jobToken e.handle).sum
    + s.jobToken x.delegate.handle

def jobTokens (t : TaskId) (j : Job) : Multiset Token :=
  if j.parallel then 0 else (if j.place = .flight then 0 else {.job t}) + wakeToken j.keeps

def hold (s : Crew) : Part → Multiset Token
  | .worker w => s.workerTokens w (s.worker w)
  | .process p => s.processTokens (s.process p)
  | .job t => jobTokens t (s.job t)

/-! ## What else holds of each part -/

/-- Task `t` has not been started, and belongs to process `p`. -/
def Fresh (s : Crew) (t : TaskId) (p : Pid) : Prop := (s.job t).worker = none ∧ (s.job t).pid = p

end Crew

/-- What the thread has, at each point of its code. -/
def Worker.Shape (x : Worker) : Prop :=
  match x.pc with
  | .starting | .loop | .hunt => x.stack = [] ∧ (x.handle ≠ none → x.immediateSuccessor = none)
  | .body | .attach | .killer _ => x.stack ≠ []
  | .blocked => x.stack = [] → x.immediateSuccessor = none
  | .hand a k =>
      match k with
      | .submitSelf _ | .dispatch _ true => a = .block ∧ x.stack ≠ []
      | .dispatch t false => a = .block ∧ x.stack = [] ∧ x.immediateSuccessor = none
          ∧ (x.handle = none ∨ x.handle = some t)
      | _ => a = .block → x.stack = [] → x.immediateSuccessor = none
  | .absent | .closing _ | .unlock | .gone => True

/-- A task that is submitted, in flight, running or waits has been
unblocked. -/
structure Job.Ok (j : Job) : Prop where
  count : j.parallel = false → CountTaken j.count ∨ j.count = 1
  unblocked : j.parallel = false →
    j.place = .ready ∨ j.place = .flight ∨ j.place = .running ∨ j.place = .waiting →
    CountTaken j.count
  rest : j.place = .rest ∨ j.place = .dead → j.worker = none
  shared : j.parallel = true → j.worker = none

theorem Job.Ok.down {j : Job} (hj : j.Ok) (hpar : j.parallel = false) (hfits : CountFits j.count) :
    CountTaken (countDown j.count) := by
  rcases hj.count hpar with htaken | hone
  · exact htaken.down hfits
  · rw [hone, countDown_one]
    exact countTaken_zero

namespace Crew

structure WorkerOk (s : Crew) (w : WorkerId) (x : Worker) : Prop where
  owns : ∀ t ∈ x.stack, (s.job t).parallel = false → (s.job t).worker = some w
  nodup : x.stack.Nodup
  shape : x.Shape
  handle : ∀ t, x.stack = [] → x.handle = some t → s.Fresh t x.pid
  sends : ∀ a k p t, x.pc = .hand a k → k.target s w = some p → k.handle = some t → s.Fresh t p

/-- A thread that waits for something to do. -/
structure Idle (x : Worker) (p : Pid) : Prop where
  stack : x.stack = []
  handle : x.handle = none
  slot : x.immediateSuccessor = none
  pid : x.pid = p

structure ProcessOk (s : Crew) (p : Pid) (x : Process) : Prop where
  idle : ∀ v ∈ x.idleThreads, Idle (s.worker v) p
  queue : ∀ e ∈ x.threadCreationQueue.toList, ∀ t, e.handle = some t → s.Fresh t p
  delegate : ∀ t, x.delegate.handle = some t → s.Fresh t p

/-- What no worker has been made of yet. -/
structure NoWorker (x : Worker) : Prop where
  pc : x.pc = .absent
  stack : x.stack = []
  slot : x.immediateSuccessor = none
  handle : x.handle = none
  signaled : x.signaled = false

structure NoJob (j : Job) : Prop where
  parallel : j.parallel = false
  place : j.place = .dead
  worker : j.worker = none
  execs : j.execs = 0

structure Sound (s : Crew) : Prop where
  distinct : Distinct s.hold
  worker : ∀ w, s.WorkerOk w (s.worker w)
  process : ∀ p, s.ProcessOk p (s.process p)
  job : ∀ t, (s.job t).Ok
  noWorker : ∀ w, s.workers ≤ w → NoWorker (s.worker w)
  noJob : ∀ t, s.jobs ≤ t → NoJob (s.job t)

variable {s s' : Crew} {t : TaskId} {w v : WorkerId} {p : Pid} {x y : Worker}

/-! ## What the tokens tell -/

@[simp]
theorem jobToken_none : s.jobToken none = 0 := rfl

@[simp]
theorem wakeToken_none : wakeToken none = 0 := rfl

@[simp]
theorem wakeToken_some : wakeToken (some v) = {.wake v} := rfl

theorem mem_jobToken {h : Option TaskId} :
    Token.job t ∈ s.jobToken h ↔ h = some t ∧ (s.job t).parallel = false := by
  cases h with
  | none => simp [jobToken]
  | some u =>
      rw [jobToken]
      by_cases hpar : (s.job u).parallel = true
      · rw [if_pos hpar]
        refine iff_of_false (Multiset.notMem_zero _) ?_
        rintro ⟨heq, hfalse⟩
        rw [← Option.some.inj heq, hpar] at hfalse
        cases hfalse
      · rw [if_neg hpar, Multiset.mem_singleton, Token.job.injEq, Option.some.injEq]
        exact ⟨fun heq => ⟨heq.symm, heq ▸ eq_false_of_ne_true hpar⟩, fun hand => hand.1.symm⟩

theorem mem_wakeToken {h : Option WorkerId} : Token.wake v ∈ wakeToken h ↔ h = some v := by
  cases h with
  | none => simp [wakeToken]
  | some u => simp [wakeToken, eq_comm]

/-- An ordinary task that somebody has is in flight. -/
theorem Sound.flight (h : s.Sound) {c : Part} (hc : Token.job t ∈ s.hold c) (hne : c ≠ .job t)
    (hpar : (s.job t).parallel = false) : (s.job t).place = .flight := by
  by_contra hplace
  refine hne (h.distinct.inj hc (j := .job t) ?_)
  simp [hold, jobTokens, hpar, hplace]

theorem wake_mem_of_up (hup : x.pc.resting = false) : Token.wake w ∈ s.workerTokens w x := by
  simp [workerTokens, hup]

/-- What a task has, by its place. -/
theorem jobTokens_eq {j : Job} (hj : j.parallel = (s.job t).parallel) :
    jobTokens t j = (if j.place = .flight then 0 else s.jobToken (some t))
      + (if j.parallel then 0 else wakeToken j.keeps) := by
  rw [jobTokens, jobToken, hj]
  by_cases hpar : (s.job t).parallel = true
  · rw [if_pos hpar, if_pos hpar, if_pos hpar, ite_self, add_zero]
  · rw [if_neg hpar, if_neg hpar, if_neg hpar]

/-- Who has not blocked is not in the list of idle threads. -/
theorem Sound.not_idle (h : s.Sound) (hup : (s.worker w).pc.resting = false) (p : Pid) :
    w ∉ (s.process p).idleThreads := by
  intro hw
  have hidle : Token.wake w ∈ s.hold (.process p) := by simp [hold, processTokens, hw]
  cases h.distinct.inj (i := .worker w) (wake_mem_of_up hup) hidle

/-- The task that a thread is in, while it has not blocked, runs. -/
theorem Sound.running (h : s.Sound) (hup : (s.worker w).pc.resting = false)
    (ht : t ∈ (s.worker w).stack) (hpar : (s.job t).parallel = false) :
    (s.job t).place = .running := by
  by_contra hplace
  have hjob : Token.wake w ∈ s.hold (.job t) := by
    simp [hold, jobTokens, hpar, Job.keeps, hplace, (h.worker w).owns t ht hpar, wakeToken]
  cases h.distinct.inj (i := .worker w) (wake_mem_of_up hup) hjob

/-! ## Steps that pass tokens on -/

theorem Sound.keeps_of_up (h : s.Sound) (hup : (s.worker w).pc.resting = false) {P : Prop} (p : Pid)
    (hw : w ∈ (s.process p).idleThreads) : P := absurd hw (h.not_idle hup p)

theorem sum_parts (f : Part → Multiset Token) (W : Finset WorkerId) (P : Finset Pid)
    (T : Finset TaskId) :
    ∑ c ∈ W.image .worker ∪ (P.image .process ∪ T.image .job), f c
      = ∑ w ∈ W, f (.worker w) + (∑ p ∈ P, f (.process p) + ∑ t ∈ T, f (.job t)) := by
  rw [Finset.sum_union, Finset.sum_union, Finset.sum_image, Finset.sum_image, Finset.sum_image]
  · exact fun _ _ _ _ heq => Part.job.inj heq
  · exact fun _ _ _ _ heq => Part.process.inj heq
  · exact fun _ _ _ _ heq => Part.worker.inj heq
  · simp [Finset.disjoint_left]
  · simp only [Finset.disjoint_left, Finset.mem_image, Finset.mem_union]
    rintro c ⟨w, -, rfl⟩ (⟨p, -, heq⟩ | ⟨t, -, heq⟩) <;> cases heq

theorem distinct_exchange (h : Distinct s.hold) (W : Finset WorkerId) (P : Finset Pid)
    (T : Finset TaskId) (hW : ∀ v, v ∉ W → s'.hold (.worker v) = s.hold (.worker v))
    (hP : ∀ p, p ∉ P → s'.hold (.process p) = s.hold (.process p))
    (hT : ∀ t, t ∉ T → s'.hold (.job t) = s.hold (.job t))
    (hle : ∑ w ∈ W, s'.hold (.worker w) + (∑ p ∈ P, s'.hold (.process p) + ∑ t ∈ T, s'.hold (.job t))
      ≤ ∑ w ∈ W, s.hold (.worker w) + (∑ p ∈ P, s.hold (.process p) + ∑ t ∈ T, s.hold (.job t))) :
    Distinct s'.hold := by
  refine h.exchange (S := W.image .worker ∪ (P.image .process ∪ T.image .job)) (fun c hc => ?_) ?_
  · simp only [Finset.mem_union, Finset.mem_image, not_or, not_exists, not_and] at hc
    cases c with
    | worker v => exact hW v fun hv => hc.1 v hv rfl
    | process p => exact hP p fun hp => hc.2.1 p hp rfl
    | job t => exact hT t fun ht => hc.2.2 t ht rfl
  · rw [sum_parts, sum_parts]
    exact hle

/-! ## What does not change -/

theorem parallel_of_ident {j j' : Job} (h : j'.ident = j.ident) : j'.parallel = j.parallel :=
  congrArg Prod.fst h

theorem worker_of_ident {j j' : Job} (h : j'.ident = j.ident) : j'.worker = j.worker :=
  congrArg (fun i => i.2.1) h

theorem pid_of_ident {j j' : Job} (h : j'.ident = j.ident) : j'.pid = j.pid :=
  congrArg (fun i => i.2.2) h

theorem jobToken_congr (hpar : ∀ t, (s'.job t).parallel = (s.job t).parallel) :
    s'.jobToken = s.jobToken := by
  funext h
  cases h with
  | none => rfl
  | some t => rw [jobToken, jobToken, hpar t]

theorem workerTokens_congr (hpar : ∀ t, (s'.job t).parallel = (s.job t).parallel) :
    s'.workerTokens = s.workerTokens := by
  funext w x
  rw [workerTokens, workerTokens, jobToken_congr hpar]

theorem processTokens_congr (hpar : ∀ t, (s'.job t).parallel = (s.job t).parallel) :
    s'.processTokens = s.processTokens := by
  funext x
  rw [processTokens, processTokens, jobToken_congr hpar]

theorem Fresh.congr (h : s.Fresh t p) (hid : (s'.job t).ident = (s.job t).ident) : s'.Fresh t p :=
  ⟨(worker_of_ident hid).trans h.1, (pid_of_ident hid).trans h.2⟩

theorem target_congr (hpid : ∀ v, (s'.worker v).pid = (s.worker v).pid) (k : Hand) :
    k.target s' w = k.target s w := by
  cases k <;> simp [Hand.target, hpid]

theorem WorkerOk.congr (h : s.WorkerOk v x) (hid : ∀ t, (s'.job t).ident = (s.job t).ident)
    (hpid : ∀ v, (s'.worker v).pid = (s.worker v).pid) : s'.WorkerOk v x where
  owns t ht hpar := by
    rw [worker_of_ident (hid t)]
    exact h.owns t ht ((parallel_of_ident (hid t)).symm.trans hpar)
  nodup := h.nodup
  shape := h.shape
  handle t hstack hhandle := (h.handle t hstack hhandle).congr (hid t)
  sends a k p t hpc htarget hhandle :=
    (h.sends a k p t hpc (target_congr hpid k ▸ htarget) hhandle).congr (hid t)

theorem ProcessOk.congr {z : Process} (h : s.ProcessOk p z)
    (hid : ∀ t, (s'.job t).ident = (s.job t).ident)
    (hidle : ∀ v ∈ z.idleThreads, Idle (s.worker v) p → Idle (s'.worker v) p) : s'.ProcessOk p z where
  idle v hv := hidle v hv (h.idle v hv)
  queue e he t ht := (h.queue e he t ht).congr (hid t)
  delegate t ht := (h.delegate t ht).congr (hid t)

/-! ## A step of one thread -/

/-- What a thread that may be idle does not touch. -/
def Keeps (x y : Worker) : Prop :=
  y.stack = x.stack ∧ y.handle = x.handle ∧ y.immediateSuccessor = x.immediateSuccessor

/-- The thread of worker `w` passes on what it has, and no task gets
another worker. `T` are the tasks that change, and `P` the processes. -/
theorem Sound.own (h : s.Sound) {T : Finset TaskId} {P : Finset Pid}
    (hw : s'.worker = Function.update s.worker w x) (hborn : w < s.workers)
    (hpid : x.pid = (s.worker w).pid) (hworkers : s'.workers = s.workers) (hjobs : s'.jobs = s.jobs)
    (hid : ∀ t, (s'.job t).ident = (s.job t).ident) (hT : ∀ t, t ∉ T → s'.job t = s.job t)
    (hTborn : ∀ t ∈ T, t < s.jobs) (hP : ∀ p, p ∉ P → s'.process p = s.process p)
    (hok : s.WorkerOk w x) (hjob : ∀ t ∈ T, (s'.job t).Ok)
    (hidle : ∀ p, w ∈ (s.process p).idleThreads → Keeps (s.worker w) x)
    (hprocess : ∀ p ∈ P, (∀ v p, Idle (s.worker v) p → v ≠ w → Idle (s'.worker v) p) →
      s'.ProcessOk p (s'.process p))
    (hle : s.workerTokens w x
        + (∑ p ∈ P, s.processTokens (s'.process p) + ∑ t ∈ T, jobTokens t (s'.job t))
      ≤ s.workerTokens w (s.worker w)
        + (∑ p ∈ P, s.processTokens (s.process p) + ∑ t ∈ T, jobTokens t (s.job t))) :
    s'.Sound := by
  have hpar : ∀ t, (s'.job t).parallel = (s.job t).parallel := fun t => parallel_of_ident (hid t)
  have hself : s'.worker w = x := by rw [hw, Function.update_self]
  have hother : ∀ v, v ≠ w → s'.worker v = s.worker v := fun v hv => by
    rw [hw, Function.update_of_ne hv]
  have hpids : ∀ v, (s'.worker v).pid = (s.worker v).pid := by
    intro v
    by_cases hv : v = w
    · rw [hv, hself, hpid]
    · rw [hother v hv]
  refine ⟨distinct_exchange h.distinct {w} P T (fun v hv => ?_) (fun p hp => ?_) (fun t ht => ?_) ?_,
    fun v => ?_, fun p => ?_, fun t => ?_, fun v hv => ?_, fun t ht => ?_⟩
  · simp only [hold, workerTokens_congr hpar, hother v (Finset.notMem_singleton.mp hv)]
  · simp only [hold, processTokens_congr hpar, hP p hp]
  · simp only [hold, hT t ht]
  · simpa only [hold, Finset.sum_singleton, hself, workerTokens_congr hpar,
      processTokens_congr hpar] using hle
  · by_cases hv : v = w
    · rw [hv, hself]
      exact hok.congr hid hpids
    · rw [hother v hv]
      exact (h.worker v).congr hid hpids
  · by_cases hp : p ∈ P
    · exact hprocess p hp fun v p hidle hv => hother v hv ▸ hidle
    · rw [hP p hp]
      refine (h.process p).congr hid fun v hv hidlev => ?_
      by_cases hvw : v = w
      · -- a thread in the list only goes on with what it does last
        subst hvw
        obtain ⟨hstack, hhandle, hslot⟩ := hidle p hv
        rw [hself]
        exact ⟨hstack.trans hidlev.stack, hhandle.trans hidlev.handle, hslot.trans hidlev.slot,
          hpid.trans hidlev.pid⟩
      · rw [hother v hvw]
        exact hidlev
  · by_cases ht : t ∈ T
    · exact hjob t ht
    · rw [hT t ht]
      exact h.job t
  · rw [hworkers] at hv
    rw [hother v (Nat.ne_of_gt (Nat.lt_of_lt_of_le hborn hv))]
    exact h.noWorker v hv
  · rw [hjobs] at ht
    rw [hT t fun hin => absurd (hTborn t hin) (Nat.not_lt.mpr ht)]
    exact h.noJob t ht

theorem ident_setJob {j : Job} (hj : j.ident = (s.job t).ident) (u : TaskId) :
    ((s.setJob t j).job u).ident = (s.job u).ident := by
  by_cases hu : u = t
  · subst hu
    simpa [setJob] using hj
  · simp [setJob, hu]

theorem Sound.setWorker (h : s.Sound) (hborn : w < s.workers) (hpid : x.pid = (s.worker w).pid)
    (hok : s.WorkerOk w x) (hidle : ∀ p, w ∈ (s.process p).idleThreads → Keeps (s.worker w) x)
    (hle : s.workerTokens w x ≤ s.workerTokens w (s.worker w)) : (s.setWorker w x).Sound := by
  refine h.own (T := ∅) (P := ∅) rfl hborn hpid rfl rfl (fun _ => rfl) (fun _ _ => rfl) (by simp)
    (fun _ _ => rfl) hok (by simp) hidle (by simp) ?_
  simpa using hle

/-- A task changes, and keeps its worker; nobody takes part in it. -/
theorem Sound.setJob (h : s.Sound) {j : Job} (hj : j.ident = (s.job t).ident) (hborn : t < s.jobs)
    (hok : j.Ok) (hle : jobTokens t j ≤ jobTokens t (s.job t)) : (s.setJob t j).Sound := by
  have hid := ident_setJob hj
  have hpar : ∀ u, ((s.setJob t j).job u).parallel = (s.job u).parallel := fun u =>
    parallel_of_ident (hid u)
  have hother : ∀ u, u ≠ t → (s.setJob t j).job u = s.job u := fun u hu => by simp [Crew.setJob, hu]
  have hself : (s.setJob t j).job t = j := by simp [Crew.setJob]
  refine ⟨distinct_exchange h.distinct ∅ ∅ {t} (fun v _ => ?_) (fun p _ => ?_) (fun u hu => ?_) ?_,
    fun v => (h.worker v).congr hid fun _ => rfl, fun p => (h.process p).congr hid fun _ _ => id,
    fun u => ?_, h.noWorker, fun u hu => ?_⟩
  · rw [hold, hold, workerTokens_congr hpar]
    rfl
  · rw [hold, hold, processTokens_congr hpar]
    rfl
  · rw [hold, hold, hother u (Finset.notMem_singleton.mp hu)]
  · simpa [hold, hself] using hle
  · by_cases hu : u = t
    · rw [hu, hself]
      exact hok
    · rw [hother u hu]
      exact h.job u
  · rw [hother u (Nat.ne_of_gt (Nat.lt_of_lt_of_le hborn hu))]
    exact h.noJob u hu

theorem Sound.setJobWorker (h : s.Sound) {j : Job} (hj : j.ident = (s.job t).ident)
    (hjborn : t < s.jobs) (hjok : j.Ok) (hborn : w < s.workers) (hpid : x.pid = (s.worker w).pid)
    (hok : s.WorkerOk w x) (hidle : ∀ p, w ∈ (s.process p).idleThreads → Keeps (s.worker w) x)
    (hle : s.workerTokens w x + jobTokens t j
      ≤ s.workerTokens w (s.worker w) + jobTokens t (s.job t)) :
    ((s.setJob t j).setWorker w x).Sound := by
  refine h.own (T := {t}) (P := ∅) rfl hborn hpid rfl rfl (ident_setJob hj) (fun u hu => ?_)
    (fun u hu => ?_) (fun _ _ => rfl) hok (fun u hu => ?_) hidle (by simp) ?_
  · simp [Crew.setJob, Crew.setWorker, Finset.notMem_singleton.mp hu]
  · rwa [Finset.mem_singleton.mp hu]
  · rw [Finset.mem_singleton.mp hu]
    simpa [Crew.setJob, Crew.setWorker] using hjok
  · simpa [Crew.setJob, Crew.setWorker] using hle

/-- What the thread has for a process, or takes from it. -/
theorem Sound.setProcessWorker (h : s.Sound) {z : Process} (hborn : w < s.workers)
    (hpid : x.pid = (s.worker w).pid) (hok : s.WorkerOk w x)
    (hidle : ∀ p, w ∈ (s.process p).idleThreads → Keeps (s.worker w) x)
    (hidlez : ∀ v ∈ z.idleThreads, v ∈ (s.process p).idleThreads ∨ (v = w ∧ Idle x p))
    (hqueue : ∀ e ∈ z.threadCreationQueue.toList, ∀ t, e.handle = some t → s.Fresh t p)
    (hdelegate : ∀ t, z.delegate.handle = some t → s.Fresh t p)
    (hle : s.workerTokens w x + s.processTokens z
      ≤ s.workerTokens w (s.worker w) + s.processTokens (s.process p)) :
    ((s.setProcess p z).setWorker w x).Sound := by
  refine h.own (T := ∅) (P := {p}) rfl hborn hpid rfl rfl (fun _ => rfl) (fun _ _ => rfl) (by simp)
    (fun q hq => ?_) hok (by simp) hidle (fun q hq hothers => ?_) ?_
  · simp [setProcess, Crew.setWorker, Finset.notMem_singleton.mp hq]
  · obtain rfl := Finset.mem_singleton.mp hq
    have hself : ((s.setProcess q z).setWorker w x).process q = z := by
      simp [setProcess, Crew.setWorker]
    rw [hself]
    refine ⟨fun v hv => ?_, fun e he t ht => (hqueue e he t ht).congr rfl,
      fun t ht => (hdelegate t ht).congr rfl⟩
    rcases hidlez v hv with hin | ⟨rfl, hidlex⟩
    · have hidlev := (h.process q).idle v hin
      by_cases hvw : v = w
      · subst hvw
        obtain ⟨hstack, hhandle, hslot⟩ := hidle q hin
        simp only [Crew.setWorker, Function.update_self]
        exact ⟨hstack.trans hidlev.stack, hhandle.trans hidlev.handle, hslot.trans hidlev.slot,
          hpid.trans hidlev.pid⟩
      · exact hothers v q hidlev hvw
    · simpa [Crew.setWorker] using hidlex
  · simpa [setProcess, Crew.setWorker] using hle

end Crew

end Nosv
