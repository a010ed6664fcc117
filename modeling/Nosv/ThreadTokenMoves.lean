import Nosv.Lib.Run
import Nosv.ThreadTokenHands

/-!
# The moves of the runtime keep the tokens apart

One lemma for each kind of `CrewMove`, and from them `sound_step`; every
state of a run is `Sound`.
-/

namespace Nosv

open Places

/-- A task that is about to be unblocked is neither in flight nor running. -/
theorem Job.Ok.blocked {j : Job} (hj : j.Ok) (hpar : j.parallel = false)
    (hcount : countDown j.count = 0) :
    j.place ≠ .ready ∧ j.place ≠ .flight ∧ j.place ≠ .running ∧ j.place ≠ .waiting := by
  have hun := hj.unblocked hpar
  exact ⟨fun hp => (hun (Or.inl hp)).down_ne hcount,
    fun hp => (hun (Or.inr (Or.inl hp))).down_ne hcount,
    fun hp => (hun (Or.inr (Or.inr (Or.inl hp)))).down_ne hcount,
    fun hp => (hun (Or.inr (Or.inr (Or.inr hp)))).down_ne hcount⟩

namespace Crew

variable {s s' : Crew} {t u : TaskId} {w v : WorkerId} {p : Pid} {x y : Worker} {j : Job} {cpus : Nat}
  {hcpus : 0 < cpus}

/-! ## Submission -/

/-- One unblocking, which is not the last one that is needed -/
theorem Sound.decCount (h : s.Sound) (hborn : t < s.jobs)
    (hfits : (s.job t).parallel = false → CountFits (s.job t).count) :
    (s.setJob t { s.job t with count := countDown (s.job t).count }).Sound := by
  have hj := h.job t
  exact h.setJob rfl hborn ⟨fun hpar => Or.inl (hj.down hpar (hfits hpar)),
    fun hpar _ => hj.down hpar (hfits hpar), hj.rest, hj.shared⟩
    (le_of_eq (jobTokens_stay rfl Iff.rfl Iff.rfl))

theorem Sound.nosvSubmit (h : s.Sound) (hsub : s.Submittable t)
    (hfits : (s.job t).parallel = false → CountFits (s.job t).count) (n : Nat) :
    (s.nosvSubmit t n).Sound := by
  obtain ⟨hborn, hdead⟩ := hsub
  have hj := h.job t
  rw [Crew.nosvSubmit]
  dsimp only
  split
  case isFalse => exact h.decCount hborn hfits
  case isTrue hcount =>
    split
    case isTrue hpar =>
      refine h.setJob rfl hborn ⟨fun hord => ?_, fun hord _ => ?_, hj.rest, hj.shared⟩
        (le_of_eq (jobTokens_stay rfl Iff.rfl Iff.rfl))
      · exact absurd (hpar.symm.trans hord) (by decide)
      · exact absurd (hpar.symm.trans hord) (by decide)
    case isFalse hpar =>
      have hord : (s.job t).parallel = false := eq_false_of_ne_true hpar
      obtain ⟨-, hflight, hrun, -⟩ := hj.blocked hord hcount
      have hdown := hj.down hord (hfits hord)
      exact h.setJob rfl hborn ⟨fun _ => Or.inl hdown, fun _ _ => hdown, by simp, hj.shared⟩
        (le_of_eq (jobTokens_stay rfl (iff_of_false (by simp) hflight) (iff_of_false (by simp) hrun)))

/-- A task that waits becomes ready. -/
theorem Sound.resume (h : s.Sound) (hpar : (s.job t).parallel = false) (hplace : (s.job t).place = .waiting) :
    (s.schedulerSubmit t).Sound := by
  have hj := h.job t
  refine h.setJob rfl (h.jobBorn (by simp [hplace])) ⟨hj.count, fun _ _ => ?_, by simp, hj.shared⟩
    (le_of_eq (jobTokens_stay rfl (by simp [hplace]) (by simp [hplace])))
  exact hj.unblocked hpar (by simp [hplace])

/-! ## The slot of a worker -/

theorem shape_slot (hpc : x.pc = .body ∨ (x.pc = .loop ∧ x.handle = none)) (hx : x.Shape)
    (o : Option TaskId) : Worker.Shape { x with immediateSuccessor := o } := by
  unfold Worker.Shape at hx ⊢
  rcases hpc with hpc | ⟨hpc, hnone⟩
  · simp only [hpc] at hx ⊢
    exact hx
  · simp only [hpc] at hx ⊢
    exact ⟨hx.1, fun hne => absurd hnone hne⟩

/-- The task that was in the slot goes to the scheduler, and another one
into the slot. -/
theorem Sound.submitImmediate (h : s.Sound) (hborn : t < s.jobs)
    (huser : s.InUserCode w) (hpar : (s.job t).parallel = false)
    (hcount : countDown (s.job t).count = 0) :
    (((match (s.worker w).immediateSuccessor with
        | some u => s.schedulerSubmit u
        | none => s).setJob t { s.job t with count := countDown (s.job t).count, place := .flight }).setWorker w
      { s.worker w with immediateSuccessor := some t }).Sound := by
  have hw := h.worker w
  have hj := h.job t
  have hpc : (s.worker w).pc ≠ .absent := by
    rcases huser with hpc | ⟨hpc, -⟩ <;> simp [hpc]
  have hup : (s.worker w).pc.resting = false := by
    rcases huser with hpc | ⟨hpc, -⟩ <;> rw [hpc] <;> rfl
  have hok : ∀ o, s.WorkerOk w { s.worker w with immediateSuccessor := o } := fun o =>
    ⟨hw.owns, hw.nodup, shape_slot huser hw.shape o, hw.handle, hw.sends⟩
  obtain ⟨hready, hflight, hrun, -⟩ := hj.blocked hpar hcount
  have htaken : CountTaken (countDown (s.job t).count) := by
    rw [hcount]
    exact countTaken_zero
  have hjok : Job.Ok { s.job t with count := countDown (s.job t).count, place := .flight } :=
    ⟨fun _ => Or.inl htaken, fun _ _ => htaken, by simp, hj.shared⟩
  cases hslot : (s.worker w).immediateSuccessor with
  | none =>
      exact h.fillSlot rfl hborn hjok (jobTokens_takeOff rfl rfl hflight hrun) hslot hpc hup (hok _)
  | some u =>
      have hne : t ≠ u := by
        rintro rfl
        exact hflight (h.flight_of_mem hslot slot_le hpar)
      have h₁ := h.dropSlot hslot hpc (hok none)
      obtain ⟨s₁, hs₁⟩ : ∃ s₁, s₁ = (s.schedulerSubmit u).setWorker w
          { s.worker w with immediateSuccessor := none } := ⟨_, rfl⟩
      rw [← hs₁] at h₁
      have hworker : s₁.worker w = { s.worker w with immediateSuccessor := none } := by
        rw [hs₁]
        simp [Crew.setWorker]
      have hjob : s₁.job t = s.job t := by
        rw [hs₁]
        simp [Crew.setWorker, schedulerSubmit, Crew.setJob, hne]
      have hid : ∀ t, (s₁.job t).ident = (s.job t).ident := fun t => by
        rw [hs₁]
        exact ident_setJob (t := u) (j := { s.job u with place := .ready }) rfl t
      have hpids : ∀ v, (s₁.worker v).pid = (s.worker v).pid := fun v => by
        rw [hs₁]
        by_cases hv : v = w
        · subst hv
          simp [Crew.setWorker]
        · simp [Crew.setWorker, hv, schedulerSubmit, Crew.setJob]
      have h₂ := h₁.fillSlot (t := t) (w := w)
        (j := { s.job t with count := countDown (s.job t).count, place := .flight }) (by rw [hjob]; rfl)
        (by rw [hs₁]; exact hborn) hjok
        (jobTokens_takeOff (by rw [hjob]; rfl) rfl (by rw [hjob]; exact hflight) (by rw [hjob]; exact hrun))
        (by rw [hworker]) (by rw [hworker]; exact hpc) (by rw [hworker]; exact hup)
        (by rw [hworker]; exact (hok (some t)).congr hid hpids)
      have heq : (s₁.setJob t { s.job t with count := countDown (s.job t).count, place := .flight }).setWorker w
            { s₁.worker w with immediateSuccessor := some t }
          = ((s.schedulerSubmit u).setJob t
              { s.job t with count := countDown (s.job t).count, place := .flight }).setWorker w
            { s.worker w with immediateSuccessor := some t } := by
        rw [hworker, hs₁]
        simp [Crew.setWorker, Crew.setJob, schedulerSubmit]
      rw [heq] at h₂
      exact h₂

/-! ## Tasks for a worker that looks for one -/

/-- What `scheduler_get` has done when it returned task `t` -/
structure Got (s : Crew) (t : TaskId) (j : Job) : Prop where
  ident : j.ident = (s.job t).ident
  born : t < s.jobs
  ok : j.Ok
  tokens : jobTokens t j + s.jobToken (some t) = jobTokens t (s.job t)
  place : (s.job t).parallel = false → (s.job t).place = .ready ∧ j.place = .flight

theorem Sound.get_cases (h : s.Sound) (hget : s.schedulerGet t = some s') :
    ∃ j, s' = s.setJob t j ∧ s.Got t j := by
  have hj := h.job t
  rw [schedulerGet] at hget
  split at hget
  case isTrue hpar =>
    obtain ⟨hexecs, heq⟩ := Option.ite_none_right_eq_some.mp hget
    refine ⟨_, (Option.some.inj heq).symm, rfl, ?_, ⟨hj.count, hj.unblocked, hj.rest, hj.shared⟩, ?_, ?_⟩
    · by_contra hle
      have := (h.noJob t (Nat.le_of_not_lt hle)).execs
      omega
    · simp [jobTokens, jobToken, hpar]
    · exact fun hord => absurd (hpar.symm.trans hord) (by decide)
  case isFalse hpar =>
    have hord : (s.job t).parallel = false := eq_false_of_ne_true hpar
    obtain ⟨hready, heq⟩ := Option.ite_none_right_eq_some.mp hget
    refine ⟨_, (Option.some.inj heq).symm, rfl, h.jobBorn (by simp [hready]),
      ⟨hj.count, fun _ _ => hj.unblocked hord (Or.inl hready), by simp, hj.shared⟩,
      jobTokens_takeOff rfl rfl (by simp [hready]) (by simp [hready]), fun _ => ⟨hready, rfl⟩⟩

/-- The thread gets a task that the scheduler has returned. -/
theorem Sound.getTask (h : s.Sound) {pc : Pc} (hgot : s.Got t j) (hpc : (s.worker w).pc ≠ .absent)
    (hup : (s.worker w).pc.resting = false) (hempty : (s.worker w).pc.handle = none)
    (hhandle : pc.handle = some t) (hwakes : pc.wakes = (s.worker w).pc.wakes) (hresting : pc.resting = false)
    (hgiven : Worker.given { s.worker w with pc := pc } = (s.worker w).given)
    (hshape : Worker.Shape { s.worker w with pc := pc })
    (hsends : ∀ a k p t, pc = .hand a k → k.target s w = some p → k.handle = some t → s.Fresh t p) :
    ((s.setJob t j).setPc w pc).Sound := by
  have hw := h.worker w
  exact h.getHand hgot.ident hgot.born hgot.ok hgot.tokens hpc hup hempty hhandle hwakes hresting hgiven
    ⟨hw.owns, hw.nodup, hshape, hw.handle, hsends⟩

theorem given_pc (hne : x.stack ≠ []) (pc : Pc) : Worker.given { x with pc := pc } = x.given := by
  rw [given_of_stack hne]
  exact given_of_stack hne

theorem sends_dispatch {b : Bool} : ∀ a k p u, Pc.hand .block (.dispatch t b) = .hand a k →
    k.target s w = some p → k.handle = some u → s.Fresh u p := by
  intro a k p u heq htarget
  cases heq
  cases htarget

theorem sends_submitSelf : ∀ a k p u, Pc.hand .block (.submitSelf t) = .hand a k →
    k.target s w = some p → k.handle = some u → s.Fresh u p := by
  intro a k p u heq htarget
  cases heq
  cases htarget

/-- A worker that looks for a task, with an empty slot -/
theorem Sound.getHungry (h : s.Sound) (hhungry : s.Hungry w) (hslot : (s.worker w).immediateSuccessor = none)
    (hgot : s.Got t j) : ((s.setJob t j).setPc w (.hand .block (.dispatch t false))).Sound := by
  obtain ⟨hpc, hnone⟩ := hhungry
  have hshape := (h.worker w).shape
  rw [Worker.Shape, hpc] at hshape
  refine h.getTask hgot (by simp [hpc]) (by rw [hpc]; rfl) (by rw [hpc]; rfl) rfl (by rw [hpc]; rfl) rfl ?_
    ⟨rfl, hshape.1, hslot, Or.inl hnone⟩ sends_dispatch
  simp [Worker.given, Pc.tookHandle, hnone]

/-- The immediate successor of a worker that looks for a task -/
theorem Sound.immediateHungry (h : s.Sound) (hhungry : s.Hungry w)
    (hslot : (s.worker w).immediateSuccessor = some u) :
    (s.setWorker w { s.worker w with
      immediateSuccessor := none, pc := .hand .block (.dispatch u false) }).Sound := by
  have hw := h.worker w
  obtain ⟨hpc, hnone⟩ := hhungry
  have hshape := hw.shape
  rw [Worker.Shape, hpc] at hshape
  refine h.takeSlot hslot (by simp [hpc]) (by rw [hpc]; rfl) rfl (by rw [hpc]; rfl) (by rw [hpc]; rfl) ?_
    ⟨hw.owns, hw.nodup, ⟨rfl, hshape.1, rfl, Or.inl hnone⟩, hw.handle, sends_dispatch⟩
  simp [Worker.given, Pc.tookHandle, hnone]

/-- The quantum is over, and the scheduler has another task. -/
theorem Sound.replaceHungry (h : s.Sound) (hhungry : s.Hungry w)
    (hslot : (s.worker w).immediateSuccessor = some u) (hord : (s.job u).parallel = false)
    (hget : s.schedulerGet t = some s') :
    ((s'.schedulerSubmit u).setWorker w { s.worker w with
      immediateSuccessor := none, pc := .hand .block (.dispatch t false) }).Sound := by
  have hw := h.worker w
  obtain ⟨j, rfl, hgot⟩ := h.get_cases hget
  obtain ⟨hpc, hnone⟩ := hhungry
  have hshape := hw.shape
  rw [Worker.Shape, hpc] at hshape
  have hok : s.WorkerOk w { s.worker w with immediateSuccessor := none } := by
    refine ⟨hw.owns, hw.nodup, ?_, hw.handle, hw.sends⟩
    simp only [Worker.Shape, hpc]
    exact ⟨hshape.1, fun _ => trivial⟩
  have h₁ := h.dropSlot hslot (by simp [hpc]) hok
  obtain ⟨s₁, hs₁⟩ : ∃ s₁, s₁ = (s.schedulerSubmit u).setWorker w
      { s.worker w with immediateSuccessor := none } := ⟨_, rfl⟩
  rw [← hs₁] at h₁
  have hworker : s₁.worker w = { s.worker w with immediateSuccessor := none } := by
    rw [hs₁]
    simp [Crew.setWorker]
  have hne : t ≠ u := by
    rintro rfl
    have hflight := h.flight_of_mem hslot slot_le hord
    rw [(hgot.place hord).1] at hflight
    cases hflight
  have hjob : s₁.job t = s.job t := by
    rw [hs₁]
    simp [Crew.setWorker, schedulerSubmit, Crew.setJob, hne]
  have hpar : ∀ t, (s₁.job t).parallel = (s.job t).parallel := fun v => by
    rw [hs₁]
    exact parallel_of_ident (ident_setJob (t := u) (j := { s.job u with place := .ready }) rfl v)
  have hgot₁ : s₁.Got t j := by
    refine ⟨by rw [hjob]; exact hgot.ident, by rw [hs₁]; exact hgot.born, hgot.ok, ?_, ?_⟩
    · rw [hjob, jobToken_congr hpar]
      exact hgot.tokens
    · rw [hjob]
      exact hgot.place
  have h₂ := h₁.getHungry (w := w) ⟨by rw [hworker]; exact hpc, by rw [hworker]; exact hnone⟩ (by rw [hworker])
    hgot₁
  have heq : (s₁.setJob t j).setPc w (.hand .block (.dispatch t false))
      = ((s.setJob t j).schedulerSubmit u).setWorker w { s.worker w with
          immediateSuccessor := none, pc := .hand .block (.dispatch t false) } := by
    have hu : (s.setJob t j).job u = s.job u := by simp [Crew.setJob, hne.symm]
    rw [Crew.setPc, schedulerSubmit, hu]
    simp only [Crew.setJob]
    rw [hworker, hs₁]
    simp only [Crew.setWorker, Crew.setJob, schedulerSubmit, Function.update_idem]
    rw [Function.update_comm hne]
  rw [heq] at h₂
  exact h₂

/-! ## A task gives way -/

theorem current_cases (hcur : s.current w = some t) :
    ∃ rest, (s.worker w).stack = t :: rest ∧ (s.worker w).pc = .body ∧ (s.job t).parallel = false := by
  rw [current] at hcur
  split at hcur
  case h_1 u rest hstack =>
    obtain ⟨hcond, heq⟩ := Option.ite_none_right_eq_some.mp hcur
    obtain rfl := Option.some.inj heq
    exact ⟨rest, hstack, hcond.1, hcond.2⟩
  case h_2 => cases hcur

/-- The task of the thread is where it waits, and the thread gives its CPU
to its immediate successor, or to an idle thread. -/
theorem Sound.workerYield (h : s.Sound) (hcur : s.current w = some t) (hj : j.ident = (s.job t).ident)
    (hjok : j.Ok) (hplace : j.place ≠ .flight) : ((s.setJob t j).workerYield w).Sound := by
  obtain ⟨rest, hstack, hpc, hord⟩ := current_cases hcur
  have hw := h.worker w
  have ht : t ∈ (s.worker w).stack := by rw [hstack]; exact List.mem_cons_self
  have hne : (s.worker w).stack ≠ [] := List.ne_nil_of_mem ht
  have hup : (s.worker w).pc.resting = false := by rw [hpc]; rfl
  cases hslot : (s.worker w).immediateSuccessor with
  | none =>
      have hyield : (s.setJob t j).workerYield w = (s.setJob t j).setWorker w
          { s.worker w with pc := .hand .block (.wakeIdle (s.worker w).pid none) } := by
        rw [Crew.workerYield]
        dsimp only
        rw [show ((s.setJob t j).worker w).immediateSuccessor = none from hslot]
        rfl
      rw [hyield]
      refine h.block (by simp [hpc]) hup ht hj hjok hplace rfl
        ⟨hw.owns, hw.nodup, fun _ hnil => absurd hnil hne, hw.handle, fun a k p u heq _ hu => ?_⟩
        ⟨rfl, rfl, rfl⟩ (by rw [hpc]; rfl) (by rw [hpc]; rfl) rfl rfl
      cases heq
      cases hu
  | some u =>
      have hyield : (s.setJob t j).workerYield w = (s.setJob t j).setWorker w
          { s.worker w with immediateSuccessor := none, pc := .hand .block (.dispatch u true) } := by
        rw [Crew.workerYield]
        dsimp only
        rw [show ((s.setJob t j).worker w).immediateSuccessor = some u from hslot]
        rfl
      have h₁ : ((s.setJob t j).setWorker w { s.worker w with pc := .blocked }).Sound :=
        h.block (by simp [hpc]) hup ht hj hjok hplace rfl
          ⟨hw.owns, hw.nodup, fun hnil => absurd hnil hne, hw.handle, fun a k p u heq => by cases heq⟩
          ⟨rfl, rfl, rfl⟩ (by rw [hpc]; rfl) (by rw [hpc]; rfl) rfl rfl
      obtain ⟨s₁, hs₁⟩ : ∃ s₁, s₁ = (s.setJob t j).setWorker w { s.worker w with pc := .blocked } := ⟨_, rfl⟩
      rw [← hs₁] at h₁
      have hworker : s₁.worker w = { s.worker w with pc := .blocked } := by
        rw [hs₁]
        simp [Crew.setWorker]
      have hw₁ := h₁.worker w
      rw [hworker] at hw₁
      have h₂ := @Sound.takeSlot _ u w h₁ (.hand .block (.dispatch u true)) (by rw [hworker]; exact hslot)
        (by rw [hworker]; simp) (by rw [hworker]; rfl) rfl (by rw [hworker]; rfl) (by rw [hworker]; rfl)
        (by rw [hworker]; exact given_pc (x := { s.worker w with pc := .blocked }) hne _)
        (by rw [hworker]; exact ⟨hw₁.owns, hw₁.nodup, ⟨rfl, hne⟩, hw₁.handle, sends_dispatch⟩)
      have heq : s₁.setWorker w { s₁.worker w with
            immediateSuccessor := none, pc := .hand .block (.dispatch u true) }
          = (s.setJob t j).workerYield w := by
        rw [hworker, hs₁, hyield]
        simp [Crew.setWorker]
      rw [heq] at h₂
      exact h₂

/-- The task of the thread may be put where others find it. -/
theorem Sound.currentOk (h : s.Sound) (hcur : s.current w = some t) (place : JobPlace)
    (hplace : place ≠ .rest ∧ place ≠ .dead) :
    Job.Ok { s.job t with place := place } ∧ CountTaken (s.job t).count ∧ (s.job t).place = .running := by
  obtain ⟨rest, hstack, hpc, hord⟩ := current_cases hcur
  have ht : t ∈ (s.worker w).stack := by rw [hstack]; exact List.mem_cons_self
  have hrun := h.running (by rw [hpc]; rfl) ht hord
  have hj := h.job t
  have hcount := hj.unblocked hord (Or.inr (Or.inr (Or.inl hrun)))
  exact ⟨⟨hj.count, fun _ _ => hcount, fun hp => (hp.elim hplace.1 hplace.2).elim, hj.shared⟩, hcount, hrun⟩

theorem Sound.pause (h : s.Sound) (hcur : s.current w = some t) :
    (if 0 < countUp (s.job t).count then
      (s.setJob t { s.job t with count := countUp (s.job t).count, place := .paused }).workerYield w
    else s.setJob t { s.job t with count := countUp (s.job t).count }).Sound := by
  obtain ⟨rest, hstack, -, hord⟩ := current_cases hcur
  obtain ⟨-, hcount, hrun⟩ := h.currentOk hcur .paused ⟨by simp, by simp⟩
  have hj := h.job t
  split
  · exact h.workerYield hcur rfl ⟨fun _ => hcount.up_cases, by simp, by simp, hj.shared⟩ (by simp)
  · rename_i hgoes
    have hup := hcount.up_taken (Int.not_lt.mp hgoes)
    exact h.setJob rfl (h.stackBorn (w := w) (by rw [hstack]; exact List.mem_cons_self))
      ⟨fun _ => Or.inl hup, fun _ _ => hup, hj.rest, hj.shared⟩ (le_of_eq (jobTokens_stay rfl Iff.rfl Iff.rfl))

/-- The thread hands its CPU to its immediate successor, and the task that
it is in is submitted first. -/
theorem Sound.yieldSlot (h : s.Sound) (hcur : s.current w = some t)
    (hslot : (s.worker w).immediateSuccessor = some u) :
    (s.setWorker w { s.worker w with
      immediateSuccessor := none, pc := .hand .block (.submitSelf u) }).Sound := by
  obtain ⟨rest, hstack, hpc, hord⟩ := current_cases hcur
  have hw := h.worker w
  have hne : (s.worker w).stack ≠ [] := by simp [hstack]
  exact h.takeSlot hslot (by simp [hpc]) (by rw [hpc]; rfl) rfl (by rw [hpc]; rfl) (by rw [hpc]; rfl)
    (given_pc hne _)
    ⟨hw.owns, hw.nodup, ⟨rfl, hne⟩, hw.handle, sends_submitSelf⟩

/-- The thread hands its CPU to a task that it got from elsewhere. -/
theorem Sound.yieldTo (h : s.Sound) (hcur : s.current w = some t) (hgot : s.Got u j) :
    ((s.setJob u j).setPc w (.hand .block (.submitSelf u))).Sound := by
  obtain ⟨rest, hstack, hpc, hord⟩ := current_cases hcur
  have hne : (s.worker w).stack ≠ [] := by simp [hstack]
  exact h.getTask hgot (by simp [hpc]) (by rw [hpc]; rfl) (by rw [hpc]; rfl) rfl (by rw [hpc]; rfl) rfl
    (given_pc hne _) ⟨rfl, hne⟩ sends_submitSelf

/-- The next owner of a mutex -/
theorem Sound.got_waiting (h : s.Sound) (hord : (s.job t).parallel = false)
    (hplace : (s.job t).place = .waiting) :
    t < s.jobs ∧ Job.Ok { s.job t with place := .flight }
      ∧ jobTokens t { s.job t with place := .flight } + s.jobToken (some t) = jobTokens t (s.job t) := by
  have hj := h.job t
  refine ⟨h.jobBorn (by simp [hplace]), ⟨hj.count, fun _ _ => ?_, by simp, hj.shared⟩, ?_⟩
  · exact hj.unblocked hord (Or.inr (Or.inr (Or.inr hplace)))
  · exact jobTokens_takeOff rfl rfl (by simp [hplace]) (by simp [hplace])

theorem Sound.unlockYield (h : s.Sound) (hcur : s.current w = some t) (hord : (s.job u).parallel = false)
    (hplace : (s.job u).place = .waiting) :
    ((s.setJob u { s.job u with place := .flight }).setPc w (.hand .block (.submitSelf u))).Sound := by
  obtain ⟨rest, hstack, hpc, -⟩ := current_cases hcur
  have hw := h.worker w
  have hne : (s.worker w).stack ≠ [] := by simp [hstack]
  obtain ⟨hborn, hok, htokens⟩ := h.got_waiting hord hplace
  exact h.getHand rfl hborn hok htokens (by simp [hpc]) (by rw [hpc]; rfl) (by rw [hpc]; rfl) rfl
    (by rw [hpc]; rfl) rfl (given_pc hne _) ⟨hw.owns, hw.nodup, ⟨rfl, hne⟩, hw.handle, sends_submitSelf⟩

/-! ## A task ends -/

theorem taskEnds_ident (j : Job) (e : Ending) :
    (taskEnds j e).parallel = j.parallel ∧ (taskEnds j e).pid = j.pid ∧ (taskEnds j e).worker = none := by
  unfold taskEnds
  dsimp only
  split
  · exact ⟨rfl, rfl, rfl⟩
  · cases e <;> exact ⟨rfl, rfl, rfl⟩

theorem taskEnds_ordinary (hpar : j.parallel = false) (e : Ending) : taskEnds j e = match e with
    | .ends => { j with worker := none, count := 1, place := .rest }
    | .pauses => { j with
        worker := none, count := countUp j.count, place := if countUp j.count ≤ 0 then .ready else .paused }
    | .resubmits => { j with worker := none, place := .ready }
    | .sleeps => { j with worker := none, place := .waiting } := by
  unfold taskEnds
  dsimp only
  refine (if_neg (by simp [hpar])).trans ?_
  cases e <;> rfl

theorem taskEnds_ok {e : Ending} (hj : j.Ok) (hrun : j.parallel = false → j.place = .running) :
    (taskEnds j e).Ok ∧ (j.parallel = false → (taskEnds j e).place ≠ .flight) := by
  obtain ⟨hpar', -, hworker⟩ := taskEnds_ident j e
  by_cases hpar : j.parallel = true
  · refine ⟨⟨fun hord => ?_, fun hord => ?_, fun _ => hworker, fun _ => hworker⟩, fun hord => ?_⟩
    · exact absurd (hpar.symm.trans (hpar'.symm.trans hord)) (by decide)
    · exact absurd (hpar.symm.trans (hpar'.symm.trans hord)) (by decide)
    · exact absurd (hpar.symm.trans hord) (by decide)
  · have hord := eq_false_of_ne_true hpar
    have hcount := hj.unblocked hord (Or.inr (Or.inr (Or.inl (hrun hord))))
    refine ⟨⟨fun _ => ?_, fun _ hplace => ?_, fun _ => hworker, fun _ => hworker⟩, fun _ => ?_⟩
    · rw [taskEnds_ordinary hord]
      cases e with
      | ends => exact Or.inr rfl
      | pauses => exact hcount.up_cases
      | resubmits | sleeps => exact Or.inl hcount
    · rw [taskEnds_ordinary hord] at hplace ⊢
      cases e with
      | ends => simp at hplace
      | pauses =>
          refine hcount.up_taken ?_
          by_contra hpos
          rw [if_neg hpos] at hplace
          simp at hplace
      | resubmits | sleeps => exact hcount
    · rw [taskEnds_ordinary hord]
      cases e with
      | pauses =>
          dsimp only
          split <;> simp
      | ends | resubmits | sleeps => simp

theorem ending_cases {e : Ending} {rest : List TaskId} (hend : s.ending w e = some (t, rest)) :
    (s.worker w).stack = t :: rest
      ∧ ((s.worker w).pc = .body ∨ (s.worker w).pc = .killer .done) := by
  rw [ending] at hend
  split at hend
  case h_1 u rest' hstack =>
    obtain ⟨hcond, heq⟩ := Option.ite_none_right_eq_some.mp hend
    cases heq
    exact ⟨hstack, hcond.1.imp_right And.left⟩
  case h_2 => cases hend

theorem Sound.endBody (h : s.Sound) {e : Ending} {rest : List TaskId}
    (hend : s.ending w e = some (t, rest)) :
    ((s.setJob t (taskEnds (s.job t) e)).setWorker w { s.worker w with
      stack := rest, handle := rest.head?, pc := if rest = [] then .loop else .body }).Sound := by
  obtain ⟨hstack, hpc⟩ := ending_cases hend
  have hup : (s.worker w).pc.resting = false := by
    rcases hpc with hpc | hpc <;> rw [hpc] <;> rfl
  have ht : t ∈ (s.worker w).stack := by rw [hstack]; exact List.mem_cons_self
  obtain ⟨hpar, hpid, hworker⟩ := taskEnds_ident (s.job t) e
  obtain ⟨hok, hplace⟩ := taskEnds_ok (e := e) (h.job t) (h.running hup ht)
  refine h.leave hstack (by rcases hpc with hpc | hpc <;> simp [hpc]) hup hpar hpid hworker hplace hok rfl rfl ?_
    (fun hnil => by rw [hnil]; rfl) ?_ ?_ ?_ rfl rfl
  · unfold Worker.Shape
    by_cases hnil : rest = []
    · simp [hnil]
    · simp [hnil]
  · dsimp only
    split <;> rfl
  · dsimp only
    split <;> rfl
  · dsimp only
    split <;> rfl

/-- `nosv_detach`, when there is no immediate successor -/
theorem Sound.detach (h : s.Sound) (hstack : (s.worker w).stack = [t]) (hpc : (s.worker w).pc = .body) :
    ((s.setJob t { s.job t with worker := none, place := .dead }).setWorker w
      { s.worker w with
        stack := [], handle := none, pc := .hand .detach (.wakeIdle (s.worker w).pid none) }).Sound := by
  have hj := h.job t
  refine h.leave hstack (by simp [hpc]) (by rw [hpc]; rfl) rfl rfl rfl (fun _ => by simp)
    ⟨hj.count, by simp, fun _ => rfl, fun _ => rfl⟩ rfl rfl (fun heq => by cases heq) (fun _ => rfl) rfl rfl rfl rfl
    rfl

/-! ## New tasks, threads and processes -/

/-- What is known of the next task -/
theorem Sound.nextJob (h : s.Sound) :
    NoJob (s.job s.jobs) ∧ (∀ v, s.jobs ∉ (s.worker v).stack)
      ∧ ∀ c, Token.job s.jobs ∈ s.hold c → c = .job s.jobs := by
  have hno := h.noJob s.jobs (Nat.le_refl _)
  exact ⟨hno, fun v hin => absurd (h.stackBorn hin) (Nat.lt_irrefl _),
    h.carried hno.parallel (by simp [hno.place])⟩

theorem jobToken_le (hpar : ∀ t, (s.job t).parallel = true → (s'.job t).parallel = true) (o : Option TaskId) :
    s'.jobToken o ≤ s.jobToken o := by
  cases o with
  | none => exact le_rfl
  | some t =>
      rw [jobToken, jobToken]
      by_cases hp : (s.job t).parallel = true
      · rw [if_pos hp, if_pos (hpar t hp)]
      · rw [if_neg hp]
        split
        · exact Multiset.zero_le _
        · exact le_rfl

/-- A task that becomes parallel takes tokens away. -/
theorem workerTokens_le (hpar : ∀ t, (s.job t).parallel = true → (s'.job t).parallel = true) (w : WorkerId)
    (x : Worker) : s'.workerTokens w x ≤ s.workerTokens w x := by
  have hslot := jobToken_le hpar x.immediateSuccessor
  have hhand := jobToken_le hpar x.pc.handle
  have hgiven := jobToken_le hpar x.given
  exact add_le_add (add_le_add (add_le_add (add_le_add (add_le_add hslot hhand) le_rfl) hgiven) le_rfl) le_rfl

theorem processTokens_le (hpar : ∀ t, (s.job t).parallel = true → (s'.job t).parallel = true) (z : Process) :
    s'.processTokens z ≤ s.processTokens z := by
  refine add_le_add (add_le_add le_rfl ?_) (jobToken_le hpar _)
  exact List.sum_le_sum fun e _ => jobToken_le hpar e.handle

theorem Sound.create (h : s.Sound) (p : Pid) (parallel : Bool) :
    Sound { s.setJob s.jobs ⟨p, parallel, none, 1, .rest, 0⟩ with jobs := s.jobs + 1 } := by
  obtain ⟨s', hs'⟩ : ∃ s' : Crew,
      s' = { s.setJob s.jobs ⟨p, parallel, none, 1, .rest, 0⟩ with jobs := s.jobs + 1 } := ⟨_, rfl⟩
  rw [← hs']
  obtain ⟨hno, hstacks, hcarried⟩ := h.nextJob
  have hnew := h.noWorker s.workers (Nat.le_refl _)
  have hup : (s.worker s.workers).pc.resting = false := by rw [hnew.pc]; rfl
  have hself : s'.job s.jobs = ⟨p, parallel, none, 1, .rest, 0⟩ := by
    rw [hs']
    simp [Crew.setJob]
  have hother : ∀ u, u ≠ s.jobs → s'.job u = s.job u := fun u hu => by
    rw [hs']
    simp [Crew.setJob, hu]
  have hworker : s'.worker = s.worker := by rw [hs']; rfl
  have hprocess : s'.process = s.process := by rw [hs']; rfl
  have hpar : ∀ t, (s.job t).parallel = true → (s'.job t).parallel = true := fun t ht => by
    by_cases hu : t = s.jobs
    · rw [hu, hno.parallel] at ht
      cases ht
    · rwa [hother t hu]
  refine h.renew (w := s.workers) (N := fun u => u = s.jobs) ?_ hother (fun v _ => by rw [hworker]) hprocess
    (fun u hu => hu ▸ hno.parallel) (fun u hu v _ => hu ▸ hstacks v) (fun u hu c hc => Or.inr ?_)
    (fun _ _ _ _ _ => by rw [hworker]) ?_ (h.not_idle hup) (fun u hu => ?_) (fun v hv => ?_) (fun u hu => ?_)
  · refine h.distinct.mono fun c => ?_
    cases c with
    | worker v =>
        rw [hold, hold, hworker]
        exact workerTokens_le hpar v _
    | process q =>
        rw [hold, hold, hprocess]
        exact processTokens_le hpar _
    | job u =>
        by_cases hu : u = s.jobs
        · rw [hu, hold, hold, hself]
          cases parallel <;> simp [jobTokens, hno.parallel, hno.place, hno.worker, Job.keeps]
        · rw [hold, hold, hother u hu]
  · rw [show u = s.jobs from hu] at hc ⊢
    exact hcarried c hc
  · rw [hworker]
    refine ⟨fun u hu => ?_, by rw [hnew.stack]; exact List.nodup_nil, ?_, fun u _ hu => ?_, fun a k q u hk => ?_⟩
    · rw [hnew.stack] at hu
      cases hu
    · rw [Worker.Shape, hnew.pc]
      trivial
    · rw [hnew.handle] at hu
      cases hu
    · rw [hnew.pc] at hk
      cases hk
  · rw [show u = s.jobs from hu, hself]
    exact ⟨fun _ => Or.inr rfl, by simp, fun _ => rfl, fun _ => rfl⟩
  · rw [hworker]
    rw [hs'] at hv
    exact h.noWorker v hv
  · have hu : s.jobs + 1 ≤ u := by rw [hs'] at hu; exact hu
    exact ⟨Nat.le_of_succ_le hu, Nat.ne_of_gt hu⟩

/-- `nosv_attach`: a thread with its task -/
theorem Sound.attach (h : s.Sound) (p : Pid) :
    Sound { (s.setJob s.jobs ⟨p, false, some s.workers, 0, .running, 0⟩).setWorker s.workers
      ⟨p, true, .attach, none, none, false, some s.jobs, none, [s.jobs]⟩ with
      jobs := s.jobs + 1, workers := s.workers + 1 } := by
  obtain ⟨s', hs'⟩ : ∃ s' : Crew, s' = { (s.setJob s.jobs ⟨p, false, some s.workers, 0, .running, 0⟩).setWorker
      s.workers ⟨p, true, .attach, none, none, false, some s.jobs, none, [s.jobs]⟩ with
      jobs := s.jobs + 1, workers := s.workers + 1 } := ⟨_, rfl⟩
  rw [← hs']
  obtain ⟨hno, hstacks, hcarried⟩ := h.nextJob
  have hnew := h.noWorker s.workers (Nat.le_refl _)
  have hup : (s.worker s.workers).pc.resting = false := by rw [hnew.pc]; rfl
  have hself : s'.job s.jobs = ⟨p, false, some s.workers, 0, .running, 0⟩ := by
    rw [hs']
    simp [Crew.setJob, Crew.setWorker]
  have hother : ∀ u, u ≠ s.jobs → s'.job u = s.job u := fun u hu => by
    rw [hs']
    simp [Crew.setJob, Crew.setWorker, hu]
  have hselfw : s'.worker s.workers = ⟨p, true, .attach, none, none, false, some s.jobs, none, [s.jobs]⟩ := by
    rw [hs']
    simp [Crew.setWorker]
  have hotherw : ∀ v, v ≠ s.workers → s'.worker v = s.worker v := fun v hv => by
    rw [hs']
    simp [Crew.setJob, Crew.setWorker, hv]
  have hprocess : s'.process = s.process := by rw [hs']; rfl
  have hpar : ∀ t, (s'.job t).parallel = (s.job t).parallel := fun t => by
    by_cases hu : t = s.jobs
    · rw [hu, hself, hno.parallel]
    · rw [hother t hu]
  refine h.renew (w := s.workers) (N := fun u => u = s.jobs) ?_ hother hotherw hprocess
    (fun u hu => hu ▸ hno.parallel) (fun u hu v _ => hu ▸ hstacks v) (fun u hu c hc => Or.inr ?_)
    (fun v a o hv hgive => ?_) ?_ (h.not_idle hup) (fun u hu => ?_) (fun v hv => ?_) (fun u hu => ?_)
  · refine h.distinct.mono fun c => ?_
    cases c with
    | worker v =>
        rw [hold, hold, workerTokens_congr hpar]
        by_cases hv : v = s.workers
        · rw [hv, hselfw]
          simp [workerTokens, Worker.given, hnew.slot, hnew.pc, hnew.handle, hnew.signaled, Pc.handle,
            Pc.wakes, Pc.resting]
        · rw [hotherw v hv]
    | process q => rw [hold, hold, processTokens_congr hpar, hprocess]
    | job u =>
        by_cases hu : u = s.jobs
        · rw [hu, hold, hold, hself]
          simp [jobTokens, hno.parallel, hno.place, hno.worker, Job.keeps]
        · rw [hold, hold, hother u hu]
  · rw [show u = s.jobs from hu] at hc ⊢
    exact hcarried c hc
  · have hrest := h.resting_of_wakes (w := v) (v := s.workers)
      (by rw [show (s.worker v).pc = _ from hgive]; rfl) (Ne.symm hv)
    rw [hup] at hrest
    cases hrest
  · rw [hselfw]
    refine ⟨fun u hu _ => ?_, List.nodup_singleton _, List.cons_ne_nil _ _, (fun u hnil => by cases hnil),
      (fun a k q u hk => by cases hk)⟩
    rw [List.mem_singleton.mp hu, hself]
  · rw [show u = s.jobs from hu, hself]
    exact ⟨fun _ => Or.inl countTaken_zero, fun _ _ => countTaken_zero, by simp, by simp⟩
  · have hv : s.workers + 1 ≤ v := by rw [hs'] at hv; exact hv
    rw [hotherw v (Nat.ne_of_gt hv)]
    exact h.noWorker v (Nat.le_of_succ_le hv)
  · have hu : s.jobs + 1 ≤ u := by rw [hs'] at hu; exact hu
    exact ⟨Nat.le_of_succ_le hu, Nat.ne_of_gt hu⟩

theorem Sound.register (h : s.Sound) (p : Pid) : (s.setProcess p (newProcess cpus hcpus)).Sound := by
  have hempty : (newProcess cpus hcpus).threadCreationQueue.toList = [] := rfl
  refine h.setProcess ⟨fun v hv => absurd hv List.not_mem_nil, fun e he => ?_, fun t ht => by cases ht⟩ ?_
  · rw [hempty] at he
    exact absurd he List.not_mem_nil
  · have hzero : s.processTokens (newProcess cpus hcpus) = 0 := by
      rw [processTokens, hempty]
      rfl
    rw [hzero]
    exact Multiset.zero_le _

theorem Sound.mainStep (h : s.Sound) (hstep : s.mainStep cpus p = some s') : s'.Sound := by
  rw [Crew.mainStep] at hstep
  dsimp only at hstep
  split at hstep
  · split at hstep
    · obtain rfl := Option.some.inj hstep
      exact (h.cpuSetPid _ _).setProcess_view rfl
    · obtain rfl := Option.some.inj hstep
      exact Sound.setLock (h.setProcess_view (p := p) (z := { s.process p with main := .up }) rfl) none
  · obtain rfl := Option.some.inj hstep
    have h₁ : (s.incCreated p).Sound := h.setProcess_view rfl
    exact h₁.setProcess_view rfl
  · obtain rfl := Option.some.inj hstep
    exact (h.addWorker (o := none) (fun t ht => by cases ht) fun tok htok => absurd htok (Multiset.notMem_zero _)
      ).setProcess_view rfl
  · cases hstep
  · cases hstep

/-- The delegate takes an event out of its queue. -/
theorem Sound.pull (h : s.Sound) {e : CreationEvent} {queue : EventQueue} {d : DelegatePc}
    (hpull : eventQueuePull (s.process p).threadCreationQueue = some (e, queue))
    (hempty : (s.process p).delegate.handle = none) (hd : d.handle = e.handle) :
    (s.setProcess p { s.process p with threadCreationQueue := queue, delegate := d }).Sound := by
  have hp := h.process p
  have hlist : (s.process p).threadCreationQueue.toList = e :: queue.toList := by
    rw [eventQueuePull] at hpull
    cases hqueue : (s.process p).threadCreationQueue.toList with
    | nil =>
        rw [ringBufferPull_nil hqueue] at hpull
        cases hpull
    | cons e' rest =>
        obtain ⟨hpulled, hrest, -⟩ := ringBufferPull_cons hqueue
        split at hpull
        case h_1 => cases hpull
        case h_2 heq =>
          cases hpull
          rw [heq] at hpulled hrest
          rw [← Option.some.inj hpulled, ← hrest]
  refine h.setProcess ⟨hp.idle, fun e' he' => ?_, fun t ht => ?_⟩ ?_
  · exact hp.queue e' (by rw [hlist]; exact List.mem_cons_of_mem e he')
  · exact hp.queue e (by rw [hlist]; exact List.mem_cons_self) t (hd ▸ ht)
  · refine Multiset.le_iff_count.mpr fun tok => ?_
    simp only [processTokens, hlist, hempty, hd, jobToken_none, List.map_cons, List.sum_cons, Multiset.count_add,
      Multiset.count_zero]
    omega

theorem Sound.delegateStep (h : s.Sound) (hstep : s.delegateStep p = some s') : s'.Sound := by
  rw [Crew.delegateStep] at hstep
  dsimp only at hstep
  split at hstep
  case h_1 hpc =>
    have hempty : (s.process p).delegate.handle = none := by rw [hpc]; rfl
    split at hstep
    · rename_i hpull
      obtain rfl := Option.some.inj hstep
      exact h.pull hpull hempty rfl
    · rename_i hpull
      obtain rfl := Option.some.inj hstep
      exact h.pull hpull hempty rfl
    · cases hstep
  case h_2 hpc =>
    obtain rfl := Option.some.inj hstep
    have h₁ : (s.incCreated p).Sound := h.setProcess_view rfl
    refine h₁.setProcess_view ?_
    simp [Process.view, incCreated, Crew.setProcess, hpc, DelegatePc.handle]
  case h_3 c o hpc =>
    obtain rfl := Option.some.inj hstep
    have hp := h.process p
    have hhandle : (s.process p).delegate.handle = o := by rw [hpc]; rfl
    have htokens : s.processTokens { s.process p with delegate := .pull } + s.jobToken o
        = s.processTokens (s.process p) := by
      rw [processTokens, processTokens, hhandle, DelegatePc.handle, jobToken_none, add_zero]
    obtain ⟨s₁, hs₁⟩ : ∃ s₁, s₁ = s.setProcess p { s.process p with delegate := .pull } := ⟨_, rfl⟩
    have hself : s₁.process p = { s.process p with delegate := .pull } := by
      rw [hs₁]
      simp [Crew.setProcess]
    have h₁ : s₁.Sound := by
      rw [hs₁]
      refine h.setProcess ⟨hp.idle, hp.queue, fun t ht => by cases ht⟩ ?_
      rw [← htokens]
      exact Multiset.le_add_right _ _
    have hhold : s₁.hold (.process p) = s.processTokens { s.process p with delegate := .pull } := by
      rw [hold, hself, hs₁]
      rfl
    have hout : s₁.Nowhere o := fun tok htok => by
      have htok : tok ∈ s.jobToken o := by rw [hs₁] at htok; exact htok
      refine absent_of_drop (c := .process p) h.distinct ?_ ?_ fun d => ?_
      · rw [hold, ← htokens]
        exact Multiset.mem_add.mpr (Or.inr htok)
      · rw [hhold, hold, ← htokens]
        exact add_le_add le_rfl (Multiset.singleton_le.mpr htok)
      · cases d with
        | worker v => rw [hs₁]; exact le_rfl
        | process q =>
            by_cases hq : q = p
            · rw [hq, hhold, hold, ← htokens]
              exact Multiset.le_add_right _ _
            · rw [hs₁]
              simp only [hold, Crew.setProcess, Function.update_of_ne hq]
              exact le_rfl
        | job u => rw [hs₁]; exact le_rfl
    have hadd := h₁.addWorker (p := p) (c := c) (o := o)
      (fun t ht => (hp.delegate t (hhandle.trans ht)).congr (by rw [hs₁]; rfl)) hout
    have hcomm : (s.workerCreateLocal p c o).setProcess p
          { (s.workerCreateLocal p c o).process p with delegate := .pull }
        = s₁.workerCreateLocal p c o := by
      rw [hs₁]
      simp [workerCreateLocal, Crew.setProcess, Crew.setWorker]
    exact hcomm ▸ hadd
  case h_4 => cases hstep

/-! ## Runs -/

/-- Only ordinary tasks are in slots. -/
def OrdinarySlots (s : Crew) : Prop :=
  ∀ w t, (s.worker w).immediateSuccessor = some t → (s.job t).parallel = false

/-- Every move keeps the tokens apart. -/
theorem sound_step (h : s.Sound) (hslots : s.OrdinarySlots) {m : CrewMove} (hfits : s.Fitting m)
    (hstep : s.step cpus hcpus m = some s') : s'.Sound := by
  cases m with
  | create p parallel =>
      obtain rfl := Option.some.inj hstep
      exact h.create p parallel
  | submit t n =>
      obtain ⟨hsub, heq⟩ := Option.ite_none_right_eq_some.mp hstep
      obtain rfl := Option.some.inj heq
      exact h.nosvSubmit hsub hfits n
  | submitImmediate w t =>
      obtain ⟨⟨hsub, huser, hpar⟩, heq⟩ := Option.ite_none_right_eq_some.mp hstep
      split at heq
      case isTrue hcount =>
        obtain rfl := Option.some.inj heq
        exact h.submitImmediate hsub.1 huser hpar hcount
      case isFalse =>
        obtain rfl := Option.some.inj heq
        exact h.decCount hsub.1 hfits
  | submitInline w t =>
      obtain ⟨⟨hsub, hpc, hpar, hplace⟩, heq⟩ := Option.ite_none_right_eq_some.mp hstep
      obtain rfl := Option.some.inj heq
      exact h.executeInline hpc hsub.1 hpar hplace (hfits hpar)
  | resume t =>
      obtain ⟨⟨hpar, hplace⟩, heq⟩ := Option.ite_none_right_eq_some.mp hstep
      obtain rfl := Option.some.inj heq
      exact h.resume hpar hplace
  | get w t =>
      obtain ⟨⟨hhungry, hslot⟩, heq⟩ := Option.ite_none_right_eq_some.mp hstep
      cases t with
      | some t =>
          obtain ⟨s₁, hget, rfl⟩ := Option.map_eq_some_iff.mp heq
          obtain ⟨j, rfl, hgot⟩ := h.get_cases hget
          exact h.getHungry hhungry hslot hgot
      | none =>
          obtain rfl := Option.some.inj heq
          obtain ⟨hpc, -⟩ := hhungry
          have hshape := (h.worker w).shape
          rw [Worker.Shape, hpc] at hshape
          exact h.goAlone (by simp [hpc]) (hpc ▸ ⟨rfl, rfl, rfl, rfl⟩) ⟨rfl, rfl, rfl, rfl⟩ hshape
  | immediate w t =>
      obtain ⟨hhungry, heq⟩ := Option.ite_none_right_eq_some.mp hstep
      split at heq
      case h_1 u hslot =>
        obtain rfl := Option.some.inj heq
        exact h.immediateHungry hhungry hslot
      case h_2 u t hslot =>
        obtain ⟨s₁, hget, rfl⟩ := Option.map_eq_some_iff.mp heq
        obtain ⟨j, rfl, -⟩ := h.get_cases hget
        exact h.replaceHungry hhungry hslot (hslots w u hslot) hget
      case h_3 => cases heq
  | pause w =>
      obtain ⟨t, hcur, rfl⟩ := Option.map_eq_some_iff.mp hstep
      exact h.pause hcur
  | waitfor w =>
      obtain ⟨t, hcur, rfl⟩ := Option.map_eq_some_iff.mp hstep
      exact h.workerYield hcur rfl (h.currentOk hcur .ready ⟨by simp, by simp⟩).1 (by simp)
  | wait w =>
      obtain ⟨t, hcur, rfl⟩ := Option.map_eq_some_iff.mp hstep
      exact h.workerYield hcur rfl (h.currentOk hcur .waiting ⟨by simp, by simp⟩).1 (by simp)
  | yield w t =>
      obtain ⟨r, hcur, heq⟩ := Option.bind_eq_some_iff.mp hstep
      split at heq
      case h_1 u hslot =>
        obtain rfl := Option.some.inj heq
        exact h.yieldSlot hcur hslot
      case h_2 t hslot =>
        obtain ⟨s₁, hget, rfl⟩ := Option.map_eq_some_iff.mp heq
        obtain ⟨j, rfl, hgot⟩ := h.get_cases hget
        exact h.yieldTo hcur hgot
      case h_3 => cases heq
  | unlockYield w t =>
      obtain ⟨r, hcur, heq⟩ := Option.bind_eq_some_iff.mp hstep
      obtain ⟨⟨hpar, hplace⟩, heq⟩ := Option.ite_none_right_eq_some.mp heq
      obtain rfl := Option.some.inj heq
      exact h.unlockYield hcur hpar hplace
  | endBody w e =>
      obtain ⟨⟨t, rest⟩, hend, rfl⟩ := Option.map_eq_some_iff.mp hstep
      exact h.endBody hend
  | attach p =>
      obtain ⟨-, heq⟩ := Option.ite_none_right_eq_some.mp hstep
      obtain rfl := Option.some.inj heq
      exact h.attach p
  | detach w =>
      rw [step] at hstep
      dsimp only at hstep
      split at hstep
      case h_2 => cases hstep
      case h_1 t hstack =>
        obtain ⟨⟨hpc, -⟩, heq⟩ := Option.ite_none_right_eq_some.mp hstep
        split at heq
        case h_1 u hslot =>
          obtain rfl := Option.some.inj heq
          have hw := h.worker w
          exact h.dropSlot hslot (by simp [hpc])
            ⟨hw.owns, hw.nodup, shape_slot (Or.inl hpc) hw.shape none, hw.handle, hw.sends⟩
        case h_2 =>
          obtain rfl := Option.some.inj heq
          exact h.detach hstack hpc
  | unregister w =>
      obtain ⟨⟨hpc, -, -⟩, heq⟩ := Option.ite_none_right_eq_some.mp hstep
      obtain rfl := Option.some.inj heq
      have hshape := (h.worker w).shape
      rw [Worker.Shape, hpc] at hshape
      exact h.processAlone rfl (by simp [hpc]) (hpc ▸ ⟨rfl, rfl, rfl, rfl⟩) (alone_killer _) hshape
  | register p =>
      obtain ⟨-, heq⟩ := Option.ite_none_right_eq_some.mp hstep
      obtain rfl := Option.some.inj heq
      exact (h.register p).setLock _
  | main p => exact h.mainStep hstep
  | delegate p => exact h.delegateStep hstep
  | release p =>
      obtain ⟨-, heq⟩ := Option.ite_none_right_eq_some.mp hstep
      obtain rfl := Option.some.inj heq
      exact h.setProcess_view rfl
  | go w => exact h.goStep hstep

theorem hold_init (c : Part) : (init cpus hcpus).hold c = match c with
    | .worker w => {Token.wake w}
    | .process _ => 0
    | .job t => {Token.job t} := by
  cases c with
  | worker w => rfl
  | process p => rfl
  | job t => rfl

theorem sound_init : (init cpus hcpus).Sound := by
  refine ⟨⟨fun c => ?_, fun {c d tok} hc hd => ?_⟩, fun w => ?_, fun p => ?_, fun t => ?_, fun w _ => ?_,
    fun t _ => ?_⟩
  · rw [hold_init]
    cases c <;> simp
  · rw [hold_init] at hc hd
    cases c <;> cases d <;> simp_all
  · exact ⟨fun t ht => absurd ht List.not_mem_nil, List.nodup_nil, trivial, fun t _ ht => (by cases ht),
      fun a k p t hpc => (by cases hpc)⟩
  · exact ⟨fun v hv => absurd hv List.not_mem_nil, fun e he => absurd he List.not_mem_nil,
      fun t ht => (by cases ht)⟩
  · exact ⟨fun _ => Or.inr rfl, by simp [init], fun _ => rfl, fun _ => rfl⟩
  · exact ⟨rfl, rfl, rfl, rfl, rfl⟩
  · exact ⟨rfl, rfl, rfl, rfl⟩

end Crew

end Nosv
