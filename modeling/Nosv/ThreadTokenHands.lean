import Nosv.ThreadTokenSteps

/-!
# The steps of a thread keep the tokens apart

`Crew.go`, by what the thread is doing: handing its CPU over, ending with
its process, or on its own in its loop.
-/

namespace Nosv

open Places

/-- The thread is past the choice of who gets the CPU. -/
def Hand.Chosen : Hand → Prop
  | .submitSelf _ | .dispatch _ _ => False
  | _ => True

/-- The thread is up, and has nothing of anybody else. -/
structure Pc.Alone (pc : Pc) : Prop where
  handle : pc.handle = none
  wakes : pc.wakes = none
  resting : pc.resting = false
  tookHandle : pc.tookHandle = false

theorem Hand.Chosen.ne {k : Hand} (hk : k.Chosen) : (∀ u, k ≠ .submitSelf u) ∧ ∀ u b, k ≠ .dispatch u b := by
  constructor
  · rintro u rfl
    exact hk
  · rintro u b rfl
    exact hk

theorem shape_chosen {x : Worker} {a : After} {k : Hand} (hpc : x.pc = .hand a k) (hk : k.Chosen) :
    x.Shape ↔ (a = .block → x.stack = [] → x.immediateSuccessor = none) := by
  unfold Worker.Shape
  rw [hpc]
  cases k with
  | submitSelf | dispatch => exact hk.elim
  | transfer | wakeIdle | give | newCpu | setPid | signal | create | spawn | put => exact Iff.rfl

namespace Crew

variable {s s' : Crew} {t : TaskId} {w v : WorkerId} {p : Pid} {x y : Worker} {a : After} {c : Cpu}

/-! ## Going on -/

/-- A thread that hands its CPU over, and keeps what it has in hand -/
theorem Sound.nextHand (h : s.Sound) {k k' : Hand} (hpc : (s.worker w).pc = .hand a k) (hk : k.Chosen)
    (hk' : k'.Chosen) (hhandle : k'.handle = k.handle) (hwakes : k'.wakes = k.wakes)
    (hsends : ∀ p t, k'.target s w = some p → k'.handle = some t → s.Fresh t p) :
    (s.setPc w (.hand a k')).Sound := by
  have hrest : (Pc.hand a k').resting = (Pc.hand a k).resting :=
    resting_hand hk'.ne.1 (fun u => hk'.ne.2 u _) hk.ne.1 fun u => hk.ne.2 u _
  refine h.setPc (by simp [hpc]) (by rw [hpc]; exact hhandle) (by rw [hpc]; exact hwakes)
    (by rw [hpc]; exact hrest) ?_ ?_ fun a' k₁ p t heq htarget hu => ?_
  · rw [hpc, tookHandle_hand fun u => hk'.ne.2 u _, tookHandle_hand fun u => hk.ne.2 u _]
  · exact (shape_chosen rfl hk').mpr ((shape_chosen hpc hk).mp (h.worker w).shape)
  · cases heq
    exact hsends p t htarget hu

theorem Sound.goAlone (h : s.Sound) {pc : Pc} (hpc : (s.worker w).pc ≠ .absent) (halone : (s.worker w).pc.Alone)
    (halone' : pc.Alone) (hshape : Worker.Shape { s.worker w with pc := pc }) : (s.setPc w pc).Sound := by
  refine h.setPc hpc (halone'.handle.trans halone.handle.symm) (halone'.wakes.trans halone.wakes.symm)
    (halone'.resting.trans halone.resting.symm) (halone'.tookHandle.trans halone.tookHandle.symm) hshape ?_
  intro a k p t heq _ hu
  have hnone := halone'.handle
  rw [heq] at hnone
  rw [show k.handle = none from hnone] at hu
  cases hu

theorem worker_setWorker_view (hx : x.view = (s.worker v).view) (u : WorkerId) :
    ((s.setWorker v x).worker u).view = (s.worker u).view := by
  by_cases hu : u = v
  · subst hu
    simpa [Crew.setWorker] using hx
  · simp [Crew.setWorker, hu]

theorem pc_of_view (h : y.view = x.view) : y.pc = x.pc := congrArg (fun z => z.2.1) h

/-- A thread drops what it has in hand. -/
theorem Sound.dropHand (h : s.Sound) {pc : Pc} (hpc : (s.worker w).pc ≠ .absent) (hhandle : pc.handle = none)
    (hwakes : pc.wakes = (s.worker w).pc.wakes) (hresting : pc.resting = (s.worker w).pc.resting)
    (htook : pc.tookHandle = (s.worker w).pc.tookHandle)
    (hshape : Worker.Shape { s.worker w with pc := pc }) :
    (s.setPc w pc).Sound ∧ ∀ o, (s.worker w).pc.handle = o → (s.setPc w pc).Nowhere o := by
  have hw := h.worker w
  have hgiven : Worker.given { s.worker w with pc := pc } = (s.worker w).given := by
    simp [Worker.given, htook]
  have htokens : s.workerTokens w { s.worker w with pc := pc } + s.jobToken (s.worker w).pc.handle
      = s.workerTokens w (s.worker w) := by
    refine Multiset.ext.mpr fun tok => ?_
    simp only [workerTokens, hgiven, hhandle, hwakes, hresting, jobToken_none, Multiset.count_add,
      Multiset.count_zero]
    omega
  constructor
  · refine h.setWorker (h.born hpc) rfl ⟨hw.owns, hw.nodup, hshape, hw.handle, ?_⟩
      (fun _ _ => ⟨rfl, rfl, rfl⟩) ?_
    · intro a k p t heq _ hu
      have heq : pc = .hand a k := heq
      rw [heq] at hhandle
      rw [show k.handle = none from hhandle] at hu
      cases hu
    · rw [← htokens]
      exact Multiset.le_add_right _ _
  · rintro o rfl tok htok
    have hself : (s.setPc w pc).hold (.worker w) = s.workerTokens w { s.worker w with pc := pc } := by
      simp only [hold, Crew.setPc, Crew.setWorker, Function.update_self]
      rfl
    refine absent_of_drop (c := .worker w) h.distinct (Multiset.mem_of_le hand_le htok) ?_ fun d => ?_
    · rw [hself, hold, ← htokens]
      exact add_le_add le_rfl (Multiset.singleton_le.mpr htok)
    · cases d with
      | worker v =>
          by_cases hv : v = w
          · rw [hv, hself, hold, ← htokens]
            exact Multiset.le_add_right _ _
          · simp only [hold, Crew.setPc, Crew.setWorker, Function.update_of_ne hv]
            exact le_rfl
      | process q => exact le_rfl
      | job u => exact le_rfl

/-! ## The CPU is handed over -/

/-- The task on top of the thread, which it submits -/
theorem Sound.submitSelf (h : s.Sound) {u : TaskId} {rest : List TaskId} {pc : Pc}
    (hstack : (s.worker w).stack = u :: rest) (hpc : (s.worker w).pc ≠ .absent)
    (hup : (s.worker w).pc.resting = false) (hhandle : pc.handle = (s.worker w).pc.handle)
    (hwakes : pc.wakes = (s.worker w).pc.wakes) (hresting : pc.resting = true)
    (hshape : Worker.Shape { s.worker w with pc := pc })
    (hsends : ∀ a k p t, pc = .hand a k → k.target s w = some p → k.handle = some t → s.Fresh t p) :
    ((s.schedulerSubmit u).setPc w pc).Sound := by
  have hw := h.worker w
  have hu : u ∈ (s.worker w).stack := by rw [hstack]; exact List.mem_cons_self
  have hjob := h.job u
  refine h.block (t := u) (j := { s.job u with place := .ready })
    (x := { s.worker w with pc := pc }) hpc hup hu rfl
    ⟨hjob.count, fun hpar _ => hjob.unblocked hpar ?_, by simp, hjob.shared⟩ (by simp) rfl
    ⟨hw.owns, hw.nodup, hshape, hw.handle, hsends⟩ ⟨rfl, rfl, rfl⟩ hhandle hwakes hresting rfl
  exact Or.inr (Or.inr (Or.inl (h.running hup hu hpar)))

theorem Sound.dispatchStep (h : s.Sound) {busy : Bool} (hpc : (s.worker w).pc = .hand a (.dispatch t busy)) :
    (s.dispatch w a t busy).Sound := by
  cases hv : (s.job t).worker with
  | some v => exact h.wakeOwner hpc hv
  | none =>
      by_cases hpid : (s.job t).pid = (s.worker w).pid
      · cases busy with
        | false =>
            have hdispatch : s.dispatch w a t false = s.taskExecute w t := by
              simp [dispatch, hv, hpid]
            rw [hdispatch]
            exact h.execute hpc hv
        | true =>
            have hdispatch : s.dispatch w a t true
                = s.setPc w (.hand a (.wakeIdle (s.worker w).pid (some t))) := by
              simp [dispatch, hv, hpid]
            have hshape := (h.worker w).shape
            rw [Worker.Shape, hpc] at hshape
            obtain ⟨rfl, hstack⟩ := hshape
            rw [hdispatch]
            refine h.setPc (by simp [hpc]) (by rw [hpc]; rfl) (by rw [hpc]; rfl) (by rw [hpc]; rfl)
              (by rw [hpc]; rfl) (fun _ hnil => absurd hnil hstack) fun a' k p u heq htarget hu => ?_
            cases heq
            cases htarget
            cases hu
            exact ⟨hv, hpid⟩
      · exact h.transfer hpc hv hpid

theorem Sound.wakeIdle (h : s.Sound) {o : Option TaskId} (hpc : (s.worker w).pc = .hand a (.wakeIdle p o))
    (hstep : s.handStep w a c (.wakeIdle p o) = some s') : s'.Sound := by
  have hw := h.worker w
  have hfresh : ∀ t, o = some t → s.Fresh t p := fun t ht => hw.sends a _ p t hpc rfl ht
  rw [handStep] at hstep
  obtain ⟨-, hstep⟩ := Option.ite_none_right_eq_some.mp hstep
  split at hstep
  case h_1 v rest hlist =>
      obtain rfl := Option.some.inj hstep
      have hpid := ((h.process p).idle v (by rw [hlist]; exact List.mem_cons_self)).pid
      have hrest : (Pc.hand a (.give v o)).resting = (Pc.hand a (.wakeIdle p o)).resting :=
        resting_hand (by simp) (by simp) (by simp) (by simp)
      refine h.popIdle hlist (by simp [hpc]) (by rw [hpc]; rfl) (by rw [hpc]; rfl) rfl (by rw [hpc, hrest]) ?_
        ⟨hw.owns, hw.nodup, ?_, hw.handle, fun a' k q u heq htarget hu => ?_⟩
      · rw [hpc, tookHandle_hand (by simp), tookHandle_hand (by simp)]
      · exact (shape_chosen (k := .give v o) rfl trivial).mpr ((shape_chosen hpc trivial).mp hw.shape)
      · cases heq
        cases htarget
        exact hpid ▸ hfresh u hu
  case h_2 hnil =>
      obtain rfl := Option.some.inj hstep
      by_cases hown : p = (s.worker w).pid
      · rw [if_pos hown]
        refine h.nextHand hpc trivial trivial rfl rfl fun q u htarget hu => ?_
        cases htarget
        exact hown ▸ hfresh u hu
      · rw [if_neg hown]
        refine h.nextHand hpc trivial trivial rfl rfl fun q u htarget hu => ?_
        cases htarget
        exact hfresh u hu

/-- There is a new thread for what was in hand. -/
theorem Sound.spawn (h : s.Sound) {o : Option TaskId} (hpc : (s.worker w).pc = .hand a (.spawn o)) :
    ((s.workerCreateLocal (s.worker w).pid c o).setPc w a.pc).Sound := by
  have hw := h.worker w
  have hne : w ≠ s.workers := Nat.ne_of_lt (h.born (by simp [hpc]))
  obtain ⟨hnohandle, hnowakes, hnotook⟩ := After.pc_hand a
  obtain ⟨h₁, hout⟩ := h.dropHand (by simp [hpc]) hnohandle (by rw [hpc, hnowakes]; rfl)
    (by rw [hpc]; exact resting_after (by simp) (by simp)) (by rw [hpc, hnotook, tookHandle_hand (by simp)])
    (shape_after rfl ((shape_chosen hpc trivial).mp hw.shape))
  have hadd := h₁.addWorker (p := (s.worker w).pid) (c := c) (o := o)
    (fun t ht => hw.sends a _ _ t hpc rfl ht) (hout o (by rw [hpc]; rfl))
  have hcomm : (s.workerCreateLocal (s.worker w).pid c o).setPc w a.pc
      = (s.setPc w a.pc).workerCreateLocal (s.worker w).pid c o := by
    simp only [workerCreateLocal, Crew.setPc, Crew.setWorker, Crew.setProcess, Function.update_of_ne hne]
    rw [Function.update_comm hne]
  rw [hcomm]
  exact hadd

theorem Sound.handStep (h : s.Sound) {k : Hand} (hpc : (s.worker w).pc = .hand a k)
    (hstep : s.handStep w a c k = some s') : s'.Sound := by
  have hw := h.worker w
  have hpcne : (s.worker w).pc ≠ .absent := by simp [hpc]
  cases k with
  | submitSelf t =>
      rw [Crew.handStep] at hstep
      split at hstep
      case h_2 => cases hstep
      case h_1 u rest hstack =>
        obtain rfl := Option.some.inj hstep
        have hshape := hw.shape
        rw [Worker.Shape, hpc] at hshape
        obtain ⟨rfl, hne⟩ := hshape
        refine h.submitSelf hstack hpcne (by rw [hpc]; rfl) (by rw [hpc]; rfl) (by rw [hpc]; rfl) rfl
          ⟨rfl, hne⟩ fun a' k p u heq htarget => ?_
        cases heq
        cases htarget
  | dispatch t busy =>
      obtain rfl := Option.some.inj hstep
      exact h.dispatchStep hpc
  | transfer p o =>
      obtain rfl := Option.some.inj hstep
      refine (h.cpuSetPid c (some p)).nextHand hpc trivial trivial rfl rfl fun q u htarget hu => ?_
      exact hw.sends a _ q u hpc htarget hu
  | wakeIdle p o => exact h.wakeIdle hpc hstep
  | give v o =>
      obtain rfl := Option.some.inj hstep
      exact h.give hpc
  | newCpu v =>
      obtain rfl := Option.some.inj hstep
      have hview : Worker.view { s.worker v with newCpu := some c } = (s.worker v).view := rfl
      have hpc' := (pc_of_view (worker_setWorker_view hview w)).trans hpc
      exact (h.setWorker_view hview).nextHand hpc' trivial trivial rfl rfl fun q u htarget => by cases htarget
  | setPid v =>
      obtain rfl := Option.some.inj hstep
      have hpc' : ((if (s.worker v).pid ≠ (s.worker w).pid then s.cpuSetPid c (some (s.worker v).pid)
          else s).worker w).pc = .hand a (.setPid v) := by
        split <;> exact hpc
      refine Sound.nextHand ?_ hpc' trivial trivial rfl rfl fun q u htarget => by cases htarget
      split
      · exact h.cpuSetPid c _
      · exact h
  | signal v =>
      obtain rfl := Option.some.inj hstep
      exact h.signal hpc
  | create o =>
      obtain rfl := Option.some.inj hstep
      have h₁ : (s.incCreated (s.worker w).pid).Sound := h.setProcess_view rfl
      refine h₁.nextHand hpc trivial trivial rfl rfl fun q u htarget hu => ?_
      exact hw.sends a _ q u hpc htarget hu
  | spawn o =>
      obtain rfl := Option.some.inj hstep
      exact h.spawn hpc
  | put p o =>
      obtain rfl := Option.some.inj hstep
      obtain ⟨hnohandle, hnowakes, hnotook⟩ := After.pc_hand a
      exact h.put hpcne hnohandle (by rw [hpc]; rfl) (by rw [hpc, hnowakes]; rfl)
        (by rw [hpc]; exact resting_after (by simp) (by simp))
        (by rw [hpc, hnotook, tookHandle_hand (by simp)])
        (fun t ht => hw.sends a _ p t hpc rfl ht)
        ⟨hw.owns, hw.nodup, shape_after rfl ((shape_chosen hpc trivial).mp hw.shape), hw.handle, sends_after⟩

/-! ## A process ends -/

theorem alone_closing (k : Closing) : (Pc.closing k).Alone := ⟨rfl, rfl, rfl, rfl⟩

theorem alone_killer (k : Killer) : (Pc.killer k).Alone := ⟨rfl, rfl, rfl, rfl⟩

/-- A write to a process, and a thread that is alone -/
theorem Sound.processAlone (h : s.Sound) {z : Process} {pc : Pc} (hz : z.view = (s.process p).view)
    (hpc : (s.worker w).pc ≠ .absent) (halone : (s.worker w).pc.Alone) (halone' : pc.Alone)
    (hshape : Worker.Shape { s.worker w with pc := pc }) : ((s.setProcess p z).setPc w pc).Sound :=
  (h.setProcess_view hz).goAlone hpc halone halone' hshape

theorem Sound.closingStep (h : s.Sound) {k : Closing} (hpc : (s.worker w).pc = .closing k)
    (hstep : s.closingStep w c k = some s') : s'.Sound := by
  have hw := h.worker w
  have hpcne : (s.worker w).pc ≠ .absent := by simp [hpc]
  have halone : (s.worker w).pc.Alone := hpc ▸ alone_closing k
  cases k with
  | list =>
      obtain rfl := Option.some.inj hstep
      exact h.processAlone rfl hpcne halone (alone_closing _) trivial
  | pop =>
      rw [Crew.closingStep] at hstep
      dsimp only at hstep
      split at hstep
      case h_1 v rest hlist =>
        obtain rfl := Option.some.inj hstep
        refine h.popIdle hlist hpcne (by rw [hpc]; rfl) halone.wakes rfl (by rw [hpc]; rfl) (by rw [hpc]; rfl)
          ⟨hw.owns, hw.nodup, fun heq => (by cases heq), hw.handle, fun a k q u heq htarget => ?_⟩
        cases heq
        cases htarget
      case h_2 =>
        obtain rfl := Option.some.inj hstep
        exact h.goAlone hpcne halone (alone_closing _) trivial
  | join =>
      obtain rfl := Option.some.inj hstep
      exact h.processAlone rfl hpcne halone (alone_closing _) trivial
  | check =>
      rw [Crew.closingStep] at hstep
      split at hstep
      · obtain rfl := Option.some.inj hstep
        exact h.processAlone rfl hpcne halone (alone_closing _) trivial
      · obtain rfl := Option.some.inj hstep
        exact h.goAlone hpcne halone (alone_closing _) trivial
  | transfer =>
      rw [Crew.closingStep] at hstep
      obtain ⟨-, hstep⟩ := Option.ite_none_right_eq_some.mp hstep
      split at hstep
      · obtain rfl := Option.some.inj hstep
        exact (h.setLock _).goAlone hpcne halone ⟨rfl, rfl, rfl, rfl⟩ fun heq => by cases heq
      · obtain rfl := Option.some.inj hstep
        exact ((h.setLock _).cpuSetPid c none).goAlone hpcne halone ⟨rfl, rfl, rfl, rfl⟩ trivial

theorem Sound.killerStep (h : s.Sound) {k : Killer} (hpc : (s.worker w).pc = .killer k)
    (hstep : s.killerStep w k = some s') : s'.Sound := by
  have hw := h.worker w
  have hpcne : (s.worker w).pc ≠ .absent := by simp [hpc]
  have halone : (s.worker w).pc.Alone := hpc ▸ alone_killer k
  have hstack := hw.shape
  rw [Worker.Shape, hpc] at hstack
  cases k with
  | leader =>
      obtain rfl := Option.some.inj hstep
      exact h.processAlone rfl hpcne halone (alone_killer _) hstack
  | putShutdown =>
      obtain rfl := Option.some.inj hstep
      refine h.put hpcne rfl (by rw [hpc]; rfl) (by rw [hpc]; rfl) (by rw [hpc]; rfl) (by rw [hpc]; rfl)
        (fun t ht => by cases ht) ⟨hw.owns, hw.nodup, hstack, hw.handle, fun a k q u heq => by cases heq⟩
  | setSignal =>
      obtain rfl := Option.some.inj hstep
      exact h.processAlone rfl hpcne halone (alone_killer _) hstack
  | done => cases hstep

/-! ## The next step of a thread -/

theorem Sound.goStep (h : s.Sound) (hstep : s.go w = some s') : s'.Sound := by
  have hshape := (h.worker w).shape
  rw [Worker.Shape] at hshape
  rw [go] at hstep
  cases hpc : (s.worker w).pc with
  | starting =>
      rw [hpc] at hstep hshape
      obtain rfl := Option.some.inj hstep
      exact h.goAlone (by simp [hpc]) (by rw [hpc]; exact ⟨rfl, rfl, rfl, rfl⟩) ⟨rfl, rfl, rfl, rfl⟩ hshape
  | loop =>
      rw [hpc] at hstep hshape
      obtain rfl := Option.some.inj hstep
      refine h.goAlone (by simp [hpc]) (by rw [hpc]; exact ⟨rfl, rfl, rfl, rfl⟩) ?_ ?_
      · split <;> exact ⟨rfl, rfl, rfl, rfl⟩
      · split
        · trivial
        · exact hshape
  | hunt =>
      rw [hpc] at hstep
      dsimp only at hstep
      split at hstep
      case h_1 t ht =>
        obtain rfl := Option.some.inj hstep
        exact h.takeHandle hpc ht
      case h_2 => cases hstep
  | attach =>
      rw [hpc] at hstep
      dsimp only at hstep
      split at hstep
      case h_1 t rest hstack =>
        obtain rfl := Option.some.inj hstep
        refine h.submitSelf hstack (by simp [hpc]) (by rw [hpc]; rfl) (by rw [hpc]; rfl) (by rw [hpc]; rfl) rfl
          (fun hnil => ?_) fun a k q u heq => by cases heq
        rw [show (s.worker w).stack = [] from hnil] at hstack
        cases hstack
      case h_2 => cases hstep
  | blocked =>
      rw [hpc] at hstep
      obtain ⟨hsignaled, hstep⟩ := Option.ite_none_right_eq_some.mp hstep
      obtain rfl := Option.some.inj hstep
      exact h.unblock hpc hsignaled _ (fun hnil => if_pos hnil) fun hne => if_neg hne
  | hand a k =>
      rw [hpc] at hstep
      obtain ⟨c, -, hstep⟩ := Option.bind_eq_some_iff.mp hstep
      exact h.handStep hpc hstep
  | closing k =>
      rw [hpc] at hstep
      obtain ⟨c, -, hstep⟩ := Option.bind_eq_some_iff.mp hstep
      exact h.closingStep hpc hstep
  | killer k =>
      rw [hpc] at hstep
      exact h.killerStep hpc hstep
  | unlock =>
      rw [hpc] at hstep
      obtain rfl := Option.some.inj hstep
      exact (h.setLock none).goAlone (by simp [Crew.setLock, hpc])
        (by rw [show ((s.setLock none).worker w).pc = .unlock from hpc]; exact ⟨rfl, rfl, rfl, rfl⟩)
        ⟨rfl, rfl, rfl, rfl⟩ trivial
  | absent | body | gone =>
      rw [hpc] at hstep
      cases hstep

end Crew

end Nosv
