import Nosv.ThreadTokenMoves

/-!
# Immediate successors

Where an ordinary task is between its submission and its execution: in the
slot of a worker, in the scheduler, or handed over to a thread. The moves
that submit a task, that hand it over and that execute it are named, and
every run keeps the account of them: a task is handed over once for each
submission, unless it is still in a slot or in the scheduler.
-/

namespace Nosv

namespace Crew

/-! ## Where a task is -/

def place (s : Crew) (t : TaskId) : JobPlace := (s.job t).place

/-- `worker->immediate_successor` -/
def slot (s : Crew) (w : WorkerId) : Option TaskId := (s.worker w).immediateSuccessor

/-- The task is the immediate successor of some worker. -/
def Slotted (s : Crew) (t : TaskId) : Prop := ∃ w < s.workers, s.slot w = some t

instance (s : Crew) (t : TaskId) : Decidable (s.Slotted t) :=
  inferInstanceAs (Decidable (∃ w < s.workers, s.slot w = some t))

/-- Submitted, and with no thread -/
def Held (s : Crew) (t : TaskId) : Prop := s.place t = .ready ∨ s.Slotted t

instance (s : Crew) (t : TaskId) : Decidable (s.Held t) := inferInstanceAs (Decidable (_ ∨ _))

/-- On its way to its execution, with a thread or in an event -/
def Handed (s : Crew) (t : TaskId) : Prop := s.place t = .flight ∧ ¬ s.Slotted t

instance (s : Crew) (t : TaskId) : Decidable (s.Handed t) := inferInstanceAs (Decidable (_ ∧ _))

/-! ## What the moves do -/

/-- The task that a move submits; its blocking count has become zero. -/
def submits (s : Crew) : CrewMove → Option TaskId
  | .submit t _ | .submitImmediate _ t => if countDown (s.job t).count = 0 then some t else none
  | .resume t | .unlockYield _ t => some t
  | .waitfor w => s.current w
  | .endBody w e =>
      (s.ending w e).bind fun (t, _) => if (taskEnds (s.job t) e).place = .ready then some t else none
  | .go w =>
      match (s.worker w).pc with
      | .attach | .hand _ (.submitSelf _) => (s.worker w).stack.head?
      | _ => none
  | _ => none

/-- The task that a move puts into a slot -/
def fills (s : Crew) : CrewMove → Option TaskId
  | .submitImmediate _ t => if countDown (s.job t).count = 0 then some t else none
  | _ => none

/-- The task that a move hands over to a thread -/
def handsOver (s : Crew) : CrewMove → Option TaskId
  | .get _ t => t
  | .immediate w t => t.or (s.slot w)
  | .pause w => (s.current w).bind fun t => if 0 < countUp (s.job t).count then s.slot w else none
  | .waitfor w | .wait w => s.slot w
  | .yield w t => (s.slot w).or t
  | .unlockYield _ t => some t
  | _ => none

/-- The task whose execution a move starts or goes on with -/
def executes (s : Crew) : CrewMove → Option TaskId
  | .go w =>
      match (s.worker w).pc with
      | .hand _ (.dispatch t busy) =>
          if (s.job t).worker ≠ none ∨ ((s.job t).pid = (s.worker w).pid ∧ busy = false) then some t else none
      | _ => none
  | _ => none

variable {s s' s₁ : Crew} {t u : TaskId} {w v : WorkerId} {p : Pid} {x : Worker} {j : Job} {o : Option TaskId}
  {cpus : Nat} {hcpus : 0 < cpus} {m : CrewMove}

/-! ## Places and slots of the operations -/

@[simp]
theorem place_setJob (u : TaskId) : (s.setJob t j).place u = if u = t then j.place else s.place u := by
  unfold place Crew.setJob
  by_cases hu : u = t
  · subst hu
    simp
  · simp [hu]

@[simp]
theorem place_setWorker (u : TaskId) : (s.setWorker w x).place u = s.place u := rfl

@[simp]
theorem place_setPc (pc : Pc) (u : TaskId) : (s.setPc w pc).place u = s.place u := rfl

@[simp]
theorem place_setProcess (z : Process) (u : TaskId) : (s.setProcess p z).place u = s.place u := rfl

@[simp]
theorem place_cpuSetPid (c : Cpu) (q : Option Pid) (u : TaskId) : (s.cpuSetPid c q).place u = s.place u := rfl

@[simp]
theorem place_setLock (l : Option LockOwner) (u : TaskId) : (s.setLock l).place u = s.place u := rfl

@[simp]
theorem slot_setJob (v : WorkerId) : (s.setJob t j).slot v = s.slot v := rfl

@[simp]
theorem slot_setWorker (v : WorkerId) :
    (s.setWorker w x).slot v = if v = w then x.immediateSuccessor else s.slot v := by
  unfold slot Crew.setWorker
  by_cases hv : v = w
  · subst hv
    simp
  · simp [hv]

@[simp]
theorem slot_setPc (pc : Pc) (v : WorkerId) : (s.setPc w pc).slot v = s.slot v := by
  rw [Crew.setPc, slot_setWorker]
  split
  · rename_i hv
    rw [hv]
    rfl
  · rfl

@[simp]
theorem slot_setProcess (z : Process) (v : WorkerId) : (s.setProcess p z).slot v = s.slot v := rfl

@[simp]
theorem slot_cpuSetPid (c : Cpu) (q : Option Pid) (v : WorkerId) : (s.cpuSetPid c q).slot v = s.slot v := rfl

@[simp]
theorem slot_setLock (l : Option LockOwner) (v : WorkerId) : (s.setLock l).slot v = s.slot v := rfl

/-! ## The account of one move -/

/-- 1 for the task of the event -/
def event (o : Option TaskId) (t : TaskId) : Nat := if o = some t then 1 else 0

def inScheduler (s : Crew) (t : TaskId) : Nat := if s.place t = .ready then 1 else 0

def inFlight (s : Crew) (t : TaskId) : Nat := if s.place t = .flight then 1 else 0

def inSlot (s : Crew) (t : TaskId) : Nat := if s.Slotted t then 1 else 0

/-- What is submitted is held until it is handed over, and then with a
thread until it is executed. One task may have been put into a slot. -/
structure Balanced (s s' : Crew) (t : TaskId) (filled : Option TaskId) (submitted handed executed : Nat) :
    Prop where
  slots : ∀ w u, s'.slot w = some u → s.slot w = some u ∨ filled = some u
  held : s'.inScheduler t + s'.inSlot t + handed = s.inScheduler t + s.inSlot t + submitted
  handed : s'.inFlight t + s.inSlot t + executed = s.inFlight t + s'.inSlot t + handed

theorem slotted_iff (h : s.Sound) : s.Slotted t ↔ ∃ w, s.slot w = some t := by
  constructor
  · rintro ⟨w, -, hw⟩
    exact ⟨w, hw⟩
  · rintro ⟨w, hw⟩
    refine ⟨w, ?_, hw⟩
    by_contra hle
    have hnone : s.slot w = none := (h.noWorker w (Nat.le_of_not_lt hle)).slot
    rw [hnone] at hw
    cases hw

/-- An ordinary task in a slot is in flight, and in no other slot. -/
theorem Sound.slot_flight (h : s.Sound) (hslot : s.slot w = some t) (hord : (s.job t).parallel = false) :
    s.place t = .flight ∧ ∀ v, s.slot v = some t → v = w := by
  refine ⟨h.flight_of_mem hslot slot_le hord, fun v hv => ?_⟩
  have hmem : ∀ {v}, s.slot v = some t → Token.job t ∈ s.hold (.worker v) := fun hv =>
    Multiset.mem_of_le slot_le (mem_jobToken.mpr ⟨hv, hord⟩)
  exact Part.worker.inj (h.distinct.inj (hmem hv) (hmem hslot))

theorem inSlot_congr (h : s.Sound) (h' : s'.Sound) (hslot : ∀ w, s'.slot w = s.slot w) :
    s'.inSlot t = s.inSlot t := by
  have hiff : s'.Slotted t ↔ s.Slotted t := by
    rw [slotted_iff h, slotted_iff h']
    exact exists_congr fun w => by rw [hslot]
  rw [inSlot, inSlot]
  exact if_congr hiff rfl rfl

/-- Only places change. -/
theorem Balanced.of_places (h : s.Sound) (h' : s'.Sound) {a b c : Nat} (hslot : ∀ w, s'.slot w = s.slot w)
    (hready : s'.inScheduler t + b = s.inScheduler t + a) (hflight : s'.inFlight t + c = s.inFlight t + b) :
    Balanced s s' t none a b c := by
  have heq := inSlot_congr (t := t) h h' hslot
  exact ⟨fun w u hu => Or.inl (hslot w ▸ hu), by omega, by omega⟩

/-- Nothing of it changes. -/
theorem Balanced.of_same (h : s.Sound) (h' : s'.Sound) (hslot : ∀ w, s'.slot w = s.slot w)
    (hready : s'.place t = .ready ↔ s.place t = .ready) (hflight : s'.place t = .flight ↔ s.place t = .flight) :
    Balanced s s' t none 0 0 0 := by
  refine .of_places h h' hslot ?_ ?_
  · simp only [inScheduler, hready]
  · simp only [inFlight, hflight]

/-- One slot changes. -/
theorem inSlot_update (h : s.Sound) (h' : s'.Sound) (hslot : ∀ v, s'.slot v = if v = w then o else s.slot v)
    (hord : (s.job t).parallel = false) (hnew : o = some t → ¬ s.Slotted t) :
    s'.inSlot t + event (s.slot w) t = s.inSlot t + event o t := by
  have hkeep : ∀ {v}, v ≠ w → s'.slot v = s.slot v := fun hv => by rw [hslot, if_neg hv]
  have hself : s'.slot w = o := by rw [hslot, if_pos rfl]
  have hiff := slotted_iff (t := t) h
  have hiff' := slotted_iff (t := t) h'
  by_cases hold : s.slot w = some t
  · -- it was in this slot, and in no other one
    have hin : s.Slotted t := hiff.mpr ⟨w, hold⟩
    have hne : o ≠ some t := fun ho => hnew ho hin
    have hout : ¬ s'.Slotted t := fun hin' => by
      obtain ⟨v, hv⟩ := hiff'.mp hin'
      by_cases hvw : v = w
      · rw [hvw, hself] at hv
        exact hne hv
      · rw [hkeep hvw] at hv
        exact hvw ((h.slot_flight hold hord).2 v hv)
    rw [inSlot, inSlot, event, event, if_neg hout, if_pos hin, if_pos hold, if_neg hne]
  · by_cases ho : o = some t
    · have hin' : s'.Slotted t := hiff'.mpr ⟨w, hself.trans ho⟩
      rw [inSlot, inSlot, event, event, if_pos hin', if_neg (hnew ho), if_neg hold, if_pos ho]
    · have hsame : s'.Slotted t ↔ s.Slotted t := by
        rw [hiff, hiff']
        constructor
        · rintro ⟨v, hv⟩
          have hvw : v ≠ w := fun heq => ho (hself.symm.trans (heq ▸ hv))
          exact ⟨v, (hkeep hvw).symm.trans hv⟩
        · rintro ⟨v, hv⟩
          have hvw : v ≠ w := fun heq => hold (heq ▸ hv)
          exact ⟨v, (hkeep hvw).trans hv⟩
      rw [inSlot, inSlot, event, event, if_neg hold, if_neg ho]
      simp only [hsame]

/-- One slot changes, and places. -/
theorem Balanced.of_update (h : s.Sound) (h' : s'.Sound) {a b c : Nat}
    (hslot : ∀ v, s'.slot v = if v = w then o else s.slot v)
    (hord : (s.job t).parallel = false) (hnew : o = some t → ¬ s.Slotted t)
    (hready : s'.inScheduler t + event o t + b = s.inScheduler t + event (s.slot w) t + a)
    (hflight : s'.inFlight t + event (s.slot w) t + c = s.inFlight t + event o t + b) :
    Balanced s s' t o a b c := by
  have heq := inSlot_update h h' hslot hord hnew
  refine ⟨fun v u hu => ?_, by omega, by omega⟩
  rw [hslot] at hu
  split at hu
  · exact Or.inr hu
  · exact Or.inl hu

@[simp]
theorem event_none : event none t = 0 := if_neg (by simp)

@[simp]
theorem event_self : event (some t) t = 1 := if_pos rfl

theorem event_ne (hne : t ≠ u) : event (some u) t = 0 := if_neg fun heq => hne (Option.some.inj heq).symm

theorem inScheduler_of (hplace : s'.place t = s.place t) : s'.inScheduler t = s.inScheduler t := by
  rw [inScheduler, inScheduler, hplace]

theorem inFlight_of (hplace : s'.place t = s.place t) : s'.inFlight t = s.inFlight t := by
  rw [inFlight, inFlight, hplace]

theorem Sound.slot_ne (h : s.Sound) (hord : (s.job t).parallel = false) (hplace : s.place t ≠ .flight)
    (w : WorkerId) : s.slot w ≠ some t := fun hslot => hplace (h.slot_flight hslot hord).1

theorem Sound.not_slotted (h : s.Sound) (hord : (s.job t).parallel = false) (hplace : s.place t ≠ .flight) :
    ¬ s.Slotted t := by
  rintro ⟨w, -, hw⟩
  exact h.slot_ne hord hplace w hw

/-! ## Submission -/

/-- One task changes its place, by what the events say of it. -/
theorem Balanced.of_place (h : s.Sound) (h' : s'.Sound) {a b c : Option TaskId}
    (hslot : ∀ w, s'.slot w = s.slot w) (hplace : ∀ x, x ≠ u → s'.place x = s.place x)
    (hother : t ≠ u → event a t = 0 ∧ event b t = 0 ∧ event c t = 0)
    (hself : t = u → s'.inScheduler t + event b t = s.inScheduler t + event a t
      ∧ s'.inFlight t + event c t = s.inFlight t + event b t) :
    Balanced s s' t none (event a t) (event b t) (event c t) := by
  by_cases htu : t = u
  · exact .of_places h h' hslot (hself htu).1 (hself htu).2
  · obtain ⟨ha, hb, hc⟩ := hother htu
    refine .of_places h h' hslot ?_ ?_
    · rw [inScheduler_of (hplace t htu), ha, hb]
    · rw [inFlight_of (hplace t htu), hb, hc]

theorem balanced_submit (h : s.Sound) {n : Nat} (h' : (s.nosvSubmit u n).Sound)
    (hord : (s.job t).parallel = false) :
    Balanced s (s.nosvSubmit u n) t none (event (if countDown (s.job u).count = 0 then some u else none) t)
      (event none t) (event none t) := by
  have hplace : ∀ x, x ≠ u → (s.nosvSubmit u n).place x = s.place x := fun x hx => by
    rw [Crew.nosvSubmit]
    dsimp only
    split <;> simp [hx]
  have hslot : ∀ w, (s.nosvSubmit u n).slot w = s.slot w := fun w => by
    rw [Crew.nosvSubmit]
    dsimp only
    split <;> simp
  refine .of_place h h' hslot hplace (fun hne => ⟨?_, event_none, event_none⟩) fun htu => ?_
  · split
    · exact event_ne hne
    · exact event_none
  · subst htu
    split
    case isTrue hcount =>
      obtain ⟨hready, hflight, -, -⟩ := (h.job t).blocked hord hcount
      have hplace' : (s.nosvSubmit t n).place t = .ready := by
        simp [Crew.nosvSubmit, hcount, hord]
      have hready : s.place t ≠ .ready := hready
      have hflight : s.place t ≠ .flight := hflight
      simp [inScheduler, inFlight, hplace', hready, hflight]
    case isFalse hcount =>
      have hplace' : (s.nosvSubmit t n).place t = s.place t := by
        simp only [Crew.nosvSubmit, hcount, if_false, place_setJob, if_true]
        rfl
      rw [inScheduler_of hplace', inFlight_of hplace']
      exact ⟨rfl, rfl⟩

/-- A task that is not in flight is put where the scheduler finds it. -/
theorem balanced_schedulerSubmit (h : s.Sound) (h' : s'.Sound) (hslot : ∀ w, s'.slot w = s.slot w)
    (hplace : ∀ x, s'.place x = if x = u then .ready else s.place x)
    (hold : (s.job t).parallel = false → t = u → s.place u ≠ .ready ∧ s.place u ≠ .flight)
    (hord : (s.job t).parallel = false) :
    Balanced s s' t none (event (some u) t) (event none t) (event none t) := by
  refine .of_place h h' hslot (fun x hx => by rw [hplace, if_neg hx])
    (fun hne => ⟨event_ne hne, event_none, event_none⟩) fun htu => ?_
  obtain ⟨hready, hflight⟩ := hold hord htu
  subst htu
  simp [inScheduler, inFlight, hplace, hready, hflight]

theorem place_schedulerSubmit (x : TaskId) :
    (s.schedulerSubmit u).place x = if x = u then .ready else s.place x := place_setJob x

theorem slot_schedulerSubmit (w : WorkerId) : (s.schedulerSubmit u).slot w = s.slot w := rfl

/-- The task is new in the slot, and what was there goes to the scheduler. -/
theorem balanced_submitImmediate (h : s.Sound) (h' : s'.Sound)
    (hslot : ∀ v, s'.slot v = if v = w then some u else s.slot v)
    (hplace : ∀ x, s'.place x = if x = u then .flight else if s.slot w = some x then .ready else s.place x)
    (hready : s.place u ≠ .ready) (hflight : s.place u ≠ .flight) (hord : (s.job t).parallel = false) :
    Balanced s s' t (some u) (event (some u) t) (event none t) (event none t) := by
  by_cases htu : t = u
  · subst htu
    have hout := h.slot_ne hord hflight w
    refine .of_update h h' hslot hord (fun _ => h.not_slotted hord hflight) ?_ ?_
    · simp [inScheduler, hplace, hready, event, hout]
    · simp [inFlight, hplace, hflight, event, hout]
  · refine .of_update h h' hslot hord (fun heq => absurd (Option.some.inj heq).symm htu) ?_ ?_
    · by_cases hin : s.slot w = some t
      · have hflight := (h.slot_flight hin hord).1
        simp [inScheduler, hplace, htu, hin, hflight, event, Ne.symm htu]
      · simp [inScheduler, hplace, htu, hin, event, Ne.symm htu]
    · by_cases hin : s.slot w = some t
      · have hflight := (h.slot_flight hin hord).1
        simp [inFlight, hplace, htu, hin, hflight, event, Ne.symm htu]
      · simp [inFlight, hplace, htu, hin, event, Ne.symm htu]

theorem slot_clearSlot (v : WorkerId) :
    (match (s.worker w).immediateSuccessor with
      | some r => s.schedulerSubmit r
      | none => s).slot v = s.slot v := by
  split <;> rfl

theorem place_clearSlot (y : TaskId) :
    (match (s.worker w).immediateSuccessor with
      | some r => s.schedulerSubmit r
      | none => s).place y = if s.slot w = some y then .ready else s.place y := by
  split
  case h_1 r hr =>
    rw [place_schedulerSubmit, show s.slot w = some r from hr]
    exact if_congr (by rw [Option.some.injEq, eq_comm]) rfl rfl
  case h_2 hnone => rw [show s.slot w = none from hnone, if_neg (by simp)]

/-! ## Tasks for a worker that looks for one -/

/-- The scheduler has returned a task, and the slots stay as they are. -/
theorem balanced_get (h : s.Sound) (h' : s'.Sound) (hgot : s.Got u j) (hslot : ∀ w, s'.slot w = s.slot w)
    (hplace : ∀ x, s'.place x = if x = u then j.place else s.place x) (hord : (s.job t).parallel = false) :
    Balanced s s' t none (event none t) (event (some u) t) (event none t) := by
  refine .of_place h h' hslot (fun x hx => by rw [hplace, if_neg hx])
    (fun hne => ⟨event_none, event_ne hne, event_none⟩) fun htu => ?_
  subst htu
  obtain ⟨hready, hflight⟩ := hgot.place hord
  have hready : s.place t = .ready := hready
  simp [inScheduler, inFlight, hplace, hready, hflight]

/-- The immediate successor is handed over. -/
theorem balanced_takeSlot (h : s.Sound) (h' : s'.Sound) (hslot : ∀ v, s'.slot v = if v = w then none else s.slot v)
    (hplace : ∀ x, s'.place x = s.place x) (hord : (s.job t).parallel = false) :
    Balanced s s' t none (event none t) (event (s.slot w) t) (event none t) := by
  refine .of_update h h' hslot hord (fun heq => nomatch heq) ?_ ?_
  · rw [inScheduler_of (hplace t)]
    omega
  · rw [inFlight_of (hplace t)]
    omega

/-- The immediate successor goes to the scheduler. -/
theorem balanced_dropSlot (h : s.Sound) (h' : s'.Sound) (hu : s.slot w = some u)
    (hslot : ∀ v, s'.slot v = if v = w then none else s.slot v)
    (hplace : ∀ x, s'.place x = if x = u then .ready else s.place x) (hord : (s.job t).parallel = false) :
    Balanced s s' t none (event none t) (event none t) (event none t) := by
  refine .of_update h h' hslot hord (fun heq => nomatch heq) ?_ ?_
  · by_cases htu : t = u
    · subst htu
      have hflight := (h.slot_flight hu hord).1
      simp [inScheduler, hplace, hu, hflight]
    · simp [inScheduler, hplace, hu, htu, event_ne htu]
  · by_cases htu : t = u
    · subst htu
      have hflight := (h.slot_flight hu hord).1
      simp [inFlight, hplace, hu, hflight]
    · simp [inFlight, hplace, hu, htu, event_ne htu]

/-- The quantum is over: another task is handed over, and the immediate
successor goes to the scheduler. -/
theorem balanced_replace (h : s.Sound) (h' : s'.Sound) (hu : s.slot w = some u) {r : TaskId} (hgot : s.Got r j)
    (hslot : ∀ v, s'.slot v = if v = w then none else s.slot v)
    (hplace : ∀ x, s'.place x = if x = u then .ready else if x = r then j.place else s.place x)
    (hord : (s.job t).parallel = false) :
    Balanced s s' t none (event none t) (event (some r) t) (event none t) := by
  by_cases htr : t = r
  · subst htr
    obtain ⟨hready, hflight⟩ := hgot.place hord
    have hready : s.place t = .ready := hready
    have hout := h.slot_ne hord (by simp [hready]) w
    have htu : t ≠ u := by
      rintro rfl
      exact hout hu
    refine .of_update h h' hslot hord (fun heq => nomatch heq) ?_ ?_
    · simp [inScheduler, hplace, htu, hready, hflight, hu, event_ne htu]
    · simp [inFlight, hplace, htu, hready, hflight, hu, event_ne htu]
  · rw [event_ne htr]
    by_cases htu : t = u
    · subst htu
      have hflight := (h.slot_flight hu hord).1
      refine .of_update h h' hslot hord (fun heq => nomatch heq) ?_ ?_
      · simp [inScheduler, hplace, hu, hflight]
      · simp [inFlight, hplace, hu, hflight]
    · refine .of_update h h' hslot hord (fun heq => nomatch heq) ?_ ?_
      · simp [inScheduler, hplace, hu, htu, htr, event_ne htu]
      · simp [inFlight, hplace, hu, htu, htr, event_ne htu]

/-! ## A task gives way, or ends -/

/-- The task of the thread is where it waits, and the immediate successor
gets the CPU. -/
theorem balanced_workerYield (h : s.Sound) (h' : s'.Sound) (hcur : s.current w = some u) (place' : JobPlace)
    (hflight : place' ≠ .flight) (hslot : ∀ v, s'.slot v = if v = w then none else s.slot v)
    (hplace : ∀ x, s'.place x = if x = u then place' else s.place x) (hord : (s.job t).parallel = false) :
    Balanced s s' t none (event (if place' = .ready then some u else none) t) (event (s.slot w) t) (event none t) := by
  by_cases htu : t = u
  · subst htu
    have hrun : s.place t = .running := (h.currentOk hcur .ready ⟨by simp, by simp⟩).2.2
    have hout := h.slot_ne hord (by simp [hrun]) w
    refine .of_update h h' hslot hord (fun heq => nomatch heq) ?_ ?_
    · by_cases hready : place' = .ready
      · simp [inScheduler, hplace, hrun, hready, event, hout]
      · simp [inScheduler, hplace, hrun, hready, event, hout]
    · simp [inFlight, hplace, hrun, hflight, event, hout]
  · have hnone : event (if place' = .ready then some u else none) t = 0 := by
      split
      · exact event_ne htu
      · exact event_none
    have hsame : s'.place t = s.place t := by rw [hplace, if_neg htu]
    refine .of_update h h' hslot hord (fun heq => nomatch heq) ?_ ?_
    · rw [inScheduler_of hsame, hnone, event_none]
      omega
    · rw [inFlight_of hsame, event_none]
      omega

/-- A task that runs goes elsewhere. -/
theorem balanced_leave (h : s.Sound) (h' : s'.Sound) {place' : JobPlace} (hrun : s.place u = .running)
    (hflight : place' ≠ .flight) (hslot : ∀ v, s'.slot v = s.slot v)
    (hplace : ∀ x, s'.place x = if x = u then place' else s.place x) :
    Balanced s s' t none (event (if place' = .ready then some u else none) t) (event none t) (event none t) := by
  refine .of_place h h' hslot (fun x hx => by rw [hplace, if_neg hx])
    (fun hne => ⟨?_, event_none, event_none⟩) fun htu => ?_
  · split
    · exact event_ne hne
    · exact event_none
  · subst htu
    by_cases hready : place' = .ready
    · simp [inScheduler, inFlight, hplace, hrun, hready]
    · simp [inScheduler, inFlight, hplace, hrun, hready, hflight]

/-- The next owner of a mutex is submitted and handed over. -/
theorem balanced_unlockYield (h : s.Sound) (h' : s'.Sound) (hwaits : s.place u = .waiting)
    (hslot : ∀ v, s'.slot v = s.slot v) (hplace : ∀ x, s'.place x = if x = u then .flight else s.place x) :
    Balanced s s' t none (event (some u) t) (event (some u) t) (event none t) := by
  refine .of_place h h' hslot (fun x hx => by rw [hplace, if_neg hx])
    (fun hne => ⟨event_ne hne, event_ne hne, event_none⟩) fun htu => ?_
  subst htu
  simp [inScheduler, inFlight, hplace, hwaits]

/-- A task that was handed over is executed. -/
theorem balanced_execute (h : s.Sound) (h' : s'.Sound) (place' : JobPlace)
    (hflight : (s.job t).parallel = false → t = u → s.place u = .flight ∧ place' = .running)
    (hslot : ∀ v, s'.slot v = s.slot v) (hplace : ∀ x, s'.place x = if x = u then place' else s.place x)
    (hord : (s.job t).parallel = false) :
    Balanced s s' t none (event none t) (event none t) (event (some u) t) := by
  refine .of_place h h' hslot (fun x hx => by rw [hplace, if_neg hx])
    (fun hne => ⟨event_none, event_none, event_ne hne⟩) fun htu => ?_
  obtain ⟨hplaceu, hrun⟩ := hflight hord htu
  subst htu
  simp [inScheduler, inFlight, hplace, hplaceu, hrun]

/-! ## One move -/

/-- Neither the place of the task nor a slot changes. -/
theorem Balanced.of_quiet (h : s.Sound) (h' : s'.Sound) (hslot : ∀ v, s'.slot v = s.slot v)
    (hplace : s'.place t = s.place t) : Balanced s s' t none (event none t) (event none t) (event none t) :=
  .of_same h h' hslot (by rw [hplace]) (by rw [hplace])

/-- A task changes that is neither with the scheduler nor handed over. -/
theorem Balanced.of_outside (h : s.Sound) (h' : s'.Sound) (u : TaskId) (place' : JobPlace)
    (hslot : ∀ v, s'.slot v = s.slot v) (hplace : ∀ x, s'.place x = if x = u then place' else s.place x)
    (hold : t = u → s.place t ≠ .ready ∧ s.place t ≠ .flight) (hnew : place' ≠ .ready ∧ place' ≠ .flight) :
    Balanced s s' t none (event none t) (event none t) (event none t) := by
  by_cases htu : t = u
  · subst htu
    obtain ⟨hready, hflight⟩ := hold rfl
    refine .of_same h h' hslot ?_ ?_
    · rw [hplace, if_pos rfl]
      exact iff_of_false hnew.1 hready
    · rw [hplace, if_pos rfl]
      exact iff_of_false hnew.2 hflight
  · exact .of_quiet h h' hslot (by rw [hplace, if_neg htu])

/-- `worker_create_local` adds a worker whose slot is empty. -/
theorem slot_workerCreateLocal (h : s.Sound) (p : Pid) (c : Cpu) (v : WorkerId) :
    (s.workerCreateLocal p c o).slot v = s.slot v := by
  have hslot := slot_setWorker (s := s.setProcess p { s.process p with
    threads := s.workers :: (s.process p).threads }) (w := s.workers) (x := newWorker p c o) v
  rw [show (s.workerCreateLocal p c o).slot v = _ from hslot]
  split
  · rename_i hv
    rw [hv]
    exact (h.noWorker s.workers (Nat.le_refl _)).slot.symm
  · rfl

theorem slot_keep (hx : x.immediateSuccessor = s.slot w) (v : WorkerId) : (s.setWorker w x).slot v = s.slot v := by
  rw [slot_setWorker]
  split
  · rename_i hv
    rw [hx, hv]
  · rfl

theorem slot_taskExecute (v : WorkerId) : (s.taskExecute w u).slot v = s.slot v := by
  rw [taskExecute]
  refine slot_keep ?_ v
  rfl

theorem place_taskExecute (y : TaskId) : (s.taskExecute w u).place y
    = if y = u then (if (s.job u).parallel then s.place u else .running) else s.place y := by
  rw [taskExecute, place_setWorker, place_setJob]
  refine if_congr Iff.rfl ?_ rfl
  split <;> rfl

theorem balanced_dispatch (h : s.Sound) {a : After} {busy : Bool} (hpc : (s.worker w).pc = .hand a (.dispatch u busy))
    (h' : (s.dispatch w a u busy).Sound) (hord : (s.job t).parallel = false) :
    Balanced s (s.dispatch w a u busy) t none (event none t) (event none t)
      (event (if (s.job u).worker ≠ none ∨ ((s.job u).pid = (s.worker w).pid ∧ busy = false) then some u
        else none) t) := by
  have hflight : (s.job t).parallel = false → t = u → s.place u = .flight := by
    rintro hord rfl
    exact h.flight_of_mem (by rw [hpc]; rfl) hand_le hord
  cases hv : (s.job u).worker with
  | some v =>
      have hdispatch : s.dispatch w a u busy
          = ((if busy then s.setJob u { s.job u with place := .running }
              else (s.setJob u { s.job u with place := .running }).workerAddToIdleList w).setPc w
            (.hand a (.newCpu v))) := by
        simp [dispatch, hv]
      rw [if_pos (Or.inl (by simp)), hdispatch]
      rw [hdispatch] at h'
      refine balanced_execute h h' .running (fun hord htu => ⟨hflight hord htu, rfl⟩) (fun v => ?_)
        (fun x => ?_) hord
      · rw [slot_setPc]
        cases busy <;> rfl
      · rw [place_setPc]
        cases busy <;> exact place_setJob x
  | none =>
      by_cases hpid : (s.job u).pid = (s.worker w).pid
      · cases busy with
        | false =>
            have hdispatch : s.dispatch w a u false = s.taskExecute w u := by
              simp [dispatch, hv, hpid]
            rw [if_pos (Or.inr ⟨hpid, rfl⟩), hdispatch]
            rw [hdispatch] at h'
            refine balanced_execute h h' _ (fun hord htu => ⟨hflight hord htu, ?_⟩) slot_taskExecute place_taskExecute hord
            rw [htu] at hord
            simp [hord]
        | true =>
            have hdispatch : s.dispatch w a u true
                = s.setPc w (.hand a (.wakeIdle (s.worker w).pid (some u))) := by
              simp [dispatch, hv, hpid]
            rw [if_neg (by simp), hdispatch]
            rw [hdispatch] at h'
            exact .of_quiet h h' (by simp) rfl
      · have hdispatch : s.dispatch w a u busy
            = (if busy then s else s.workerAddToIdleList w).setPc w
              (.hand a (.transfer (s.job u).pid (some u))) := by
          simp [dispatch, hv, hpid]
        rw [if_neg (by simp [hpid]), hdispatch]
        rw [hdispatch] at h'
        refine .of_quiet h h' (fun v => ?_) ?_
        · rw [slot_setPc]
          cases busy <;> rfl
        · rw [place_setPc]
          cases busy <;> rfl

/-- The task that the thread is in is submitted. -/
theorem balanced_submitSelf (h : s.Sound) (hup : (s.worker w).pc.resting = false) {rest : List TaskId}
    (hstack : (s.worker w).stack = u :: rest) {pc : Pc} (h' : ((s.schedulerSubmit u).setPc w pc).Sound)
    (hord : (s.job t).parallel = false) :
    Balanced s ((s.schedulerSubmit u).setPc w pc) t none (event (some u) t) (event none t) (event none t) := by
  refine balanced_schedulerSubmit h h' (fun v => by rw [slot_setPc, slot_schedulerSubmit])
    (fun x => by rw [place_setPc, place_schedulerSubmit]) (fun hord htu => ?_) hord
  subst htu
  have hrun : s.place t = .running := h.running hup (by rw [hstack]; exact List.mem_cons_self) hord
  simp [hrun]

/-- A thread that hands its CPU over, once it has been chosen who gets it -/
theorem balanced_chosen (h : s.Sound) {a : After} {c : Cpu} {k : Hand} (hk : k.Chosen)
    (hstep : s.handStep w a c k = some s') (h' : s'.Sound) :
    Balanced s s' t none (event none t) (event none t) (event none t) := by
  cases k with
  | submitSelf | dispatch => exact hk.elim
  | transfer p o =>
      obtain rfl := Option.some.inj hstep
      exact .of_quiet h h' (by simp) rfl
  | wakeIdle p o =>
      rw [handStep] at hstep
      obtain ⟨-, hstep⟩ := Option.ite_none_right_eq_some.mp hstep
      split at hstep <;> obtain rfl := Option.some.inj hstep <;> exact .of_quiet h h' (by simp) rfl
  | give v o =>
      obtain rfl := Option.some.inj hstep
      exact .of_quiet h h' (fun y => by rw [slot_setPc]; refine slot_keep ?_ y; rfl) rfl
  | newCpu v =>
      obtain rfl := Option.some.inj hstep
      exact .of_quiet h h' (fun y => by rw [slot_setPc]; refine slot_keep ?_ y; rfl) rfl
  | setPid v =>
      obtain rfl := Option.some.inj hstep
      refine .of_quiet h h' (fun y => ?_) ?_
      · rw [slot_setPc]
        split <;> rfl
      · rw [place_setPc]
        split <;> rfl
  | signal v =>
      obtain rfl := Option.some.inj hstep
      exact .of_quiet h h' (fun y => by rw [slot_setPc]; refine slot_keep ?_ y; rfl) rfl
  | create o =>
      obtain rfl := Option.some.inj hstep
      exact .of_quiet h h' (fun y => by rw [slot_setPc]; rfl) rfl
  | spawn o =>
      obtain rfl := Option.some.inj hstep
      exact .of_quiet h h' (fun y => by rw [slot_setPc, slot_workerCreateLocal h]) rfl
  | put p o =>
      obtain rfl := Option.some.inj hstep
      exact .of_quiet h h' (fun y => by rw [slot_setPc]; rfl) rfl

theorem balanced_closing (h : s.Sound) {c : Cpu} {k : Closing} (hstep : s.closingStep w c k = some s')
    (h' : s'.Sound) : Balanced s s' t none (event none t) (event none t) (event none t) := by
  cases k with
  | list =>
      obtain rfl := Option.some.inj hstep
      exact .of_quiet h h' (by simp) rfl
  | pop =>
      rw [Crew.closingStep] at hstep
      dsimp only at hstep
      split at hstep <;> obtain rfl := Option.some.inj hstep <;> exact .of_quiet h h' (by simp) rfl
  | join =>
      obtain rfl := Option.some.inj hstep
      exact .of_quiet h h' (by simp) rfl
  | check =>
      rw [Crew.closingStep] at hstep
      split at hstep <;> obtain rfl := Option.some.inj hstep <;> exact .of_quiet h h' (by simp) rfl
  | transfer =>
      rw [Crew.closingStep] at hstep
      obtain ⟨-, hstep⟩ := Option.ite_none_right_eq_some.mp hstep
      split at hstep <;> obtain rfl := Option.some.inj hstep <;> exact .of_quiet h h' (by simp) rfl

theorem balanced_killer (h : s.Sound) {k : Killer} (hstep : s.killerStep w k = some s') (h' : s'.Sound) :
    Balanced s s' t none (event none t) (event none t) (event none t) := by
  cases k with
  | leader | putShutdown | setSignal =>
      obtain rfl := Option.some.inj hstep
      exact .of_quiet h h' (fun y => by rw [slot_setPc]; rfl) rfl
  | done => cases hstep

theorem balanced_go (h : s.Sound) (hstep : s.go w = some s') (h' : s'.Sound) (hord : (s.job t).parallel = false) :
    Balanced s s' t none (event (s.submits (.go w)) t) (event (s.handsOver (.go w)) t)
      (event (s.executes (.go w)) t) := by
  rw [submits, executes, show s.handsOver (.go w) = none from rfl]
  rw [go] at hstep
  cases hpc : (s.worker w).pc with
  | starting =>
      rw [hpc] at hstep
      obtain rfl := Option.some.inj hstep
      exact .of_quiet h h' (by simp) rfl
  | loop =>
      rw [hpc] at hstep
      obtain rfl := Option.some.inj hstep
      exact .of_quiet h h' (by simp) rfl
  | hunt =>
      rw [hpc] at hstep
      dsimp only at hstep
      split at hstep
      case h_1 =>
        obtain rfl := Option.some.inj hstep
        exact .of_quiet h h' (by simp) rfl
      case h_2 => cases hstep
  | attach =>
      rw [hpc] at hstep
      dsimp only at hstep
      split at hstep
      case h_1 u rest hstack =>
        obtain rfl := Option.some.inj hstep
        rw [hstack]
        exact balanced_submitSelf h (by rw [hpc]; rfl) hstack h' hord
      case h_2 => cases hstep
  | blocked =>
      rw [hpc] at hstep
      obtain ⟨-, hstep⟩ := Option.ite_none_right_eq_some.mp hstep
      obtain rfl := Option.some.inj hstep
      exact .of_quiet h h' (slot_keep rfl) rfl
  | hand a k =>
      rw [hpc] at hstep
      obtain ⟨c, -, hstep⟩ := Option.bind_eq_some_iff.mp hstep
      cases k with
      | submitSelf r =>
          rw [Crew.handStep] at hstep
          split at hstep
          case h_2 => cases hstep
          case h_1 u rest hstack =>
            obtain rfl := Option.some.inj hstep
            rw [hstack]
            exact balanced_submitSelf h (by rw [hpc]; cases a <;> rfl) hstack h' hord
      | dispatch r busy =>
          obtain rfl := Option.some.inj hstep
          exact balanced_dispatch h hpc h' hord
      | transfer | wakeIdle | give | newCpu | setPid | signal | create | spawn | put =>
          refine balanced_chosen h ?_ hstep h'
          trivial
  | closing k =>
      rw [hpc] at hstep
      obtain ⟨c, -, hstep⟩ := Option.bind_eq_some_iff.mp hstep
      exact balanced_closing h hstep h'
  | killer k =>
      rw [hpc] at hstep
      exact balanced_killer h hstep h'
  | unlock =>
      rw [hpc] at hstep
      obtain rfl := Option.some.inj hstep
      exact .of_quiet h h' (by simp) rfl
  | absent | body | gone =>
      rw [hpc] at hstep
      cases hstep

theorem balanced_mainStep (h : s.Sound) (hstep : s.mainStep cpus p = some s') (h' : s'.Sound) :
    Balanced s s' t none (event none t) (event none t) (event none t) := by
  rw [Crew.mainStep] at hstep
  dsimp only at hstep
  split at hstep
  · split at hstep <;> obtain rfl := Option.some.inj hstep <;> exact .of_quiet h h' (fun _ => rfl) rfl
  · obtain rfl := Option.some.inj hstep
    exact .of_quiet h h' (fun _ => rfl) rfl
  · obtain rfl := Option.some.inj hstep
    exact .of_quiet h h' (fun v => by rw [slot_setProcess, slot_workerCreateLocal h]) rfl
  · cases hstep
  · cases hstep

theorem balanced_delegateStep (h : s.Sound) (hstep : s.delegateStep p = some s') (h' : s'.Sound) :
    Balanced s s' t none (event none t) (event none t) (event none t) := by
  rw [Crew.delegateStep] at hstep
  dsimp only at hstep
  split at hstep
  · split at hstep
    · obtain rfl := Option.some.inj hstep
      exact .of_quiet h h' (fun _ => rfl) rfl
    · obtain rfl := Option.some.inj hstep
      exact .of_quiet h h' (fun _ => rfl) rfl
    · cases hstep
  · obtain rfl := Option.some.inj hstep
    exact .of_quiet h h' (fun _ => rfl) rfl
  · obtain rfl := Option.some.inj hstep
    exact .of_quiet h h' (fun v => by rw [slot_setProcess, slot_workerCreateLocal h]) rfl
  · cases hstep

theorem slot_workerYield (v : WorkerId) : (s.workerYield w).slot v = if v = w then none else s.slot v := by
  rw [Crew.workerYield]
  split
  case h_1 => exact slot_setWorker v
  case h_2 hnone =>
    rw [slot_setPc]
    split
    · rename_i hv
      rw [hv]
      exact hnone
    · rfl

theorem place_workerYield (x : TaskId) : (s.workerYield w).place x = s.place x := by
  rw [Crew.workerYield]
  split <;> rfl

theorem balanced_pause (h : s.Sound) (hcur : s.current w = some u)
    (h' : (if 0 < countUp (s.job u).count then
        (s.setJob u { s.job u with count := countUp (s.job u).count, place := .paused }).workerYield w
      else s.setJob u { s.job u with count := countUp (s.job u).count }).Sound) (hord : (s.job t).parallel = false) :
    Balanced s (if 0 < countUp (s.job u).count then
        (s.setJob u { s.job u with count := countUp (s.job u).count, place := .paused }).workerYield w
      else s.setJob u { s.job u with count := countUp (s.job u).count }) t none (event none t)
      (event (if 0 < countUp (s.job u).count then s.slot w else none) t) (event none t) := by
  split at h'
  case isTrue hcount =>
    rw [if_pos hcount, if_pos hcount]
    refine balanced_workerYield h h' hcur .paused (by simp) (fun v => ?_) (fun x => ?_) hord
    · rw [slot_workerYield, slot_setJob]
    · rw [place_workerYield, place_setJob]
  case isFalse hcount =>
    rw [if_neg hcount, if_neg hcount]
    refine .of_quiet h h' (fun _ => rfl) ?_
    rw [place_setJob]
    split
    · rename_i ht
      rw [ht]
      rfl
    · rfl

/-- The task of a thread that is not about to block runs. -/
theorem balanced_endBody (h : s.Sound) {e : Ending} {rest : List TaskId} (hend : s.ending w e = some (u, rest))
    (hx : x.immediateSuccessor = s.slot w) (h' : ((s.setJob u (taskEnds (s.job u) e)).setWorker w x).Sound)
    (hord : (s.job t).parallel = false) :
    Balanced s ((s.setJob u (taskEnds (s.job u) e)).setWorker w x) t none
      (event (if (taskEnds (s.job u) e).place = .ready then some u else none) t) (event none t) (event none t) := by
  obtain ⟨hstack, hpc⟩ := ending_cases hend
  have hup : (s.worker w).pc.resting = false := by
    rcases hpc with hpc | hpc <;> rw [hpc] <;> rfl
  have hslot : ∀ v, ((s.setJob u (taskEnds (s.job u) e)).setWorker w x).slot v = s.slot v := slot_keep hx
  have hplace : ∀ y, ((s.setJob u (taskEnds (s.job u) e)).setWorker w x).place y
      = if y = u then (taskEnds (s.job u) e).place else s.place y := fun y => place_setJob y
  have hrun : (s.job u).parallel = false → (s.job u).place = .running :=
    h.running hup (by rw [hstack]; exact List.mem_cons_self)
  cases hpar : (s.job u).parallel with
  | false => exact balanced_leave h h' (hrun hpar) ((taskEnds_ok (h.job u) hrun).2 hpar) hslot hplace
  | true =>
      have hne : t ≠ u := by
        rintro rfl
        exact absurd (hpar.symm.trans hord) (by decide)
      have hnone : event (if (taskEnds (s.job u) e).place = .ready then some u else none) t = event none t := by
        split
        · rw [event_ne hne, event_none]
        · rfl
      rw [hnone]
      exact .of_quiet h h' hslot (by rw [hplace, if_neg hne])

theorem balanced_detach (h : s.Sound) (hstack : (s.worker w).stack = [u]) (hpc : (s.worker w).pc = .body)
    (hx : x.immediateSuccessor = s.slot w)
    (h' : ((s.setJob u { s.job u with worker := none, place := .dead }).setWorker w x).Sound)
    (hord : (s.job t).parallel = false) :
    Balanced s ((s.setJob u { s.job u with worker := none, place := .dead }).setWorker w x) t none (event none t)
      (event none t) (event none t) := by
  refine .of_outside h h' u .dead (slot_keep hx) (fun y => place_setJob y) (fun htu => ?_) (by simp)
  have hrun : s.place t = .running := h.running (by rw [hpc]; rfl) (by rw [hstack, htu]; simp) hord
  simp [hrun]

/-- Every move keeps the account of an ordinary task. -/
theorem balanced_step (h : s.Sound) (hslots : s.OrdinarySlots) (hfits : s.Fitting m)
    (hstep : s.step cpus hcpus m = some s') (hord : (s.job t).parallel = false) :
    Balanced s s' t (s.fills m) (event (s.submits m) t) (event (s.handsOver m) t) (event (s.executes m) t) := by
  have h' := sound_step h hslots hfits hstep
  cases m with
  | create p parallel =>
      obtain rfl := Option.some.inj hstep
      have hdead : s.place s.jobs = .dead := (h.noJob s.jobs (Nat.le_refl _)).place
      exact .of_outside h h' s.jobs .rest (fun _ => rfl) (fun y => place_setJob y)
        (fun ht => by simp [ht, hdead]) (by simp)
  | submit u n =>
      obtain ⟨hsub, heq⟩ := Option.ite_none_right_eq_some.mp hstep
      obtain rfl := Option.some.inj heq
      exact balanced_submit h h' hord
  | submitImmediate w u =>
      obtain ⟨⟨hsub, huser, hpar⟩, heq⟩ := Option.ite_none_right_eq_some.mp hstep
      split at heq
      case isTrue hcount =>
        obtain rfl := Option.some.inj heq
        rw [submits, fills, if_pos hcount]
        obtain ⟨hready, hflight, -, -⟩ := (h.job u).blocked hpar hcount
        refine balanced_submitImmediate (w := w) h h' (fun v => ?_) (fun y => ?_) hready hflight hord
        · rw [slot_setWorker, slot_setJob]
          exact if_congr Iff.rfl rfl (slot_clearSlot v)
        · rw [place_setWorker, place_setJob]
          exact if_congr Iff.rfl rfl (place_clearSlot y)
      case isFalse hcount =>
        obtain rfl := Option.some.inj heq
        rw [submits, fills, if_neg hcount]
        refine .of_quiet h h' (fun _ => rfl) ?_
        rw [place_setJob]
        split
        · rename_i htu
          rw [htu]
          rfl
        · rfl
  | submitInline w u =>
      obtain ⟨⟨hsub, hpc, hpar, hplace⟩, heq⟩ := Option.ite_none_right_eq_some.mp hstep
      obtain rfl := Option.some.inj heq
      have hrest : s.place u = .rest := hplace
      refine .of_outside h h' u .running (fun v => ?_) (fun y => ?_)
        (fun htu => by simp [htu, hrest]) (by simp)
      · rw [slot_taskExecute, slot_setJob]
      · rw [place_taskExecute, place_setJob, place_setJob]
        simp only [Crew.setJob, Function.update_self]
        rw [hpar]
        split <;> simp [*]
  | resume u =>
      obtain ⟨⟨hpar, hplace⟩, heq⟩ := Option.ite_none_right_eq_some.mp hstep
      obtain rfl := Option.some.inj heq
      have hwaits : s.place u = .waiting := hplace
      exact balanced_schedulerSubmit h h' (fun _ => rfl) (fun x => place_setJob x) (fun _ _ => by simp [hwaits]) hord
  | get w o =>
      obtain ⟨-, heq⟩ := Option.ite_none_right_eq_some.mp hstep
      cases o with
      | some u =>
          obtain ⟨s₁, hget, rfl⟩ := Option.map_eq_some_iff.mp heq
          obtain ⟨j, rfl, hgot⟩ := h.get_cases hget
          exact balanced_get h h' hgot (by simp) (by simp) hord
      | none =>
          obtain rfl := Option.some.inj heq
          exact .of_quiet h h' (by simp) rfl
  | immediate w o =>
      obtain ⟨-, heq⟩ := Option.ite_none_right_eq_some.mp hstep
      split at heq
      case h_1 u hslot =>
        obtain rfl := Option.some.inj heq
        exact balanced_takeSlot h h' (by simp) (fun _ => rfl) hord
      case h_2 u r hslot =>
        obtain ⟨s₁, hget, rfl⟩ := Option.map_eq_some_iff.mp heq
        obtain ⟨j, rfl, hgot⟩ := h.get_cases hget
        refine balanced_replace h h' hslot hgot (fun v => ?_) (fun x => ?_) hord
        · rw [slot_setWorker]
          rfl
        · rw [place_setWorker, place_schedulerSubmit, place_setJob]
      case h_3 => cases heq
  | pause w =>
      obtain ⟨u, hcur, rfl⟩ := Option.map_eq_some_iff.mp hstep
      rw [handsOver, hcur]
      exact balanced_pause h hcur h' hord
  | waitfor w =>
      obtain ⟨u, hcur, rfl⟩ := Option.map_eq_some_iff.mp hstep
      rw [submits, hcur]
      refine balanced_workerYield h h' hcur .ready (by simp) (fun v => ?_) (fun y => ?_) hord
      · rw [slot_workerYield, slot_schedulerSubmit]
      · rw [place_workerYield, place_schedulerSubmit]
  | wait w =>
      obtain ⟨u, hcur, rfl⟩ := Option.map_eq_some_iff.mp hstep
      refine balanced_workerYield h h' hcur .waiting (by simp) (fun v => ?_) (fun y => ?_) hord
      · rw [slot_workerYield, slot_setJob]
      · rw [place_workerYield, place_setJob]
  | yield w o =>
      obtain ⟨r, hcur, heq⟩ := Option.bind_eq_some_iff.mp hstep
      split at heq
      case h_1 u hslot =>
        obtain rfl := Option.some.inj heq
        rw [handsOver, show (s.slot w).or _ = s.slot w from by
          rw [show s.slot w = some u from hslot]
          rfl]
        exact balanced_takeSlot h h' (by simp) (fun _ => rfl) hord
      case h_2 u hslot =>
        obtain ⟨s₁, hget, rfl⟩ := Option.map_eq_some_iff.mp heq
        obtain ⟨j, rfl, hgot⟩ := h.get_cases hget
        have hhands : s.handsOver (.yield w (some u)) = some u := by
          rw [handsOver, show s.slot w = none from hslot]
          rfl
        rw [hhands]
        exact balanced_get h h' hgot (by simp) (by simp) hord
      case h_3 => cases heq
  | unlockYield w u =>
      obtain ⟨r, hcur, heq⟩ := Option.bind_eq_some_iff.mp hstep
      obtain ⟨⟨hpar, hplace⟩, heq⟩ := Option.ite_none_right_eq_some.mp heq
      obtain rfl := Option.some.inj heq
      exact balanced_unlockYield h h' hplace (by simp) (by simp)
  | endBody w e =>
      obtain ⟨⟨u, rest⟩, hend, rfl⟩ := Option.map_eq_some_iff.mp hstep
      rw [submits, hend]
      exact balanced_endBody h hend rfl h' hord
  | attach p =>
      obtain ⟨-, heq⟩ := Option.ite_none_right_eq_some.mp hstep
      obtain rfl := Option.some.inj heq
      have hdead : s.place s.jobs = .dead := (h.noJob s.jobs (Nat.le_refl _)).place
      have hempty : s.slot s.workers = none := (h.noWorker s.workers (Nat.le_refl _)).slot
      exact .of_outside h h' s.jobs .running
        (slot_keep (s := s.setJob s.jobs ⟨p, false, some s.workers, 0, .running, 0⟩) hempty.symm)
        (fun y => place_setJob y) (fun ht => by simp [ht, hdead]) (by simp)
  | detach w =>
      rw [step] at hstep
      dsimp only at hstep
      split at hstep
      case h_2 => cases hstep
      case h_1 u hstack =>
        obtain ⟨⟨hpc, -⟩, heq⟩ := Option.ite_none_right_eq_some.mp hstep
        split at heq
        case h_1 r hslot =>
          obtain rfl := Option.some.inj heq
          exact balanced_dropSlot h h' hslot (by simp [slot_schedulerSubmit]) (fun x => place_schedulerSubmit x) hord
        case h_2 =>
          obtain rfl := Option.some.inj heq
          exact balanced_detach h hstack hpc rfl h' hord
  | unregister w =>
      obtain ⟨-, heq⟩ := Option.ite_none_right_eq_some.mp hstep
      obtain rfl := Option.some.inj heq
      exact .of_quiet h h' (by simp) rfl
  | register p =>
      obtain ⟨-, heq⟩ := Option.ite_none_right_eq_some.mp hstep
      obtain rfl := Option.some.inj heq
      exact .of_quiet h h' (fun _ => rfl) rfl
  | main p => exact balanced_mainStep h hstep h'
  | delegate p => exact balanced_delegateStep h hstep h'
  | release p =>
      obtain ⟨-, heq⟩ := Option.ite_none_right_eq_some.mp hstep
      obtain rfl := Option.some.inj heq
      exact .of_quiet h h' (fun _ => rfl) rfl
  | go w => exact balanced_go h hstep h' hord

/-! ## Tasks keep their kind -/

theorem parallel_setJob (hj : j.parallel = (s.job u).parallel) (t : TaskId) :
    ((s.setJob u j).job t).parallel = (s.job t).parallel := by
  by_cases ht : t = u
  · subst ht
    simpa [Crew.setJob] using hj
  · simp [Crew.setJob, ht]

theorem parallel_schedulerGet (hget : s.schedulerGet u = some s') (t : TaskId) :
    (s'.job t).parallel = (s.job t).parallel := by
  rw [schedulerGet] at hget
  split at hget
  · obtain ⟨-, heq⟩ := Option.ite_none_right_eq_some.mp hget
    obtain rfl := Option.some.inj heq
    exact parallel_setJob (by rfl) t
  · obtain ⟨-, heq⟩ := Option.ite_none_right_eq_some.mp hget
    obtain rfl := Option.some.inj heq
    exact parallel_setJob (by rfl) t

theorem parallel_taskExecute (t : TaskId) : ((s.taskExecute w u).job t).parallel = (s.job t).parallel := by
  refine parallel_setJob ?_ t
  split <;> rfl

theorem parallel_workerYield (t : TaskId) : ((s.workerYield w).job t).parallel = (s.job t).parallel := by
  rw [Crew.workerYield]
  split <;> rfl

theorem parallel_dispatch {a : After} {busy : Bool} (t : TaskId) :
    ((s.dispatch w a u busy).job t).parallel = (s.job t).parallel := by
  rw [dispatch]
  dsimp only
  split
  · have hset := parallel_setJob (s := s) (j := { s.job u with place := .running }) (u := u) rfl t
    cases busy <;> exact hset
  · split
    · cases busy <;> rfl
    · cases busy
      · exact parallel_taskExecute t
      · rfl

theorem parallel_handStep {a : After} {c : Cpu} {k : Hand} (hstep : s.handStep w a c k = some s') (t : TaskId) :
    (s'.job t).parallel = (s.job t).parallel := by
  cases k with
  | submitSelf =>
      rw [Crew.handStep] at hstep
      split at hstep
      · obtain rfl := Option.some.inj hstep
        exact parallel_setJob (by rfl) t
      · cases hstep
  | dispatch =>
      obtain rfl := Option.some.inj hstep
      exact parallel_dispatch t
  | wakeIdle =>
      rw [handStep] at hstep
      obtain ⟨-, hstep⟩ := Option.ite_none_right_eq_some.mp hstep
      split at hstep <;> obtain rfl := Option.some.inj hstep <;> rfl
  | setPid v =>
      obtain rfl := Option.some.inj hstep
      by_cases hpid : (s.worker v).pid ≠ (s.worker w).pid
      · rw [if_pos hpid]
        rfl
      · rw [if_neg hpid]
        rfl
  | transfer | give | newCpu | signal | create | spawn | put =>
      obtain rfl := Option.some.inj hstep
      rfl

theorem parallel_closingStep {c : Cpu} {k : Closing} (hstep : s.closingStep w c k = some s') (t : TaskId) :
    (s'.job t).parallel = (s.job t).parallel := by
  cases k with
  | list | join =>
      obtain rfl := Option.some.inj hstep
      rfl
  | pop | check =>
      rw [closingStep] at hstep
      split at hstep <;> obtain rfl := Option.some.inj hstep <;> rfl
  | transfer =>
      rw [closingStep] at hstep
      obtain ⟨-, hstep⟩ := Option.ite_none_right_eq_some.mp hstep
      split at hstep <;> obtain rfl := Option.some.inj hstep <;> rfl

theorem parallel_killerStep {k : Killer} (hstep : s.killerStep w k = some s') (t : TaskId) :
    (s'.job t).parallel = (s.job t).parallel := by
  cases k with
  | leader | putShutdown | setSignal =>
      obtain rfl := Option.some.inj hstep
      rfl
  | done => cases hstep

theorem parallel_go (hstep : s.go w = some s') (t : TaskId) : (s'.job t).parallel = (s.job t).parallel := by
  rw [go] at hstep
  split at hstep
  case h_1 | h_2 | h_9 =>
    obtain rfl := Option.some.inj hstep
    rfl
  case h_3 =>
    split at hstep
    · obtain rfl := Option.some.inj hstep
      rfl
    · cases hstep
  case h_4 =>
    split at hstep
    · obtain rfl := Option.some.inj hstep
      exact parallel_setJob (by rfl) t
    · cases hstep
  case h_5 =>
    obtain ⟨-, hstep⟩ := Option.ite_none_right_eq_some.mp hstep
    obtain rfl := Option.some.inj hstep
    rfl
  case h_6 =>
    obtain ⟨c, -, hstep⟩ := Option.bind_eq_some_iff.mp hstep
    exact parallel_handStep hstep t
  case h_7 =>
    obtain ⟨c, -, hstep⟩ := Option.bind_eq_some_iff.mp hstep
    exact parallel_closingStep hstep t
  case h_8 => exact parallel_killerStep hstep t
  case h_10 | h_11 | h_12 => cases hstep

theorem parallel_mainStep (hstep : s.mainStep cpus p = some s') (t : TaskId) :
    (s'.job t).parallel = (s.job t).parallel := by
  rw [Crew.mainStep] at hstep
  dsimp only at hstep
  split at hstep
  · split at hstep <;> obtain rfl := Option.some.inj hstep <;> rfl
  · obtain rfl := Option.some.inj hstep
    rfl
  · obtain rfl := Option.some.inj hstep
    rfl
  · cases hstep
  · cases hstep

theorem parallel_delegateStep (hstep : s.delegateStep p = some s') (t : TaskId) :
    (s'.job t).parallel = (s.job t).parallel := by
  rw [Crew.delegateStep] at hstep
  dsimp only at hstep
  split at hstep
  · split at hstep
    · obtain rfl := Option.some.inj hstep
      rfl
    · obtain rfl := Option.some.inj hstep
      rfl
    · cases hstep
  · obtain rfl := Option.some.inj hstep
    rfl
  · obtain rfl := Option.some.inj hstep
    rfl
  · cases hstep

/-- A task that exists is ordinary, or parallel, for good. -/
theorem parallel_step (hstep : s.step cpus hcpus m = some s') (hborn : t < s.jobs) :
    (s'.job t).parallel = (s.job t).parallel := by
  have hnew : ∀ j, ((s.setJob s.jobs j).job t).parallel = (s.job t).parallel := fun j => by
    simp [Crew.setJob, Nat.ne_of_lt hborn]
  cases m with
  | create p parallel =>
      obtain rfl := Option.some.inj hstep
      exact hnew _
  | submit u n =>
      obtain ⟨-, heq⟩ := Option.ite_none_right_eq_some.mp hstep
      obtain rfl := Option.some.inj heq
      rw [nosvSubmit]
      dsimp only
      split
      · refine parallel_setJob ?_ t
        split <;> rfl
      · exact parallel_setJob (by rfl) t
  | submitImmediate w u =>
      obtain ⟨-, heq⟩ := Option.ite_none_right_eq_some.mp hstep
      split at heq
      · obtain rfl := Option.some.inj heq
        have hclear : ∀ v, ((match (s.worker w).immediateSuccessor with
            | some r => s.schedulerSubmit r
            | none => s).job v).parallel = (s.job v).parallel := fun v => by
          split
          · exact parallel_setJob (by rfl) v
          · rfl
        refine (parallel_setJob ?_ t).trans (hclear t)
        exact (hclear u).symm
      · obtain rfl := Option.some.inj heq
        exact parallel_setJob (by rfl) t
  | submitInline w u =>
      obtain ⟨-, heq⟩ := Option.ite_none_right_eq_some.mp hstep
      obtain rfl := Option.some.inj heq
      exact (parallel_taskExecute t).trans (parallel_setJob (by rfl) t)
  | resume u =>
      obtain ⟨-, heq⟩ := Option.ite_none_right_eq_some.mp hstep
      obtain rfl := Option.some.inj heq
      exact parallel_setJob (by rfl) t
  | get w o =>
      obtain ⟨-, heq⟩ := Option.ite_none_right_eq_some.mp hstep
      cases o with
      | some u =>
          obtain ⟨s₁, hget, rfl⟩ := Option.map_eq_some_iff.mp heq
          exact parallel_schedulerGet hget t
      | none =>
          obtain rfl := Option.some.inj heq
          rfl
  | immediate w o =>
      obtain ⟨-, heq⟩ := Option.ite_none_right_eq_some.mp hstep
      split at heq
      · obtain rfl := Option.some.inj heq
        rfl
      · obtain ⟨s₁, hget, rfl⟩ := Option.map_eq_some_iff.mp heq
        exact (parallel_setJob (by rfl) t).trans (parallel_schedulerGet hget t)
      · cases heq
  | pause w =>
      obtain ⟨u, -, rfl⟩ := Option.map_eq_some_iff.mp hstep
      dsimp only
      split
      · exact (parallel_workerYield t).trans (parallel_setJob (by rfl) t)
      · exact parallel_setJob (by rfl) t
  | waitfor w | wait w =>
      obtain ⟨u, -, rfl⟩ := Option.map_eq_some_iff.mp hstep
      exact (parallel_workerYield t).trans (parallel_setJob (by rfl) t)
  | yield w o =>
      obtain ⟨r, -, heq⟩ := Option.bind_eq_some_iff.mp hstep
      split at heq
      · obtain rfl := Option.some.inj heq
        rfl
      · obtain ⟨s₁, hget, rfl⟩ := Option.map_eq_some_iff.mp heq
        exact parallel_schedulerGet hget t
      · cases heq
  | unlockYield w u =>
      obtain ⟨r, -, heq⟩ := Option.bind_eq_some_iff.mp hstep
      obtain ⟨-, heq⟩ := Option.ite_none_right_eq_some.mp heq
      obtain rfl := Option.some.inj heq
      exact parallel_setJob (by rfl) t
  | endBody w e =>
      obtain ⟨⟨u, rest⟩, -, rfl⟩ := Option.map_eq_some_iff.mp hstep
      exact parallel_setJob (taskEnds_ident (s.job u) e).1 t
  | attach p =>
      obtain ⟨-, heq⟩ := Option.ite_none_right_eq_some.mp hstep
      obtain rfl := Option.some.inj heq
      exact hnew _
  | detach w =>
      rw [step] at hstep
      split at hstep
      · obtain ⟨-, heq⟩ := Option.ite_none_right_eq_some.mp hstep
        split at heq
        · obtain rfl := Option.some.inj heq
          exact parallel_setJob (by rfl) t
        · obtain rfl := Option.some.inj heq
          exact parallel_setJob (by rfl) t
      · cases hstep
  | unregister | register | release =>
      obtain ⟨-, heq⟩ := Option.ite_none_right_eq_some.mp hstep
      obtain rfl := Option.some.inj heq
      rfl
  | main p => exact parallel_mainStep hstep t
  | delegate p => exact parallel_delegateStep hstep t
  | go w => exact parallel_go hstep t

/-! ## Runs -/

theorem ordinary_back (h : s.Sound) (hstep : s.step cpus hcpus m = some s') (hord : (s'.job t).parallel = false) :
    (s.job t).parallel = false := by
  by_cases hborn : t < s.jobs
  · rw [← parallel_step hstep hborn]
    exact hord
  · exact (h.noJob t (Nat.le_of_not_lt hborn)).parallel

/-- What holds in every state of a run -/
structure Reached (s : Crew) : Prop where
  sound : s.Sound
  slots : s.OrdinarySlots

theorem reached_init : (init cpus hcpus).Reached := ⟨sound_init, fun _ _ hslot => nomatch hslot⟩

/-- `nosv_submit` keeps parallel tasks out of the slots. -/
theorem fills_ordinary (hstep : s.step cpus hcpus m = some s') (hfill : s.fills m = some t) :
    t < s.jobs ∧ (s.job t).parallel = false := by
  unfold fills at hfill
  split at hfill
  case h_2 => cases hfill
  case h_1 w u =>
    obtain ⟨-, heq⟩ := Option.ite_none_right_eq_some.mp hfill
    obtain rfl := Option.some.inj heq
    obtain ⟨⟨hsub, -, hpar⟩, -⟩ := Option.ite_none_right_eq_some.mp hstep
    exact ⟨hsub.1, hpar⟩

theorem reached_step (h : s.Reached) (hfits : s.Fitting m) (hstep : s.step cpus hcpus m = some s') :
    s'.Reached := by
  obtain ⟨hsound, hslots⟩ := h
  refine ⟨sound_step hsound hslots hfits hstep, fun w t hslot => ?_⟩
  have hbal := balanced_step hsound hslots hfits hstep (hsound.noJob s.jobs (Nat.le_refl _)).parallel
  have hord : t < s.jobs ∧ (s.job t).parallel = false := by
    rcases hbal.slots w t hslot with hold | hnew
    · have hpar := hslots w t hold
      have hflight : (s.job t).place = .flight := (hsound.slot_flight hold hpar).1
      exact ⟨hsound.jobBorn (by simp [hflight]), hpar⟩
    · exact fills_ordinary hstep hnew
  rw [parallel_step hstep hord.1]
  exact hord.2

theorem reached_run {ms : List CrewMove} (hfits : Run.Along (step cpus hcpus) Fitting s ms)
    (hrun : Run.run (step cpus hcpus) s ms = some s') (h : s.Reached) : s'.Reached :=
  Run.invariant_along (fun _ _ _ hfits hstep hr => reached_step hr hfits hstep) hfits hrun h

/-- How often the event has happened to the task in a run. -/
def times (cpus : Nat) (hcpus : 0 < cpus) (e : Crew → CrewMove → Option TaskId) (t : TaskId) :
    Crew → List CrewMove → Nat :=
  Run.tally (step cpus hcpus) fun s m => event (e s m) t

def inHand (s : Crew) (t : TaskId) : Nat := if s.Handed t then 1 else 0

theorem inHand_add (h : s.Sound) (hord : (s.job t).parallel = false) :
    s.inHand t + s.inSlot t = s.inFlight t := by
  rw [inHand, inSlot, inFlight]
  by_cases hin : s.Slotted t
  · obtain ⟨w, hw⟩ := (slotted_iff h).mp hin
    have hflight := (h.slot_flight hw hord).1
    rw [if_neg fun hand => hand.2 hin, if_pos hin, if_pos hflight]
  · rw [if_neg hin]
    exact if_congr ⟨fun hand => hand.1, fun hflight => ⟨hflight, hin⟩⟩ rfl rfl

/-- The account of a run. -/
theorem balanced_run {ms : List CrewMove} (h : s.Reached)
    (hfits : Run.Along (step cpus hcpus) Fitting s ms) (hrun : Run.run (step cpus hcpus) s ms = some s')
    (hord : (s'.job t).parallel = false) :
    s'.inScheduler t + s'.inSlot t + times cpus hcpus handsOver t s ms
        = s.inScheduler t + s.inSlot t + times cpus hcpus submits t s ms
      ∧ s'.inHand t + times cpus hcpus executes t s ms = s.inHand t + times cpus hcpus handsOver t s ms := by
  have hkeep : ∀ s m s', Fitting s m → step cpus hcpus s m = some s' → Reached s → Reached s' :=
    fun _ _ _ hfits hstep hr => reached_step hr hfits hstep
  obtain ⟨-, hfinal⟩ := Run.along_of_final (P := fun s => (s.job t).parallel = false) hkeep
    (fun s m s' hstep hr => ordinary_back hr.sound hstep) hfits hrun h hord
  have halong := hfits.and hfinal
  constructor
  · refine Run.tally_account (fun s => s.inScheduler t + s.inSlot t)
      (fun s m s' hC => hkeep s m s' hC.1) (fun s m s' hC hstep hr => ?_) halong hrun h
    exact (balanced_step hr.sound hr.slots hC.1 hstep hC.2.1).held
  · refine Run.tally_account (fun s => s.inHand t) (fun s m s' hC => hkeep s m s' hC.1)
      (fun s m s' hC hstep hr => ?_) halong hrun h
    have hbal := (balanced_step hr.sound hr.slots hC.1 hstep hC.2.1).handed
    have hhand := inHand_add hr.sound hC.2.1
    have hhand' := inHand_add (reached_step hr hC.1 hstep).sound (hC.2.2 s' hstep)
    omega

/-! ## Successors are conserved -/

/-- Each task in a slot is in no other one, and nowhere else. A task that
has been submitted is held until it is handed over, once, and then it is
with a thread until it is executed, once. -/
structure Conserved (cpus : Nat) (hcpus : 0 < cpus) (ms : List CrewMove) (s : Crew) : Prop where
  slot : ∀ w t, s.slot w = some t → (s.job t).parallel = false ∧ s.place t ≠ .ready ∧ ¬ s.Handed t
    ∧ ∀ v, s.slot v = some t → v = w
  handedOver : ∀ t, (s.job t).parallel = false →
    times cpus hcpus handsOver t (init cpus hcpus) ms + (if s.Held t then 1 else 0)
      = times cpus hcpus submits t (init cpus hcpus) ms
  executed : ∀ t, (s.job t).parallel = false →
    times cpus hcpus executes t (init cpus hcpus) ms + (if s.Handed t then 1 else 0)
      = times cpus hcpus handsOver t (init cpus hcpus) ms
  idle : ∀ p, ∀ w ∈ (s.process p).idleThreads, s.slot w = none

/-- The task is neither submitted nor executing. -/
def Completed (s : Crew) (t : TaskId) : Prop := s.place t = .rest ∨ s.place t = .dead

theorem held_count (h : s.Sound) (hord : (s.job t).parallel = false) :
    s.inScheduler t + s.inSlot t = if s.Held t then 1 else 0 := by
  rw [inScheduler, inSlot]
  by_cases hin : s.Slotted t
  · obtain ⟨w, hw⟩ := (slotted_iff h).mp hin
    have hready : s.place t ≠ .ready := by simp [(h.slot_flight hw hord).1]
    rw [if_neg hready, if_pos hin, if_pos (show s.Held t from Or.inr hin)]
  · rw [if_neg hin]
    exact if_congr ⟨Or.inl, fun hheld => hheld.resolve_right hin⟩ rfl rfl

theorem conserved_run {ms : List CrewMove} (hfits : Run.Along (step cpus hcpus) Fitting (init cpus hcpus) ms)
    (hrun : Run.run (step cpus hcpus) (init cpus hcpus) ms = some s) : Conserved cpus hcpus ms s := by
  have hreached := reached_run hfits hrun reached_init
  have hsound := hreached.sound
  refine ⟨fun w t hslot => ?_, fun t hord => ?_, fun t hord => ?_, fun p w hw => ?_⟩
  · have hord := hreached.slots w t hslot
    obtain ⟨hflight, huniq⟩ := hsound.slot_flight hslot hord
    exact ⟨hord, by simp [hflight], fun hand => hand.2 ((slotted_iff hsound).mpr ⟨w, hslot⟩), huniq⟩
  · have hbal := (balanced_run reached_init hfits hrun hord).1
    have hzero : (init cpus hcpus).inScheduler t + (init cpus hcpus).inSlot t = 0 := by
      rw [held_count sound_init (by rfl)]
      exact if_neg (by simp [Held, Slotted, place, init])
    rw [← held_count hsound hord]
    omega
  · have hbal := (balanced_run reached_init hfits hrun hord).2
    have hzero : (init cpus hcpus).inHand t = 0 := if_neg (by simp [Handed, place, init])
    rw [inHand] at hbal
    omega
  · exact ((hsound.process p).idle w hw).slot

/-- A slot is filled by a submission only. -/
theorem slots_stay {ms : List CrewMove} (h : s.Reached)
    (hfits : Run.Along (step cpus hcpus) Fitting s ms) (hrun : Run.run (step cpus hcpus) s ms = some s')
    (hms : ∀ m ∈ ms, ∀ w t, m ≠ .submitImmediate w t) (hempty : ∀ w, s.slot w = none) :
    ∀ w, s'.slot w = none := by
  have hinv : s'.Reached ∧ ∀ w, s'.slot w = none := by
    refine Run.invariant_along (C := fun s m => s.Fitting m ∧ ∀ w t, m ≠ .submitImmediate w t)
      (I := fun s => s.Reached ∧ ∀ w, s.slot w = none) (fun s m s' hC hstep hI => ?_)
      (hfits.and (Run.along_of_forall_mem fun m hm _ => hms m hm)) hrun ⟨h, hempty⟩
    refine ⟨reached_step hI.1 hC.1 hstep, fun w => ?_⟩
    have hbal := balanced_step hI.1.sound hI.1.slots hC.1 hstep
      (hI.1.sound.noJob s.jobs (Nat.le_refl _)).parallel
    have hfills : s.fills m = none := by
      cases m with
      | submitImmediate v u => exact absurd rfl (hC.2 v u)
      | _ => rfl
    cases hslot : s'.slot w with
    | none => rfl
    | some u =>
        rcases hbal.slots w u hslot with hold | hnew
        · rw [hI.2 w] at hold
          cases hold
        · rw [hfills] at hnew
          cases hnew
  exact hinv.2

/-- Immediate successors are conserved in every run in which no blocking
count of an ordinary task wraps around, and when all tasks have completed and
nothing more is put into a slot, a worker that has left its loop has none. -/
theorem immediate_successors {ms ms' : List CrewMove}
    (hfits : Run.Along (step cpus hcpus) Fitting (init cpus hcpus) ms)
    (hfits' : Run.Along (step cpus hcpus) Fitting s ms')
    (hrun : Run.run (step cpus hcpus) (init cpus hcpus) ms = some s)
    (hrun' : Run.run (step cpus hcpus) s ms' = some s') :
    Conserved cpus hcpus ms s
      ∧ ((∀ t, (s.job t).parallel = false → s.Completed t) → (∀ m ∈ ms', ∀ w t, m ≠ .submitImmediate w t) →
          ∀ w, (s'.worker w).pc = .closing .list → s'.slot w = none) := by
  refine ⟨conserved_run hfits hrun, fun hcompleted hms' w _ => ?_⟩
  have hreached := reached_run hfits hrun reached_init
  refine slots_stay hreached hfits' hrun' hms' (fun v => ?_) w
  cases hslot : s.slot v with
  | none => rfl
  | some t =>
      have hord := hreached.slots v t hslot
      have hflight := (hreached.sound.slot_flight hslot hord).1
      rcases hcompleted t hord with hrest | hdead
      · rw [hflight] at hrest
        cases hrest
      · rw [hflight] at hdead
        cases hdead

/-- A thread attaches, submits a task as its immediate successor, and
detaches; the task is executed by a worker. -/
def attachRun : List CrewMove :=
  [.register 0, .main 0, .main 0, .main 0, .main 0, .attach 0, .go 1, .go 0, .go 0, .get 0 (some 0), .go 0, .go 0,
    .go 0, .go 0, .go 1, .create 0 false, .submitImmediate 1 1, .detach 1, .detach 1, .go 1, .go 1, .go 1, .go 1,
    .go 1, .go 0, .go 0, .get 0 (some 1), .go 0, .endBody 0 .ends]

/-- The killer task ends the process. -/
def shutdownRun : List CrewMove :=
  [.create 0 false, .submit 2 0, .go 0, .get 0 (some 2), .go 0, .unregister 0, .go 0, .go 0, .go 0, .endBody 0 .ends,
    .go 0]

theorem immediate_successors_attached :
    ∃ s s', Run.run (step 1 Nat.one_pos) (init 1 Nat.one_pos) attachRun = some s
      ∧ Run.run (step 1 Nat.one_pos) s shutdownRun = some s' ∧ Conserved 1 Nat.one_pos attachRun s
      ∧ (s'.worker 0).pc = .closing .list ∧ s'.slot 0 = none
      ∧ times 1 Nat.one_pos handsOver 1 (init 1 Nat.one_pos) attachRun = 1 := by
  have hran : ((Run.run (step 1 Nat.one_pos) (init 1 Nat.one_pos) attachRun).bind fun s =>
      (Run.run (step 1 Nat.one_pos) s shutdownRun).map fun s' => (s.jobs, s.job 0, s.job 1, (s'.worker 0).pc))
      = some (2, ⟨0, false, none, 0, .dead, 0⟩, ⟨0, false, none, 1, .rest, 0⟩, .closing .list) := by decide +kernel
  obtain ⟨s, hs, hran⟩ := Option.bind_eq_some_iff.mp hran
  obtain ⟨s', hs', heq⟩ := Option.map_eq_some_iff.mp hran
  obtain ⟨hjobs, hjob, hjob', hpc⟩ : s.jobs = 2 ∧ s.job 0 = ⟨0, false, none, 0, .dead, 0⟩
      ∧ s.job 1 = ⟨0, false, none, 1, .rest, 0⟩ ∧ (s'.worker 0).pc = .closing .list := by
    simpa using heq
  have hfits : Run.Along (step 1 Nat.one_pos) Fitting (init 1 Nat.one_pos) attachRun := by decide +kernel
  have hfits' : Run.Along (step 1 Nat.one_pos) Fitting s shutdownRun := by
    have hboth : Run.Along (step 1 Nat.one_pos) Fitting (init 1 Nat.one_pos) (attachRun ++ shutdownRun) := by
      decide +kernel
    exact Run.along_append hs hboth
  have hcompleted : ∀ t, (s.job t).parallel = false → s.Completed t := by
    intro t _
    by_cases hborn : t < 2
    · rcases Nat.lt_succ_iff.mp hborn with _ | hle
      · exact Or.inl (congrArg Job.place hjob')
      · obtain rfl := Nat.le_zero.mp hle
        exact Or.inr (congrArg Job.place hjob)
    · exact Or.inr ((reached_run hfits hs reached_init).sound.noJob t (hjobs ▸ Nat.le_of_not_lt hborn)).place
  have hms' : ∀ m ∈ shutdownRun, ∀ w t, m ≠ .submitImmediate w t := by
    intro m hm w t heq
    rw [heq] at hm
    simp [shutdownRun] at hm
  obtain ⟨hconserved, hslot⟩ := immediate_successors hfits hfits' hs hs'
  exact ⟨s, s', hs, hs', hconserved, hpc, hslot hcompleted hms' 0 hpc, by decide +kernel⟩

/-! ## Too many submissions -/

/-- Task `t` has been submitted `n` more times than once. -/
def counted (s : Crew) (t : TaskId) (n : Nat) : Crew := s.setJob t { s.job t with count := i32 (-n) }

theorem submittable_counted (hsub : s.Submittable t) (n : Nat) : (s.counted t n).Submittable t := by
  refine ⟨hsub.1, ?_⟩
  simp only [counted, Crew.setJob, Function.update_self]
  exact hsub.2

theorem step_counted (hsub : s.Submittable t) (n : Nat) (hn : n < 4294967295) :
    (s.counted t n).step cpus hcpus (.submit t 0) = some (s.counted t (n + 1)) := by
  have hne : i32 (-(n + 1 : Nat)) ≠ 0 := i32_neg_ne_zero (Nat.succ_pos n) (by omega)
  refine (if_pos (submittable_counted hsub n)).trans (congrArg some ?_)
  simp only [counted, Crew.nosvSubmit, Crew.setJob, Function.update_self, Function.update_idem,
    countDown_i32_neg, if_neg hne]

/-- The submissions that do not wrap the count around once -/
theorem run_counted (hsub : s.Submittable t) (hzero : (s.job t).count = 0) {n : Nat} (hlt : n < 4294967296)
    (ms : List CrewMove) :
    Run.run (step cpus hcpus) s (List.replicate n (.submit t 0) ++ ms)
      = Run.run (step cpus hcpus) (s.counted t n) ms := by
  have hstart : s.counted t 0 = s := by
    have hjob : ({ s.job t with count := i32 (-(0 : Nat)) } : Job) = s.job t := by
      rw [show i32 (-(0 : Nat)) = (s.job t).count from hzero.symm]
    rw [counted, hjob, Crew.setJob, Function.update_eq_self]
  have hstep : ∀ k < 4294967295,
      (s.counted t k).step cpus hcpus (.submit t 0) = some (s.counted t (k + 1)) := step_counted hsub
  have hrun := Run.run_replicate hstep ms (m := n) (n := 0) (by omega)
  rwa [hstart, Nat.zero_add] at hrun

/-- A task in a slot that is submitted `2 ^ 32` more times is in the
scheduler as well. -/
theorem successor_pushed :
    ¬ ∀ (cpus : Nat) (hcpus : 0 < cpus) (ms ms' : List CrewMove) (s s' : Crew),
      Run.run (step cpus hcpus) (init cpus hcpus) ms = some s → Run.run (step cpus hcpus) s ms' = some s' →
      Conserved cpus hcpus ms s
        ∧ ((∀ t, (s.job t).parallel = false → s.Completed t) →
            (∀ m ∈ ms', ∀ w t, m ≠ .submitImmediate w t) →
            ∀ w, (s'.worker w).pc = .closing .list → s'.slot w = none) := by
  intro hall
  have hran : (Run.run (step 1 Nat.one_pos) (init 1 Nat.one_pos) (attachRun.take 17)).map
      (fun s => (s.slot 1, s.jobs, s.job 1)) = some (some 1, 2, ⟨0, false, none, 0, .flight, 0⟩) := by
    decide +kernel
  obtain ⟨s, hs, heq⟩ := Option.map_eq_some_iff.mp hran
  simp only [Prod.mk.injEq] at heq
  obtain ⟨hslot, hjobs, hjob⟩ := heq
  have hsub : s.Submittable 1 := by simp [Submittable, hjobs, hjob]
  have hrun := (Run.run_append (List.replicate 4294967295 (.submit 1 0) ++ [.submit 1 0]) hs).trans
    (run_counted hsub (by rw [hjob]) (by decide) _)
  have hzero : countDown (i32 (-(4294967295 : Nat))) = 0 := by decide +kernel
  have hlast : Run.run (step 1 Nat.one_pos) (s.counted 1 4294967295) [.submit 1 0]
      = some ((s.counted 1 4294967295).nosvSubmit 1 0) := by
    simp only [Run.run, step, if_pos (submittable_counted hsub _)]
  obtain ⟨hconserved, -⟩ := hall 1 Nat.one_pos _ [] _ _ (hrun.trans hlast) rfl
  refine (hconserved.slot 1 1 ?_).2.1 ?_
  · simp only [Crew.nosvSubmit, counted, Crew.setJob, Function.update_self, hzero, if_true]
    exact hslot
  · simp only [Crew.nosvSubmit, counted, Crew.setJob, Function.update_self, hzero, if_true, place, hjob,
      Bool.false_eq_true, if_false]

end Crew

end Nosv
