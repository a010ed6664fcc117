import Nosv.DeadlineMoves

/-!
# Early wake-ups are not lost

The invariant through every step of the waiters, the wakers and the
server, and what follows for every run.
-/

namespace Nosv

open Run RBTree Places

namespace Waits

variable {s s' : Waits} {t : TaskId}

/-! ## The waiter -/

/-- A step of the waiter: its task moves outside the containers of the
scheduler. -/
theorem Inv.put {k : Task} {pl : WaitPlace} {e : Bool} (h : s.Inv)
    (hfrom : s.place t ≠ .stored ∧ s.place t ≠ .held ∧ s.place t ≠ .ready)
    (hto : pl ≠ .stored ∧ pl ≠ .held ∧ pl ≠ .ready) (hpid : k.pid = s.pid t) (hok : pl.Ok k)
    (hearly : e = true → k.deadlineState = .ready) : (s.put t k pl e).Inv := by
  have hm : Moved s (s.put t k pl e) t pl := by
    refine ⟨rfl, fun u hu => ⟨Function.update_of_ne hu .., Function.update_of_ne hu ..⟩, ?_, rfl,
      Or.inr (Or.inr ⟨hfrom.1, hto.1, rfl⟩), Or.inr (Or.inr ⟨hfrom.2.2, hto.2.2, rfl⟩),
      Or.inr (Or.inr ⟨hfrom.2.1, hto.2.1, rfl⟩)⟩
    simp only [pid, Waits.put, Function.update_self]
    exact hpid
  have hs' : (s.put t k pl e).Placing := by
    refine hm.placing h.placing ?_ (fun hpl => absurd hpl hto.1) fun he => ⟨?_, hto.1, fun hpl =>
      absurd hpl hto.2.1⟩
    · simpa only [Waits.put, Function.update_self] using hok
    · simp only [Waits.put, Function.update_self, state] at he ⊢
      exact hearly he
  exact h.quiet hm hs' ⟨rfl, rfl, rfl, rfl⟩ rfl ⟨hfrom.1, hfrom.2.1⟩ ⟨hto.1, hto.2.1⟩ rfl

theorem Inv.waitfor {startTime timeout : Nat} (h : s.Inv) (hp : s.place t = .running)
    (hdeadline : u64 (startTime + timeout) ≠ 0) :
    (s.put t ((s.task t).casDeadline startTime timeout).2
      (if ((s.task t).casDeadline startTime timeout).1 then .submitting else .lapsing)
      (s.early t)).Inv := by
  have hok := h.placing.placeOk t
  rw [hp] at hok
  have hearly := h.placing.early t
  have hfrom : s.place t ≠ .stored ∧ s.place t ≠ .held ∧ s.place t ≠ .ready := by simp [hp]
  unfold Task.casDeadline
  by_cases hnone : (s.task t).deadlineState = .none
  · simp only [hnone, if_true]
    refine h.put hfrom (by decide) rfl ⟨hdeadline, Or.inl rfl⟩ fun he => ?_
    have := (hearly he).1
    rw [state, hnone] at this
    cases this
  · simp only [hnone, if_false, Bool.false_eq_true]
    have hready := hok.2.resolve_left hnone
    exact h.put hfrom (by decide) rfl hready fun _ => hready

/-! ## The wakers -/

theorem wake_state (u : TaskId) : (s.wake t).state u = if u = t then .ready else s.state u := by
  by_cases hu : u = t
  · subst hu
    simp [wake, put, state, Task.exchangeReady]
  · simp [wake, put, state, hu]

theorem wake_pid (u : TaskId) : (s.wake t).pid u = s.pid u := by
  by_cases hu : u = t
  · subst hu
    simp [wake, put, pid, Task.exchangeReady]
  · simp [wake, put, pid, hu]

theorem wake_place (u : TaskId) : (s.wake t).place u = s.place u := by
  simp [wake, put]

/-- A wake finds `NOSV_DEADLINE_WAITING` in a tree, or in the hands of the
server. -/
theorem Placing.waiting (h : s.Placing) (hstate : s.state t = .waiting) :
    s.place t = .stored ∨ s.place t = .held := by
  have hok := h.placeOk t
  unfold state at hstate
  cases hp : s.place t <;> simp [hp, WaitPlace.Ok, hstate] at hok ⊢

/-- A task with the server, or in a tree, is waiting or woken. -/
theorem Inv.inside (h : s.Inv) (ht : s.place t = .stored ∨ s.place t = .held) :
    s.state t = .waiting ∨ s.state t = .ready := by
  rcases ht with hin | hin
  · have hok := h.placing.placeOk t
    rw [hin] at hok
    exact hok
  · have hheld := (h.placing.held t).mp hin
    have hok := h.server
    unfold ServerOk at hok
    cases hsv : s.server with
    | idle | walking todo left count | purged count => simp [hsv, Server.held] at hheld
    | inserting u =>
        simp only [hsv, Server.held, Option.some.injEq] at hheld hok
        exact hheld ▸ hok.2
    | expiring u =>
        simp only [hsv, Server.held, Option.some.injEq] at hheld hok
        exact hheld ▸ hok
    | lapsed u =>
        simp only [hsv, Server.held, Option.some.injEq] at hheld hok
        exact Or.inr (hheld ▸ hok)
    | removing u todo left count =>
        simp only [hsv, Server.held, Option.some.injEq] at hheld hok
        exact Or.inr (hheld ▸ hok.1)

theorem Placing.wake (h : s.Placing)
    (hin : s.place t = .stored ∨ s.place t = .held → s.state t = .waiting ∨ s.state t = .ready) :
    (s.wake t).Placing where
  queues := h.queues
  nodup := h.nodup
  member := fun p u => by
    rw [wake_pid, wake_place]
    exact h.member p u
  scheduled := fun u hu => by
    rw [wake_place] at hu
    rw [wake_pid]
    exact h.scheduled u hu
  readyNodup := h.readyNodup
  ready := fun u => by
    rw [wake_place]
    exact h.ready u
  held := fun u => by
    rw [wake_place]
    exact h.held u
  placeOk := fun u => by
    rw [wake_place]
    have hok := h.placeOk u
    by_cases hu : u = t
    · subst hu
      simp only [Waits.wake, Waits.put, Function.update_self, Task.exchangeReady]
      cases hp : s.place u <;> simp_all [WaitPlace.Ok]
      all_goals omega
    · simpa only [Waits.wake, Waits.put, Function.update_of_ne hu] using hok
  early := fun u hu => by
    rw [wake_place, wake_state]
    by_cases hut : u = t
    · subst hut
      simp only [Waits.wake, Waits.put, Function.update_self, Bool.or_eq_true, beq_iff_eq] at hu
      refine ⟨if_pos rfl, ?_⟩
      rcases hu with (hu | hu) | hu
      · exact (h.early u hu).2
      all_goals
        have hout : ¬ (s.place u = .stored ∨ s.place u = .held) := fun hp => by
          rcases hin hp with hstate | hstate <;> rw [hstate] at hu <;> cases hu
        exact ⟨fun hp => hout (Or.inl hp), fun hp => absurd (Or.inr hp) hout⟩
    · simp only [Waits.wake, Waits.put, Function.update_of_ne hut] at hu
      rw [if_neg hut]
      exact h.early u hu

/-- The woken tasks in the trees are at most one more, and no more if no
request is going to follow. -/
theorem countStored_wake (h : s.Placing) (R : TaskId → Prop) [DecidablePred R] :
    (s.wake t).countStored (fun u => (s.wake t).state u = .ready ∧ R u)
      ≤ s.countStored (fun u => s.state u = .ready ∧ R u)
        + (if s.place t = .stored ∧ s.state t = .waiting then 1 else 0) := by
  have hsame : (s.wake t).countStored (fun u => (s.wake t).state u = .ready ∧ R u)
      = s.countStored (fun u => (s.wake t).state u = .ready ∧ R u) := rfl
  have hoff : ∀ u, u ≠ t →
      ((s.state u = .ready ∧ R u) ↔ ((s.wake t).state u = .ready ∧ R u)) := by
    intro u hu
    rw [wake_state, if_neg hu]
  rw [hsame]
  by_cases hnew : s.place t = .stored ∧ s.state t = .waiting ∧ R t
  · obtain ⟨hin, hwaiting, hR⟩ := hnew
    rw [countStored_update h hin (P := fun u => s.state u = .ready ∧ R u) (by simp [hwaiting])
      (by simp [wake_state, hR]) hoff, if_pos ⟨hin, hwaiting⟩]
  · rw [countStored_congr h (Q := fun u => s.state u = .ready ∧ R u)]
    · split <;> omega
    · intro u hin
      by_cases hu : u = t
      · subst hu
        rw [wake_state, if_pos rfl]
        have hok := h.placeOk u
        rw [hin] at hok
        rcases hok with hwaiting | hready
        · have hR : ¬ R u := fun hR => hnew ⟨hin, hwaiting, hR⟩
          simp [hR]
        · simp [state, hready]
      · exact (hoff u hu).symm

/-- What a wake adds to the wakers in transit. -/
theorem wake_transit_length :
    ((s.wake t).transit.length : Int)
      = s.transit.length + (if s.state t = .waiting then 1 else 0) := by
  unfold wake
  split <;> simp

theorem PurgeOk.wake {count : Nat} (h : s.PurgeOk count) : (s.wake t).PurgeOk count := by
  refine ⟨h.le, fun hcalm => ?_, fun u hu hin => ?_⟩
  · simp only [Waits.wake, Bool.and_eq_true, bne_iff_ne, ne_eq] at hcalm ⊢
    rw [if_neg hcalm.2]
    exact h.calm hcalm.1
  · rw [wake_state]
    split
    · rfl
    · rw [wake_place] at hin
      exact h.due u hu hin

theorem WalkOk.wake {todo : List TaskId} {left count : Nat} (h : s.WalkOk todo left count)
    (hs : s.Placing) : (s.wake t).WalkOk todo left count := by
  refine ⟨h.purge.wake, h.pos, h.le, h.nodup, fun u hu => ?_, ?_⟩
  · rw [wake_place]
    exact h.stored u hu
  · have hcount := countStored_wake (t := t) hs (fun u => u ∉ todo)
    have hvisited := h.visited
    have htransit := wake_transit_length (s := s) (t := t)
    have hpurge : (s.wake t).purge = s.purge := rfl
    rw [htransit, hpurge]
    split at hcount
    · rename_i hnew
      rw [if_pos hnew.2]
      omega
    · split <;> omega

theorem Inv.wake (h : s.Inv) : (s.wake t).Inv := by
  have hstate : ∀ u, s.state u = .ready → (s.wake t).state u = .ready := fun u hu => by
    rw [wake_state]
    split
    · rfl
    · exact hu
  have hinside : ∀ u, s.state u = .waiting ∨ s.state u = .ready →
      (s.wake t).state u = .waiting ∨ (s.wake t).state u = .ready := fun u hu => by
    rw [wake_state]
    split
    · exact Or.inr rfl
    · exact hu
  have hserver : (s.wake t).server = s.server := rfl
  refine ⟨h.placing.wake h.inside, ?_, h.tasks, ?_⟩
  · have hok := h.server
    unfold ServerOk at hok ⊢
    rw [hserver]
    cases hsv : s.server with
    | idle => trivial
    | inserting u =>
        simp only [hsv, wake_pid] at hok ⊢
        exact ⟨hok.1, hinside u hok.2⟩
    | expiring u =>
        simp only [hsv] at hok ⊢
        exact hinside u hok
    | lapsed u =>
        simp only [hsv] at hok ⊢
        exact hstate u hok
    | walking todo left count =>
        simp only [hsv] at hok ⊢
        exact hok.wake h.placing
    | removing u todo left count =>
        simp only [hsv] at hok ⊢
        exact ⟨hstate u hok.1, hok.2.wake h.placing⟩
    | purged count =>
        simp only [hsv] at hok ⊢
        exact hok.wake
  · -- a new woken task is in a tree or about to be inserted, not both
    have hcount := countStored_wake (t := t) h.placing (fun _ => True)
    simp only [and_true] at hcount
    have hcounted := h.counted
    have hpurge : (s.wake t).purge = s.purge := rfl
    rw [wake_transit_length, hpurge]
    unfold readyStored at hcounted ⊢
    by_cases hins : s.server = .inserting t
    · have hheld : s.place t = .held := (h.placing.held t).mpr (by rw [hins]; rfl)
      rw [if_neg (by simp [hheld])] at hcount
      have hstate' := h.inside (Or.inr hheld)
      simp only [owed, hserver, hins] at hcounted ⊢
      rw [wake_state, if_pos rfl, if_pos rfl]
      rcases hstate' with hw | hr
      · rw [if_neg (by simp [hw])] at hcounted
        rw [if_pos hw]
        omega
      · rw [if_pos hr] at hcounted
        rw [if_neg (by simp [hr])]
        omega
    · have howed : (s.wake t).owed = s.owed := by
        unfold owed
        rw [hserver]
        cases hsv : s.server with
        | inserting u =>
            simp only
            have hne : u ≠ t := by
              rintro rfl
              exact hins hsv
            rw [wake_state, if_neg hne]
        | _ => rfl
      rw [howed]
      split at hcount
      · rename_i hnew
        rw [if_pos hnew.2]
        omega
      · split <;> omega

theorem request_sum (ht : t ∈ s.transit) :
    ((s.request t).purge : Int) + (s.request t).transit.length = s.purge + s.transit.length := by
  have hpos := List.length_pos_of_mem ht
  simp only [request, List.length_erase_of_mem ht]
  omega

theorem PurgeOk.request {count : Nat} (h : s.PurgeOk count) (ht : t ∈ s.transit) :
    (s.request t).PurgeOk count := by
  refine ⟨Nat.le_succ_of_le h.le, fun hcalm => ?_, h.due⟩
  have hnil := (h.calm hcalm).1
  rw [hnil] at ht
  cases ht

theorem WalkOk.request {todo : List TaskId} {left count : Nat} (h : s.WalkOk todo left count)
    (ht : t ∈ s.transit) : (s.request t).WalkOk todo left count := by
  refine ⟨h.purge.request ht, h.pos, h.le, h.nodup, h.stored, ?_⟩
  rw [request_sum ht]
  exact h.visited

theorem Placing.request (h : s.Placing) : (s.request t).Placing :=
  ⟨h.queues, h.nodup, h.member, h.scheduled, h.readyNodup, h.ready, h.held, h.placeOk, h.early⟩

theorem Inv.request (h : s.Inv) (ht : t ∈ s.transit) : (s.request t).Inv := by
  refine ⟨h.placing.request, ?_, h.tasks, ?_⟩
  · have hserver : (s.request t).server = s.server := rfl
    have hok := h.server
    unfold ServerOk at hok ⊢
    rw [hserver]
    cases hsv : s.server with
    | idle => trivial
    | inserting u | expiring u | lapsed u =>
        simp only [hsv] at hok ⊢
        exact hok
    | walking todo left count =>
        simp only [hsv] at hok ⊢
        exact hok.request ht
    | removing u todo left count =>
        simp only [hsv] at hok ⊢
        exact ⟨hok.1, hok.2.request ht⟩
    | purged count =>
        simp only [hsv] at hok ⊢
        exact hok.request ht
  · rw [request_sum ht]
    exact h.counted

/-! ## The server: insertion, expiry and hand-out -/

theorem Inv.ensurePid (h : s.Inv) (hidle : s.server = .idle) (p : Nat) :
    (s.ensurePid p).Inv ∧ p ∈ (s.ensurePid p).queues := by
  unfold Waits.ensurePid
  by_cases hp : p ∈ s.queues
  · rw [if_pos hp]
    exact ⟨h, hp⟩
  · rw [if_neg hp]
    have hempty : s.stored p = 0 := by
      refine Multiset.eq_zero_of_forall_notMem fun u hu => hp ?_
      obtain ⟨hpid, hin⟩ := (h.placing.member p u).mp hu
      exact hpid ▸ h.placing.scheduled u hin
    have hcount : ∀ (P : TaskId → Prop) [DecidablePred P],
        countStored { s with queues := s.queues ++ [p] } P = s.countStored P := by
      intro P _
      have hset : (s.queues ++ [p]).toFinset = insert p s.queues.toFinset := by
        ext q
        simp
      unfold countStored
      rw [← weight_insert_empty (S := s.queues.toFinset) hempty, ← hset]
      rfl
    have hnodup : (s.queues ++ [p]).Nodup := by
      rw [List.nodup_append]
      refine ⟨h.placing.queues, List.nodup_singleton p, fun a ha b hb => ?_⟩
      rintro rfl
      exact hp (List.mem_singleton.mp hb ▸ ha)
    refine ⟨⟨⟨hnodup, h.placing.nodup, h.placing.member, fun u hu => ?_, h.placing.readyNodup,
      h.placing.ready, h.placing.held, h.placing.placeOk, h.placing.early⟩, ?_, ?_, ?_⟩,
      List.mem_append_right _ (List.mem_singleton_self p)⟩
    · exact List.mem_append_left _ (h.placing.scheduled u hu)
    · simp only [ServerOk, hidle]
    · rw [hcount]
      exact h.tasks
    · unfold readyStored
      rw [hcount]
      exact h.counted

theorem ensurePid_same (p : Nat) :
    (s.ensurePid p).task = s.task ∧ (s.ensurePid p).place = s.place
      ∧ (s.ensurePid p).server = s.server := by
  unfold ensurePid
  split <;> exact ⟨rfl, rfl, rfl⟩

theorem Inv.insertReady (h : s.Inv) (hp : s.place t = .queued)
    (hzero : (s.task t).deadline = 0) :
    Inv { s.put t (s.task t) .ready (s.early t) with ready := t :: s.ready, tasks := s.tasks + 1 } := by
  have hm : Moved s { s.put t (s.task t) .ready (s.early t) with
      ready := t :: s.ready, tasks := s.tasks + 1 } t .ready :=
    ⟨rfl, fun u hu => ⟨Function.update_of_ne hu .., Function.update_of_ne hu ..⟩,
      by simp [pid, Waits.put], rfl, Or.inr (Or.inr ⟨by simp [hp], by decide, rfl⟩),
      Or.inr (Or.inl ⟨by simp [hp], rfl, rfl⟩), Or.inr (Or.inr ⟨by simp [hp], by decide, rfl⟩)⟩
  have hs' := hm.placing h.placing ?_ (fun hpl => by cases hpl) fun he => ⟨?_, by decide, fun hpl =>
    by cases hpl⟩
  · refine h.quiet hm hs' ⟨rfl, rfl, rfl, rfl⟩ rfl (by simp [hp]) (by decide) ?_
    simp only [List.length_cons]
    omega
  · have hok := h.placing.placeOk t
    rw [hp] at hok
    simp only [Waits.put, Function.update_self]
    exact hok.resolve_right fun hne => hne.1 hzero
  · simp only [Waits.put, Function.update_self, state] at he ⊢
    exact (h.placing.early t he).1

theorem Inv.get (h : s.Inv) (hin : t ∈ s.ready) :
    Inv { s.put t (s.task t) .running (s.early t) with
      ready := s.ready.erase t, tasks := s.tasks - 1 } := by
  have hp : s.place t = .ready := (h.placing.ready t).mp hin
  have hm : Moved s { s.put t (s.task t) .running (s.early t) with
      ready := s.ready.erase t, tasks := s.tasks - 1 } t .running :=
    ⟨rfl, fun u hu => ⟨Function.update_of_ne hu .., Function.update_of_ne hu ..⟩,
      by simp [pid, Waits.put], rfl, Or.inr (Or.inr ⟨by simp [hp], by decide, rfl⟩),
      Or.inl ⟨hp, by decide, rfl⟩, Or.inr (Or.inr ⟨by simp [hp], by decide, rfl⟩)⟩
  have hs' := hm.placing h.placing ?_ (fun hpl => by cases hpl) fun he => ⟨?_, by decide, fun hpl =>
    by cases hpl⟩
  · refine h.quiet hm hs' ⟨rfl, rfl, rfl, rfl⟩ rfl (by simp [hp]) (by decide) ?_
    -- the task is counted
    have hpos := List.length_pos_of_mem hin
    have htasks := h.tasks
    have hstored := countStored_nonneg (s := s) fun _ => True
    have hout : 0 ≤ s.outside := by
      unfold outside
      split <;> decide
    simp only [List.length_erase_of_mem hin]
    omega
  · have hok := h.placing.placeOk t
    rw [hp] at hok
    simp only [Waits.put, Function.update_self]
    exact hok
  · simp only [Waits.put, Function.update_self, state] at he ⊢
    exact (h.placing.early t he).1

/-- A move that the server makes. -/
theorem Inv.served {pl : WaitPlace} (h : s.Inv) (hm : Moved s s' t pl) (hs' : s'.Placing)
    (hok : s'.ServerOk) (hpurge : s'.purge = s.purge) (htransit : s'.transit = s.transit)
    (htasks : ((if pl = .stored then 1 else 0) + (if pl = .ready then 1 else 0) + s'.outside : Int)
        - s'.tasks
      = (if s.place t = .stored then 1 else 0) + (if s.place t = .ready then 1 else 0)
        + s.outside - s.tasks)
    (howed : ((if pl = .stored ∧ s'.state t = .ready then 1 else 0) + s'.owed : Int)
      ≤ (if s.place t = .stored ∧ s.state t = .ready then 1 else 0) + s.owed) : s'.Inv := by
  have hall := hm.count h.placing hs' (P := fun _ => True) (Q := fun _ => True) fun _ _ => Iff.rfl
  have hready := hm.count h.placing hs'
    (P := fun u => s.state u = .ready) (Q := fun u => s'.state u = .ready)
    fun u hu => by rw [hm.state_ne hu]
  have hlen := hm.ready_length h.placing
  simp only [and_true] at hall
  refine ⟨hs', hok, ?_, ?_⟩
  · have := h.tasks
    have hlen' : (s'.ready.length : Int) + (if s.place t = .ready then 1 else 0)
        = s.ready.length + (if pl = .ready then 1 else 0) := by
      split_ifs at hlen ⊢ <;> omega
    omega
  · have := h.counted
    unfold readyStored at this ⊢
    rw [hpurge, htransit]
    omega

/-- The server takes a task out of the in-queue. -/
theorem Inv.take {k : Task} {w : Server} (h : s.Inv) (hidle : s.server = .idle)
    (hp : s.place t = .queued) (hpid : k.pid = s.pid t) (hsv : w = .inserting t ∨ w = .lapsed t)
    (hsched : s.pid t ∈ s.queues)
    (hins : w = .inserting t → k.deadlineState = .waiting ∧ s.early t = false)
    (hlap : w = .lapsed t → k.deadlineState = .ready) :
    Inv { s.put t k .held (s.early t) with server := w } := by
  have hheld : w.held = some t := by rcases hsv with rfl | rfl <;> rfl
  have hm : Moved s { s.put t k .held (s.early t) with server := w } t .held := by
    refine ⟨rfl, fun u hu => ⟨Function.update_of_ne hu .., Function.update_of_ne hu ..⟩, ?_, rfl,
      Or.inr (Or.inr ⟨by simp [hp], by decide, rfl⟩), Or.inr (Or.inr ⟨by simp [hp], by decide, rfl⟩),
      Or.inr (Or.inl ⟨by rw [hidle]; rfl, rfl, hheld⟩)⟩
    simp only [pid, Waits.put, Function.update_self]
    exact hpid
  have hs' := hm.placing h.placing trivial (fun hpl => by cases hpl) fun he => ?_
  · refine h.served hm hs' ?_ rfl rfl ?_ ?_
    · rcases hsv with rfl | rfl
      · simp only [ServerOk, state, pid, Waits.put, Function.update_self, hpid]
        exact ⟨hsched, Or.inl (hins rfl).1⟩
      · simp only [ServerOk, state, Waits.put, Function.update_self]
        exact hlap rfl
    · rcases hsv with rfl | rfl <;> simp [outside, hidle, hp, Waits.put]
    · rcases hsv with rfl | rfl
      · simp [owed, hidle, hp, Waits.put, state, (hins rfl).1]
      · simp [owed, hidle, hp]
  · simp only [Waits.put, Function.update_self, state] at he ⊢
    refine ⟨?_, by decide, fun _ => ?_⟩
    all_goals
      rcases hsv with rfl | rfl
      · rw [(hins rfl).2] at he
        cases he
    · exact hlap rfl
    · rfl

theorem Inv.insertTree (h : s.Inv) (hsv : s.server = .inserting t) {n : Nat}
    (hins : s.insertDeadline t n = some s') :
    Inv { s'.put t (s'.task t) .stored (s'.early t) with tasks := s'.tasks + 1, server := .idle } := by
  obtain ⟨d, tree, rfl, hstored⟩ := insertDeadline_spec hins
  have hp : s.place t = .held := (h.placing.held t).mpr (by rw [hsv]; rfl)
  have hstate := h.inside (Or.inr hp)
  have hok := h.server
  simp only [ServerOk, hsv] at hok
  set k := { s.task t with deadline := d } with hk
  set s₁ : Waits := { s with tree := tree, task := Function.update s.task t k } with hs₁
  have hm : Moved s { s₁.put t (s₁.task t) .stored (s₁.early t) with
      tasks := s₁.tasks + 1, server := .idle } t .stored := by
    refine ⟨rfl, fun u hu => ⟨?_, Function.update_of_ne hu ..⟩, ?_, rfl,
      Or.inr (Or.inl ⟨by simp [hp], rfl, hstored⟩),
      Or.inr (Or.inr ⟨by simp [hp], by decide, rfl⟩), Or.inl ⟨hp, by decide, rfl⟩⟩
    · simp [hs₁, Waits.put, hu]
    · simp [hs₁, hk, pid, Waits.put]
  have hs' := hm.placing h.placing ?_ (fun _ => hok.1) fun he => ?_
  · refine h.served hm hs' (by simp [ServerOk]) rfl rfl ?_ ?_
    · simp [outside, hsv, hp, hs₁]
    · simp only [owed, hsv, hp, state, hs₁, hk, Waits.put, Function.update_self, reduceCtorEq,
        false_and, if_false, true_and, add_zero, zero_add]
      exact le_of_eq (if_congr Iff.rfl rfl rfl)
  · simp only [Waits.put, hs₁, hk, Function.update_self]
    exact hstate
  · -- a task with an early wake-up is not inserted
    simp only [Waits.put, hs₁, Function.update_self] at he
    have := (h.placing.early t he).2.2 hp
    rw [hsv] at this
    cases this

theorem Placing.wakeUp {e : Bool} {w : Server} {n : Nat} (h : s.Placing) (hp : s.place t = .held)
    (he : e = false) (hsv : w.held = none) :
    Moved s { s.wakeUp t e w with tasks := n } t .ready
      ∧ Placing { s.wakeUp t e w with tasks := n } := by
  have hm : Moved s { s.wakeUp t e w with tasks := n } t .ready :=
    ⟨rfl, fun u hu => ⟨Function.update_of_ne hu .., Function.update_of_ne hu ..⟩,
      by simp [pid, Waits.put, Waits.wakeUp, deadlineTaskWakeUp], rfl,
      Or.inr (Or.inr ⟨by simp [hp], by decide, rfl⟩), Or.inr (Or.inl ⟨by simp [hp], rfl, rfl⟩),
      Or.inl ⟨hp, by decide, hsv⟩⟩
  refine ⟨hm, hm.placing h ?_ (fun hpl => by cases hpl) fun htrue => ?_⟩
  · simp only [Waits.wakeUp, Waits.put, Function.update_self]
    exact ⟨rfl, Or.inl rfl⟩
  · simp [Waits.wakeUp, Waits.put, he] at htrue

/-- The early wake-ups are those of tasks that are `lapsed`. -/
theorem Placing.early_held (h : s.Placing) (hp : s.place t = .held) (hsv : s.server ≠ .lapsed t) :
    s.early t = false := by
  by_contra hne
  exact hsv ((h.early t (by simpa using hne)).2.2 hp)

theorem Inv.insertLapsed (h : s.Inv) (hsv : s.server = .lapsed t) :
    Inv { s.wakeUp t false .idle with tasks := s.tasks + 1 } := by
  have hp : s.place t = .held := (h.placing.held t).mpr (by rw [hsv]; rfl)
  obtain ⟨hm, hs'⟩ := h.placing.wakeUp (e := false) (w := .idle) (n := s.tasks + 1) hp rfl rfl
  refine h.served hm hs' (by simp [ServerOk, Waits.wakeUp]) rfl rfl ?_ ?_
  · simp [outside, hsv, hp, Waits.wakeUp]
  · simp [owed, hsv, hp, Waits.wakeUp]

theorem Inv.expireStore (h : s.Inv) (hsv : s.server = .expiring t) :
    (s.wakeUp t (s.early t) .idle).Inv := by
  have hp : s.place t = .held := (h.placing.held t).mpr (by rw [hsv]; rfl)
  have hearly := h.placing.early_held hp (by simp [hsv])
  obtain ⟨hm, hs'⟩ := h.placing.wakeUp (w := .idle) (n := s.tasks) hp hearly rfl
  refine h.served hm hs' (by simp [ServerOk, Waits.wakeUp]) rfl rfl ?_ ?_
  · simp [outside, hsv, hp, Waits.wakeUp, Waits.put]
  · simp [owed, hsv, hp, Waits.wakeUp]

/-- The server takes a task out of its tree. -/
theorem Placing.unstore {w : Server} (h : s.Placing) (hp : s.place t = .stored)
    (hnone : s.server.held = none) (hsv : w.held = some t) :
    Moved s { (s.removeDeadline t).put t (s.task t) .held (s.early t) with server := w } t .held
      ∧ Placing { (s.removeDeadline t).put t (s.task t) .held (s.early t) with server := w } := by
  have hstored := stored_removeDeadline h hp
  have hm : Moved s { (s.removeDeadline t).put t (s.task t) .held (s.early t) with server := w }
      t .held :=
    ⟨rfl, fun u hu => ⟨Function.update_of_ne hu .., Function.update_of_ne hu ..⟩,
      by simp [pid, Waits.put], rfl, Or.inl ⟨hp, by decide, hstored⟩,
      Or.inr (Or.inr ⟨by simp [hp], by decide, rfl⟩), Or.inr (Or.inl ⟨hnone, rfl, hsv⟩)⟩
  refine ⟨hm, hm.placing h trivial (fun hpl => by cases hpl) fun he => ?_⟩
  simp only [Waits.put, Waits.removeDeadline, Function.update_self] at he
  exact absurd hp (h.early t he).2.1

theorem Inv.expire (h : s.Inv) (hidle : s.server = .idle) (hp : s.place t = .stored) :
    Inv { (s.removeDeadline t).put t (s.task t) .held (s.early t) with server := .expiring t } := by
  obtain ⟨hm, hs'⟩ := h.placing.unstore (w := .expiring t) hp (by rw [hidle]; rfl) rfl
  have hstate := h.inside (Or.inl hp)
  refine h.served hm hs' ?_ rfl rfl ?_ ?_
  · simp only [ServerOk, state, Waits.put, Waits.removeDeadline, Function.update_self]
    exact hstate
  · simp [outside, hidle, hp, Waits.put, Waits.removeDeadline]
  · simp only [owed, hidle, reduceCtorEq, false_and, if_false]
    split <;> decide

/-! ## The server: the purge -/

theorem visits_perm (logicPid : Nat) :
    (s.visits logicPid).Perm (s.queues.flatMap fun p => inorder (s.tree p)) := by
  unfold visits circularFrom
  refine List.Perm.flatMap_right _ (List.perm_append_comm.trans ?_)
  rw [List.takeWhile_append_dropWhile]

theorem mem_visits (h : s.Placing) {logicPid : Nat} {u : TaskId} :
    u ∈ s.visits logicPid ↔ s.place u = .stored := by
  rw [(visits_perm logicPid).mem_iff, List.mem_flatMap]
  constructor
  · rintro ⟨p, -, hu⟩
    exact ((h.member p u).mp hu).2
  · intro hin
    exact ⟨s.pid u, h.scheduled u hin, (h.member (s.pid u) u).mpr ⟨rfl, hin⟩⟩

theorem nodup_visits (h : s.Placing) (logicPid : Nat) : (s.visits logicPid).Nodup := by
  rw [(visits_perm logicPid).nodup_iff, List.nodup_flatMap]
  refine ⟨fun p _ => h.nodup p, h.queues.imp fun {p q} hne u hp hq => hne ?_⟩
  rw [((h.member p u).mp hp).1, ((h.member q u).mp hq).1]

/-- The server moves on with nothing in its hands. -/
theorem Placing.server (h : s.Placing) (htask : s'.task = s.task) (hplace : s'.place = s.place)
    (htree : s'.tree = s.tree) (hqueues : s'.queues = s.queues) (hready : s'.ready = s.ready)
    (hearly : s'.early = s.early) (hnone : s.server.held = none) (hnone' : s'.server.held = none) :
    s'.Placing := by
  have hpid : ∀ u, s'.pid u = s.pid u := fun u => by rw [pid, htask, pid]
  have hstored : ∀ p, s'.stored p = s.stored p := fun p => by rw [stored, htree, stored]
  have hheld : ∀ u, s.place u ≠ .held := fun u hu => by
    have := (h.held u).mp hu
    rw [hnone] at this
    cases this
  refine ⟨hqueues ▸ h.queues, fun p => hstored p ▸ h.nodup p, fun p u => ?_, fun u hu => ?_,
    hready ▸ h.readyNodup, fun u => ?_, fun u => ?_, fun u => ?_, fun u hu => ?_⟩
  · rw [hstored, hpid, hplace]
    exact h.member p u
  · rw [hpid, hqueues]
    exact h.scheduled u (hplace ▸ hu)
  · rw [hready, hplace]
    exact h.ready u
  · rw [hplace, hnone']
    simp [hheld u]
  · rw [hplace, htask]
    exact h.placeOk u
  · rw [hearly] at hu
    rw [hplace, state, htask]
    obtain ⟨hstate, hnot, -⟩ := h.early u hu
    exact ⟨hstate, hnot, fun hin => absurd hin (hheld u)⟩

theorem Inv.load (h : s.Inv) (hidle : s.server = .idle) (logicPid : Nat) :
    (s.load logicPid).Inv := by
  have hpurge : PurgeOk (s.load logicPid) s.purge := by
    refine ⟨le_refl _, fun hcalm => ⟨List.isEmpty_iff.mp hcalm, rfl⟩, fun u hu _ => ?_⟩
    have := (List.mem_filter.mp hu).2
    simp only [decide_eq_true_eq] at this
    exact this.1
  have hcount : ∀ (P : TaskId → Prop) [DecidablePred P],
      (s.load logicPid).countStored P = s.countStored P := fun _ _ => rfl
  have hcounted := h.counted
  have htasks := h.tasks
  simp only [owed, hidle, add_zero] at hcounted
  simp only [outside, hidle, add_zero] at htasks
  by_cases hskip : s.purge = 0 ∨ s.tasks = 0
  · have hsv : (s.load logicPid).server = .purged s.purge := if_pos hskip
    refine ⟨h.placing.server rfl rfl rfl rfl rfl rfl (by rw [hidle]; rfl) (by rw [hsv]; rfl), ?_, ?_, ?_⟩
    · simp only [ServerOk, hsv]
      exact hpurge
    · simp only [outside, hsv, add_zero]
      exact htasks
    · simp only [owed, hsv]
      -- without tasks there is nothing in the trees
      have hzero : s.purge = 0 ∨ s.readyStored ≤ 0 := by
        refine hskip.imp_right fun hz => ?_
        have := countStored_le (s := s) fun u => s.state u = .ready
        unfold readyStored
        omega
      have hready : (s.load logicPid).readyStored = s.readyStored := rfl
      have hpurge' : (s.load logicPid).purge = s.purge := rfl
      have htransit : (s.load logicPid).transit = s.transit := rfl
      rw [hready, hpurge', htransit]
      omega
  · have hsv : (s.load logicPid).server = .walking (s.visits logicPid) s.purge s.purge :=
      if_neg hskip
    refine ⟨h.placing.server rfl rfl rfl rfl rfl rfl (by rw [hidle]; rfl) (by rw [hsv]; rfl), ?_, ?_, ?_⟩
    · simp only [ServerOk, hsv]
      refine ⟨hpurge, by omega, le_refl _, nodup_visits h.placing logicPid,
        fun u hu => (mem_visits h.placing).mp hu, ?_⟩
      have hnone : (s.load logicPid).countStored
          (fun u => (s.load logicPid).state u = .ready ∧ u ∉ s.visits logicPid) = 0 := by
        rw [hcount, countStored_congr h.placing (Q := fun _ => False)]
        · exact (weight_congr fun _ _ _ _ => if_neg not_false).trans
            (by simp [weight])
        · intro u hu
          simp [(mem_visits h.placing).mpr hu]
      rw [hnone]
      have hpurge' : (s.load logicPid).purge = s.purge := rfl
      omega
    · simp only [outside, hsv, add_zero]
      exact htasks
    · simp only [owed, hsv, sub_self, add_zero]
      exact hcounted

theorem Inv.visit_skip {todo : List TaskId} {left count : Nat} (h : s.Inv)
    (hsv : s.server = .walking (t :: todo) left count) (hstate : s.state t ≠ .ready) :
    Inv { s with server := .walking todo left count } := by
  have hok := h.server
  simp only [ServerOk, hsv] at hok
  have hcounted := h.counted
  have htasks := h.tasks
  simp only [owed, hsv] at hcounted
  simp only [outside, hsv] at htasks
  refine ⟨h.placing.server rfl rfl rfl rfl rfl rfl (by rw [hsv]; rfl) rfl, ?_, htasks, hcounted⟩
  refine ⟨⟨hok.purge.le, hok.purge.calm, hok.purge.due⟩, hok.pos, hok.le, hok.nodup.of_cons,
    fun u hu => hok.stored u (List.mem_cons_of_mem t hu), ?_⟩
  have hsame : s.countStored (fun u => s.state u = .ready ∧ u ∉ todo)
      = s.countStored (fun u => s.state u = .ready ∧ u ∉ t :: todo) := by
    refine countStored_congr h.placing fun u _ => ?_
    rw [List.mem_cons, not_or]
    constructor
    · rintro ⟨hready, hnot⟩
      refine ⟨hready, ?_, hnot⟩
      rintro rfl
      exact hstate hready
    · rintro ⟨hready, -, hnot⟩
      exact ⟨hready, hnot⟩
  have hvisited := hok.visited
  rw [← hsame] at hvisited
  exact hvisited

theorem Inv.visit_end {left count : Nat} (h : s.Inv) (hsv : s.server = .walking [] left count) :
    Inv { s with server := .purged count } := by
  have hok := h.server
  simp only [ServerOk, hsv] at hok
  have htasks := h.tasks
  simp only [outside, hsv] at htasks
  refine ⟨h.placing.server rfl rfl rfl rfl rfl rfl (by rw [hsv]; rfl) rfl,
    ⟨hok.purge.le, hok.purge.calm, hok.purge.due⟩, htasks, ?_⟩
  have hvisited := hok.visited
  simp only [List.not_mem_nil, not_false_eq_true, and_true] at hvisited
  exact hvisited

theorem Inv.visit_ready {todo : List TaskId} {left count : Nat} (h : s.Inv)
    (hsv : s.server = .walking (t :: todo) left count) (hstate : s.state t = .ready) :
    Inv { (s.removeDeadline t).put t (s.task t) .held (s.early t) with
      server := .removing t todo left count } := by
  have hok := h.server
  simp only [ServerOk, hsv] at hok
  have hp : s.place t = .stored := hok.stored t List.mem_cons_self
  have hnotin : t ∉ todo := (List.nodup_cons.mp hok.nodup).1
  obtain ⟨hm, hs'⟩ := h.placing.unstore (w := .removing t todo left count) hp (by rw [hsv]; rfl) rfl
  refine h.served hm hs' ⟨?_, ?_⟩ rfl rfl ?_ ?_
  · simpa only [state, Waits.put, Waits.removeDeadline, Function.update_self] using hstate
  · refine ⟨hok.purge.quiet hm ⟨rfl, rfl, rfl, rfl⟩ (by decide), hok.pos, hok.le, hok.nodup.of_cons,
      fun u hu => ?_, ?_⟩
    · have hut : u ≠ t := fun heq => hnotin (heq ▸ hu)
      rw [hm.place_ne hut]
      exact hok.stored u (List.mem_cons_of_mem t hu)
    · have hcount := hm.count h.placing hs' (P := fun u => s.state u = .ready ∧ u ∉ t :: todo)
        (Q := fun u => state { (s.removeDeadline t).put t (s.task t) .held (s.early t) with
          server := .removing t todo left count } u = .ready ∧ u ∉ todo)
        fun u hu => by rw [hm.state_ne hu, List.mem_cons, not_or]; simp [hu]
      rw [if_neg (by simp), if_neg (by simp), add_zero, add_zero] at hcount
      rw [hcount]
      exact hok.visited
  · simp [outside, hsv, hp, Waits.put, Waits.removeDeadline]
  · simp only [reduceCtorEq, false_and, ↓reduceIte, owed, zero_add, hp, hstate, and_self, hsv]
    omega

theorem Inv.purgeStore {todo : List TaskId} {left count : Nat} (h : s.Inv)
    (hsv : s.server = .removing t todo left count) :
    (s.wakeUp t (s.early t)
      (if left - 1 = 0 then .purged count else .walking todo (left - 1) count)).Inv := by
  have hok := h.server
  simp only [ServerOk, hsv] at hok
  have hp : s.place t = .held := (h.placing.held t).mpr (by rw [hsv]; rfl)
  have hearly := h.placing.early_held hp (by simp [hsv])
  have hpos := hok.2.pos
  by_cases hlast : left - 1 = 0
  · rw [if_pos hlast]
    obtain ⟨hm, hs'⟩ := h.placing.wakeUp (w := .purged count) (n := s.tasks) hp hearly rfl
    refine h.served hm hs' (hok.2.purge.quiet hm ⟨rfl, rfl, rfl, rfl⟩ (by decide)) rfl rfl ?_ ?_
    · simp [outside, hsv, hp, Waits.wakeUp, Waits.put]
    · simp [owed, hsv, hp, Waits.wakeUp]
      omega
  · rw [if_neg hlast]
    obtain ⟨hm, hs'⟩ := h.placing.wakeUp (w := .walking todo (left - 1) count) (n := s.tasks) hp
      hearly rfl
    have hwalk := hok.2.quiet hm h.placing hs' ⟨rfl, rfl, rfl, rfl⟩ (by simp [hp]) (by decide)
    have hle := hok.2.le
    refine h.served hm hs' ⟨hwalk.purge, by omega, by omega, hwalk.nodup, hwalk.stored,
      hwalk.visited⟩ rfl rfl ?_ ?_
    · simp [outside, hsv, hp, Waits.wakeUp, Waits.put]
    · simp [owed, hsv, hp, Waits.wakeUp]
      omega

theorem Inv.subtract {count : Nat} (h : s.Inv) (hsv : s.server = .purged count) :
    Inv { s with purge := s.purge - count, server := .idle } := by
  have hok := h.server
  simp only [ServerOk, hsv] at hok
  have hcounted := h.counted
  have htasks := h.tasks
  have hle := hok.le
  simp only [owed, hsv] at hcounted
  simp only [outside, hsv] at htasks
  refine ⟨h.placing.server rfl rfl rfl rfl rfl rfl (by rw [hsv]; rfl) rfl, trivial, htasks, ?_⟩
  have hready : readyStored { s with purge := s.purge - count, server := .idle } = s.readyStored :=
    rfl
  rw [hready]
  simp only [owed]
  omega

/-! ## Runs -/

theorem inv_init (pids : TaskId → Nat) : (init pids).Inv := by
  refine ⟨⟨List.nodup_nil, fun p => Multiset.nodup_zero, fun p u => ?_, fun u hu => ?_,
    List.nodup_nil, fun u => ?_, fun u => ?_, fun u => ?_, fun u hu => ?_⟩, trivial, ?_, ?_⟩
  · simp [init, stored]
  · cases hu
  · simp [init]
  · simp [init, Server.held]
  · exact ⟨rfl, Or.inl rfl⟩
  · cases hu
  · simp [init, countStored, outside, weight]
  · simp [init, readyStored, countStored, owed, weight]

theorem inv_step {m : WaitMove} (hcount : DeadlinesCount s m) (hstep : s.step m = some s') (h : s.Inv) :
    s'.Inv := by
  cases m with
  | submit t =>
      obtain ⟨hp, heq⟩ := Option.ite_none_right_eq_some.mp hstep
      obtain rfl := Option.some.inj heq
      have hok := h.placing.placeOk t
      rw [hp] at hok
      exact h.put (by simp [hp]) (by decide) rfl (Or.inl hok) fun he => (h.placing.early t he).1
  | finish t =>
      obtain ⟨hp, heq⟩ := Option.ite_none_right_eq_some.mp hstep
      obtain rfl := Option.some.inj heq
      have hok := h.placing.placeOk t
      rw [hp] at hok
      exact h.put (by simp [hp]) (by decide) rfl hok fun he => (h.placing.early t he).1
  | waitfor t startTime timeout =>
      obtain ⟨hp, heq⟩ := Option.ite_none_right_eq_some.mp hstep
      obtain rfl := Option.some.inj heq
      exact h.waitfor hp hcount
  | storeNone t =>
      obtain ⟨hp, heq⟩ := Option.ite_none_right_eq_some.mp hstep
      obtain rfl := Option.some.inj heq
      refine h.put (by simp [hp]) (by decide) rfl ⟨rfl, Or.inl rfl⟩ fun he => ?_
      cases he
  | push t =>
      obtain ⟨hp, heq⟩ := Option.ite_none_right_eq_some.mp hstep
      obtain rfl := Option.some.inj heq
      have hok := h.placing.placeOk t
      rw [hp] at hok
      exact h.put (by simp [hp]) (by decide) rfl (Or.inr hok) fun he => (h.placing.early t he).1
  | wake t =>
      obtain rfl := Option.some.inj hstep
      exact h.wake
  | request t =>
      obtain ⟨ht, heq⟩ := Option.ite_none_right_eq_some.mp hstep
      obtain rfl := Option.some.inj heq
      exact h.request ht
  | insert t =>
      obtain ⟨⟨hidle, hp⟩, heq⟩ := Option.ite_none_right_eq_some.mp hstep
      obtain ⟨h₁, hsched⟩ := h.ensurePid hidle (s.task t).pid
      obtain ⟨htask, hplace, hserver⟩ := ensurePid_same (s := s) (s.task t).pid
      generalize s.ensurePid (s.task t).pid = s₁ at *
      rw [← htask] at heq hsched
      rw [← hplace] at hp
      rw [← hserver] at hidle
      have hok := h₁.placing.placeOk t
      rw [hp] at hok
      split at heq
      · rename_i hzero
        obtain rfl := Option.some.inj heq
        exact h₁.insertReady hp hzero
      · rename_i hne
        have hok' := (hok.resolve_left fun hz => hne hz.1).2
        split at heq
        · rename_i hpending
          obtain rfl := Option.some.inj heq
          refine h₁.take hidle hp rfl (Or.inl rfl) hsched (fun _ => ⟨rfl, ?_⟩) fun hsv => ?_
          · by_contra hearly
            have := (h₁.placing.early t (by simpa using hearly)).1
            rw [state, hpending] at this
            cases this
          · cases hsv
        · rename_i hnot
          obtain rfl := Option.some.inj heq
          refine h₁.take hidle hp rfl (Or.inr rfl) hsched (fun hsv => ?_) fun _ => ?_
          · cases hsv
          · exact hok'.resolve_left hnot
  | insertTree =>
      simp only [step] at hstep
      split at hstep
      · rename_i t hsv
        split at hstep
        · rename_i s₁ hins
          obtain rfl := Option.some.inj hstep
          exact h.insertTree hsv hins
        · cases hstep
      · cases hstep
  | insertLapsed =>
      simp only [step] at hstep
      split at hstep
      · rename_i t hsv
        obtain rfl := Option.some.inj hstep
        exact h.insertLapsed hsv
      · cases hstep
  | expire p now =>
      simp only [step] at hstep
      split at hstep
      · rename_i t hmin
        obtain ⟨⟨hidle, -⟩, heq⟩ := Option.ite_none_right_eq_some.mp hstep
        obtain rfl := Option.some.inj heq
        exact h.expire hidle ((h.placing.member p t).mp (min?_mem hmin)).2
      · cases hstep
  | expireStore =>
      simp only [step] at hstep
      split at hstep
      · rename_i t hsv
        obtain rfl := Option.some.inj hstep
        exact h.expireStore hsv
      · cases hstep
  | get t =>
      obtain ⟨⟨-, hin⟩, heq⟩ := Option.ite_none_right_eq_some.mp hstep
      obtain rfl := Option.some.inj heq
      exact h.get hin
  | load logicPid =>
      obtain ⟨hidle, heq⟩ := Option.ite_none_right_eq_some.mp hstep
      obtain rfl := Option.some.inj heq
      exact h.load hidle logicPid
  | visit =>
      simp only [step] at hstep
      split at hstep
      · rename_i left count hsv
        obtain rfl := Option.some.inj hstep
        exact h.visit_end hsv
      · rename_i t todo left count hsv
        split at hstep
        · rename_i hstate
          obtain rfl := Option.some.inj hstep
          exact h.visit_ready hsv hstate
        · rename_i hstate
          obtain rfl := Option.some.inj hstep
          exact h.visit_skip hsv hstate
      · cases hstep
  | purgeStore =>
      simp only [step] at hstep
      split at hstep
      · rename_i t todo left count hsv
        obtain rfl := Option.some.inj hstep
        exact h.purgeStore hsv
      · cases hstep
  | subtract =>
      simp only [step] at hstep
      split at hstep
      · rename_i count hsv
        obtain rfl := Option.some.inj hstep
        exact h.subtract hsv
      · cases hstep

/-- A purge with no waker in transit leaves no woken task in the trees. -/
theorem Inv.follow (h : s.Inv) : WakesFollow (fun s => s.calm = true) s := by
  refine ⟨?_, fun count hsv hcalm t hdue p hin => ?_, fun t ht p hin => ?_⟩
  · have hcounted := h.counted
    have howed : 0 ≤ s.owed := by
      have hok := h.server
      unfold ServerOk at hok
      unfold owed
      cases hsv : s.server with
      | inserting u =>
          simp only
          split <;> decide
      | walking todo left count =>
          simp only [hsv] at hok ⊢
          have := hok.le
          omega
      | removing u todo left count =>
          simp only [hsv] at hok ⊢
          have := hok.2.le
          omega
      | purged count =>
          simp only
          omega
      | idle | lapsed u | expiring u => exact le_refl _
    omega
  · have hok := h.server
    simp only [ServerOk, hsv] at hok
    have hcounted := h.counted
    simp only [owed, hsv] at hcounted
    obtain ⟨htransit, hpurge⟩ := hok.calm hcalm
    have hstored := ((h.placing.member p t).mp hin).2
    have hready := hok.due t hdue hstored
    have hone : s.readyStored
        = s.countStored (fun u => s.state u = .ready ∧ u ≠ t) + 1 :=
      countStored_update h.placing hstored (by simp) hready fun u hu => by simp [hu]
    have hrest := countStored_nonneg (s := s) fun u => s.state u = .ready ∧ u ≠ t
    rw [htransit, hpurge] at hcounted
    simp only [List.length_nil] at hcounted
    omega
  · exact (h.placing.early t ht).2.1 ((h.placing.member p t).mp hin).2

theorem Inv.asserts (h : s.Inv) (m : WaitMove) : WaitAsserts s m := by
  cases m with
  | waitfor t startTime timeout =>
      intro hp hne
      have hok := h.placing.placeOk t
      rw [hp] at hok
      exact hok.2.resolve_left hne
  | insert t =>
      intro hp hdeadline hne
      have hok := h.placing.placeOk t
      rw [hp] at hok
      exact ((hok.resolve_left fun hz => hdeadline hz.1).2).resolve_left hne
  | _ => trivial

end Waits

/-- Every woken task in a deadline tree is covered by a purge request or by
a waker that is about to make one, a purge that no waker overlaps leaves
none of the tasks whose wake had completed, an early wake-up keeps its task
out of the trees, and the assertions hold. -/
theorem wakes_follow (pids : TaskId → Nat) (moves : List WaitMove) (s : Waits)
    (hrun : run Waits.step (.init pids) moves = some s)
    (hfit : Along Waits.step DeadlinesFit (.init pids) moves) :
    WakesFollow (fun s => s.calm = true) s ∧ Along Waits.step WaitAsserts (.init pids) moves := by
  have hkeep : ∀ s m s', DeadlinesFit s m → Waits.step s m = some s' → s.Inv → s'.Inv :=
    fun _ _ _ hC hstep hinv => Waits.inv_step hC.count hstep hinv
  exact ⟨(invariant_along hkeep hfit hrun (Waits.inv_init pids)).follow,
    along_of_invariant hkeep (fun _ m _ hinv => hinv.asserts m) hfit (Waits.inv_init pids)⟩

/-- Two tasks wait, the second with the earlier deadline. -/
def twoWaits : List WaitMove :=
  [.submit 1, .insert 1, .get 1, .submit 2, .insert 2, .get 2,
    .waitfor 1 10 90, .push 1, .insert 1, .insertTree,
    .waitfor 2 10 40, .push 2, .insert 2, .insertTree]

/-- Both are woken, and a purge that nobody disturbs wakes them up. -/
theorem wakes_follow_both :
    ∃ s, run Waits.step (.init fun _ => 0) (twoWaits ++
        [.wake 1, .request 1, .wake 2, .request 2, .load 0, .visit, .purgeStore, .visit,
          .purgeStore]) = some s
      ∧ WakesFollow (fun s => s.calm = true) s ∧ s.ready = [1, 2] := by
  have heval : (run Waits.step (.init fun _ => 0) (twoWaits ++
      [.wake 1, .request 1, .wake 2, .request 2, .load 0, .visit, .purgeStore, .visit,
        .purgeStore])).map (·.ready) = some [1, 2] := by
    decide +kernel
  obtain ⟨s, hrun, hval⟩ := Option.map_eq_some_iff.mp heval
  exact ⟨s, hrun, (wakes_follow _ _ s hrun (by decide +kernel)).1, hval⟩

/-- The wake of the first task has completed, the waker of the second has
yet to make its request: the purge spends the request on the second task
and leaves the first one in its tree. -/
theorem purge_overtaken :
    ¬ ∀ (pids : TaskId → Nat) (moves : List WaitMove) (s : Waits),
      run Waits.step (.init pids) moves = some s →
      Along Waits.step DeadlinesFit (.init pids) moves →
      WakesFollow (fun _ => True) s ∧ Along Waits.step WaitAsserts (.init pids) moves := by
  intro hall
  have heval : (run Waits.step (.init fun _ => 0) (twoWaits ++
      [.wake 1, .request 1, .wake 2, .load 0, .visit, .purgeStore])).map
        (fun s => (s.server, s.due, inorder (s.tree 0))) = some (.purged 1, [1], [1]) := by
    decide +kernel
  obtain ⟨s, hrun, hval⟩ := Option.map_eq_some_iff.mp heval
  simp only [Prod.mk.injEq] at hval
  obtain ⟨hserver, hdue, htree⟩ := hval
  have hpurged := (hall _ _ s hrun (by decide +kernel)).1.purged 1 hserver trivial 1
    (by rw [hdue]; exact List.mem_singleton_self 1) 0
  rw [htree] at hpurged
  exact hpurged (List.mem_singleton_self 1)

end Nosv
