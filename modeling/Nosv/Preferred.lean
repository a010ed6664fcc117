import Nosv.Accounting

/-!
# The counter of preferred tasks

`preferred_affinity_tasks` tells `scheduler_find_task_noaffine_process`
whether there is anything to steal. `scheduler_insert_affine` adds one for
every task it links into a preferred queue, and every hand-out from such
a queue subtracts what it removed. The two match for ordinary tasks: then
the counter is exactly what the preferred queues still owe. A parallel
task is added once and subtracted once for each execution.
-/

namespace Nosv

open RBTree Relation Places

/-- The preferred queues of process `p`, as places. -/
def preferredPlaces (topo : Topology) (p : Nat) : Finset Place :=
  ((preferredQueues topo).map fun i => (p, .queue i)).toFinset

/-- The executions that the preferred queues of `p` still have to hand out. -/
def Scheduler.owedPreferred (topo : Topology) (s : Scheduler) (p : Nat) : Int :=
  weight (fun t => (s.task t).pending) (preferredPlaces topo p) s.places

/-- The number of tasks that process `p` stores. -/
def Scheduler.stock (topo : Topology) (s : Scheduler) (p : Nat) : Int :=
  weight (fun _ => 1) (placesOf topo p) s.places

/-- The task goes to a preferred queue when it is re-routed. -/
def Affinity.Prefers (a : Affinity) : Prop := a.HasQueue ∧ a.type = .preferred

instance (a : Affinity) : Decidable a.Prefers :=
  inferInstanceAs (Decidable ((_ ∨ _) ∧ _))

/-- Tasks with a preferred domain are ordinary tasks. -/
def Ordinary (k : Task) (_ : Place) : Prop := k.affinity.Prefers → k.degree = 1

/-- A task with a preferred domain can be scheduled once more. -/
def Servable (k : Task) (_ : Place) : Prop := k.affinity.Prefers → k.nextCount ≠ 0

structure PreferredExact (topo : Topology) (a : Accounts) : Prop where
  base : Base topo a.sched
  ordinary : Holds Ordinary a.sched
  exact_count : ∀ p, a.sched.preferred p = a.sched.owedPreferred topo p
  stock_le : ∀ p, a.sched.stock topo p ≤ a.inserted p
  bound : ∀ p, a.inserted p < 18446744073709551616

variable {topo : Topology} {s s' : Scheduler}

theorem mem_preferredPlaces {p : Nat} {x : Place} :
    x ∈ preferredPlaces topo p ↔ x.1 = p ∧ ∃ i ∈ preferredQueues topo, x.2 = .queue i := by
  simp only [preferredPlaces, List.mem_toFinset, List.mem_map]
  constructor
  · rintro ⟨i, hi, rfl⟩
    exact ⟨rfl, i, hi, rfl⟩
  · rintro ⟨rfl, i, hi, hx⟩
    exact ⟨i, hi, by rw [← hx]⟩

theorem mem_preferredQueues {i : QueueId} (h : i ∈ queueIds topo) :
    i ∈ preferredQueues topo ↔ i.isPreferred = true := by
  simp only [queueIds, List.mem_append, List.mem_cons, List.mem_map, List.mem_range] at h
  simp only [preferredQueues, List.mem_append, List.mem_map, List.mem_range, Topology.topoLvlCnt]
  rcases h with (((rfl | ⟨j, hj, rfl⟩) | ⟨j, hj, rfl⟩) | ⟨j, hj, rfl⟩) | ⟨j, hj, rfl⟩ <;>
    simp_all [QueueId.isPreferred]

/-- Of the containers of a process, the preferred places are those with
a preferred queue. -/
theorem mem_preferred_iff {p : Nat} {c : Container} (hc : c ∈ containers topo) (q : Nat) :
    (p, c) ∈ preferredPlaces topo q ↔ q = p ∧ c.isPreferred = true := by
  rw [mem_preferredPlaces]
  constructor
  · rintro ⟨rfl, i, hi, hci⟩
    refine ⟨rfl, ?_⟩
    simp only at hci
    subst hci
    exact (mem_preferredQueues (mem_containers_queue.mp hc)).mp hi
  · rintro ⟨rfl, hp⟩
    refine ⟨rfl, ?_⟩
    cases c with
    | deadline => cases hp
    | yield => cases hp
    | queue i => exact ⟨i, (mem_preferredQueues (mem_containers_queue.mp hc)).mpr hp, rfl⟩

theorem prefers_of_place {queues : List Nat} {k : Task} {p : Nat} {c : Container}
    (h : Fits topo queues k (p, c)) (hc : c.isPreferred = true) : k.affinity.Prefers := by
  cases c with
  | deadline => cases hc
  | yield => cases hc
  | queue i =>
      have hne : i ≠ .main := by
        rintro rfl
        cases hc
      obtain ⟨hq, hi⟩ := h.routed i rfl hne
      refine ⟨hq, ?_⟩
      have hp : i.isPreferred = true := hc
      rw [hi, isPreferred_affineQueue hq, decide_eq_true_eq] at hp
      exact hp

theorem ordinary_stable : Stable Ordinary := by
  intro k k' x hk h hp
  rw [hk.degree]
  exact h (by rwa [hk.affinity] at hp)

theorem servable_stable : Stable Servable := by
  intro k k' x hk h hp
  simp only [Task.nextCount, hk.scheduledCount]
  exact h (by rwa [hk.affinity] at hp)

theorem pending_of_degree_one {k : Task} (h : k.degree = 1) : k.pending = 1 := by
  simp [Task.pending, h]

/-! ## What the preferred queues owe -/

theorem owedPreferred_congr (hplaces : s'.places = s.places)
    (hpending : ∀ x t, t ∈ s.places x → (s'.task t).pending = (s.task t).pending) (p : Nat) :
    s'.owedPreferred topo p = s.owedPreferred topo p := by
  unfold Scheduler.owedPreferred
  rw [hplaces]
  exact weight_congr fun x _ t ht => hpending x t ht

theorem stock_congr (hplaces : s'.places = s.places) (p : Nat) :
    s'.stock topo p = s.stock topo p := by
  unfold Scheduler.stock
  rw [hplaces]

/-- The places of `p` with one more task. -/
theorem owedPreferred_add {w : TaskId → Int} {g : Place → Multiset TaskId} {p : Nat}
    {c : Container} {t : TaskId} (hc : c ∈ containers topo) (q : Nat) :
    weight w (preferredPlaces topo q) (add g (p, c) t)
      = (if q = p ∧ c.isPreferred = true then w t else 0)
        + weight w (preferredPlaces topo q) g := by
  rw [weight_add_ite]
  simp only [mem_preferred_iff hc]

/-- Stored tasks of preferred queues count once each. -/
theorem pending_of_preferred (hb : Base topo s) (ho : Holds Ordinary s) {p q : Nat}
    {c : Container} {t : TaskId} (ht : t ∈ s.places (p, c))
    (hmem : (p, c) ∈ preferredPlaces topo q) : (s.task t).pending = 1 := by
  have hfit := hb.fits (p, c) t ht
  have hpref := ((mem_preferred_iff hfit.inTopo q).mp hmem).2
  exact pending_of_degree_one (ho (p, c) t ht (prefers_of_place hfit hpref))

theorem preferredPlaces_subset (p : Nat) : preferredPlaces topo p ⊆ placesOf topo p := by
  intro x hx
  obtain ⟨hp, i, hi, hxi⟩ := mem_preferredPlaces.mp hx
  refine mem_placesOf.mpr ⟨hp, ?_⟩
  rw [hxi, mem_containers_queue]
  simp only [preferredQueues, List.mem_append, List.mem_map, List.mem_range] at hi
  rcases hi with ⟨j, hj, rfl⟩ | ⟨j, hj, rfl⟩ <;>
    simpa [queueIds, Topology.topoLvlCnt] using hj

theorem owedPreferred_le_stock (hb : Base topo s) (ho : Holds Ordinary s) (p : Nat) :
    0 ≤ s.owedPreferred topo p ∧ s.owedPreferred topo p ≤ s.stock topo p := by
  have hone : s.owedPreferred topo p = weight (fun _ => 1) (preferredPlaces topo p) s.places :=
    weight_congr fun x hx t ht => pending_of_preferred hb ho ht hx
  rw [hone]
  refine ⟨weight_nonneg fun _ _ _ _ => by decide, ?_⟩
  refine Finset.sum_le_sum_of_subset_of_nonneg (preferredPlaces_subset p) fun x _ _ => ?_
  refine Multiset.sum_nonneg fun y hy => ?_
  obtain ⟨t, -, rfl⟩ := Multiset.mem_map.mp hy
  decide

theorem PreferredExact.lt {a : Accounts} (h : PreferredExact topo a) (p : Nat) :
    a.sched.owedPreferred topo p < 18446744073709551616 := by
  have h₁ := (owedPreferred_le_stock h.base h.ordinary p).2
  have h₂ := h.stock_le p
  have h₃ := h.bound p
  omega

/-! ## Steps that hand nothing out -/

theorem PreferredExact.idles {a : Accounts} (h : PreferredExact topo a)
    (hi : Idles a.sched s') : PreferredExact topo { a with sched := s' } := by
  refine ⟨h.base.idles hi, h.ordinary.idles ordinary_stable hi, fun p => ?_, fun p => ?_, h.bound⟩
  · rw [owedPreferred_congr hi.places fun _ t _ => pending_same (hi.frame.task t), hi.preferred]
    exact h.exact_count p
  · rw [stock_congr hi.places]
    exact h.stock_le p

theorem source_not_preferred {c : Container} (h : c.IsSource) : c.isPreferred = false := by
  rcases h with rfl | rfl | rfl <;> rfl

theorem stock_relocate {x y : Place} {t : TaskId} {g : Place → Multiset TaskId}
    (hs : s.places = add g x t) (hs' : s'.places = add g y t)
    (hx : x.2 ∈ containers topo) (hy : y.2 ∈ containers topo) (hxy : y.1 = x.1) (p : Nat) :
    s'.stock topo p = s.stock topo p := by
  unfold Scheduler.stock
  rw [hs, hs']
  refine weight_relocate ?_
  rw [mem_placesOf, mem_placesOf, hxy]
  exact and_congr_right fun _ => iff_of_true hy hx

theorem PreferredExact.moves {a : Accounts} (h : PreferredExact topo a) {p : Nat}
    {c : Container} {t : TaskId} (hc : c.IsSource) (hm : Moves topo a.sched s' p c t) :
    PreferredExact topo { a with sched := s' } := by
  have hb := h.base.moves hm
  have ho : Holds Ordinary s' := h.ordinary.moves ordinary_stable hm fun hk => hk
  obtain ⟨g, hs, hs'⟩ := hm.places
  have hmem : t ∈ a.sched.places (p, c) := by
    rw [hs, mem_add]
    exact Or.inl ⟨rfl, rfl⟩
  have hfit := h.base.fits (p, c) t hmem
  have hfit' := hfit.queue hm.hasQueue
  have hstock (q : Nat) := stock_relocate hs hs' hfit.inTopo hfit'.inTopo rfl q
  -- the queue counts the task exactly when the counter does
  have hpref : Container.isPreferred (.queue (affineQueue topo (a.sched.task t).affinity))
      = decide ((a.sched.task t).affinity.type = .preferred) :=
    isPreferred_affineQueue hm.hasQueue
  have howed (q : Nat) : s'.owedPreferred topo q
      = (if q = p ∧ (a.sched.task t).affinity.type = .preferred then 1 else 0)
        + a.sched.owedPreferred topo q := by
    unfold Scheduler.owedPreferred
    rw [owed_frame hm.frame, hs', hs, owedPreferred_add hfit'.inTopo,
      owedPreferred_add hfit.inTopo, source_not_preferred hc, hpref]
    simp only [decide_eq_true_eq, Bool.false_eq_true, and_false, if_false, zero_add]
    split
    · rename_i hq
      rw [pending_of_degree_one (h.ordinary _ t hmem ⟨hm.hasQueue, hq.2⟩)]
    · rfl
  refine ⟨hb, ho, fun q => ?_, fun q => ?_, h.bound⟩
  · have hlt : s'.owedPreferred topo q < 18446744073709551616 := by
      have h₁ := (owedPreferred_le_stock hb ho q).2
      have h₂ := h.stock_le q
      have h₃ := h.bound q
      rw [hstock q] at h₁
      omega
    have hnonneg := (owedPreferred_le_stock hb ho q).1
    rw [howed q] at hlt hnonneg
    simp only [hm.preferred, countPreferred, howed q]
    split
    · rename_i htype
      by_cases hq : q = p
      · subst hq
        rw [if_pos ⟨rfl, htype⟩] at hlt hnonneg ⊢
        rw [Function.update_self, h.exact_count, add_comm]
        exact sizeT_of_bounds hnonneg hlt
      · rw [if_neg fun hc => hq hc.1, zero_add, Function.update_of_ne hq]
        exact h.exact_count q
    · rename_i htype
      rw [if_neg fun hc => htype hc.2, zero_add]
      exact h.exact_count q
  · rw [hstock q]
    exact h.stock_le q

theorem PreferredExact.reroutes {a : Accounts} (h : PreferredExact topo a)
    (hr : ReflTransGen (Reroute topo) a.sched s') :
    PreferredExact topo { a with sched := s' } := by
  induction hr with
  | refl => exact h
  | tail _ hstep ih =>
      rcases hstep.effect ih.base.linked with hi | ⟨p, c, t, hc, hm⟩
      · exact ih.idles hi
      · exact ih.moves hc hm

/-- The deadline tree and the main queue are not preferred queues. -/
theorem PreferredExact.purgeSteps {a : Accounts} (h : PreferredExact topo a)
    (hp : ReflTransGen PurgeStep a.sched s') : PreferredExact topo { a with sched := s' } := by
  induction hp with
  | refl => exact h
  | @tail s₁ s₂ _ hstep ih =>
      obtain ⟨p, t, s₃, hd, ha⟩ := PurgeStep.effect ih.base.linked hstep
      have hfit := ih.base.fits (p, .deadline) t
        (by rw [hd.places, mem_add]; exact Or.inl ⟨rfl, rfl⟩)
      refine ⟨ih.base.purgeStep hstep,
        ih.ordinary.purgeStep ordinary_stable (fun hk => hk) ih.base hstep,
        fun q => ?_, fun q => ?_, ih.bound⟩
      · have howed : s₂.owedPreferred topo q = s₁.owedPreferred topo q := by
          unfold Scheduler.owedPreferred
          rw [owed_frame (hd.frame.trans ha.frame), hd.places, ha.places,
            owedPreferred_add hfit.inTopo, owedPreferred_add hfit.main.inTopo]
          rfl
        rw [howed, ha.preferred, hd.preferred]
        exact ih.exact_count q
      · rw [stock_relocate hd.places ha.places hfit.inTopo hfit.main.inTopo rfl q]
        exact ih.stock_le q

/-! ## A hand-out -/

theorem stock_takes {p : Nat} {c : Container} {t : TaskId} {removed : Int}
    {rest : Place → Multiset TaskId} (ht : Takes s s' p c t removed rest) (q : Nat) :
    s'.stock topo q ≤ s.stock topo q := by
  have hle : weight (fun _ => 1) (placesOf topo q) rest ≤ s.stock topo q := by
    unfold Scheduler.stock
    rw [ht.before, weight_add_ite]
    split <;> omega
  rcases ht.after with ⟨-, -, hafter⟩ | ⟨-, -, hafter⟩
  · unfold Scheduler.stock at hle ⊢
    rw [hafter]
    exact hle
  · by_cases hlast : (s.task t).IsLast
    · rw [if_pos hlast] at hafter
      unfold Scheduler.stock at hle ⊢
      rw [hafter]
      exact hle
    · rw [if_neg hlast] at hafter
      exact (stock_congr hafter q).le

/-- A hand-out from a preferred queue takes one execution, which was the
only one of its task; other hand-outs do not touch these queues. -/
theorem owedPreferred_takes {p : Nat} {c : Container} {t : TaskId} {removed : Int}
    {rest : Place → Multiset TaskId} (hb : Base topo s) (ho : Holds Ordinary s)
    (hsv : Servable (s.task t) (p, c)) (ht : Takes s s' p c t removed rest) :
    (c.isPreferred = true → removed = 1)
      ∧ ∀ q, s'.owedPreferred topo q
        = s.owedPreferred topo q - if q = p ∧ c.isPreferred = true then 1 else 0 := by
  have hfit := hb.fits _ _ ht.mem
  have habs := ht.absent hb.linked
  have hsame (q : Nat) : weight (fun u => (s'.task u).pending) (preferredPlaces topo q) rest
      = weight (fun u => (s.task u).pending) (preferredPlaces topo q) rest := by
    refine weight_congr fun x _ u hu => ?_
    have hut : u ≠ t := fun h => habs x (h ▸ hu)
    exact pending_same (ht.other u hut)
  have hbefore (q : Nat) : s.owedPreferred topo q
      = (if q = p ∧ c.isPreferred = true then (s.task t).pending else 0)
        + weight (fun u => (s.task u).pending) (preferredPlaces topo q) rest := by
    unfold Scheduler.owedPreferred
    rw [ht.before, owedPreferred_add hfit.inTopo]
  by_cases hc : c.isPreferred = true
  · have hpref := prefers_of_place hfit hc
    have hdeg := ho _ _ ht.mem hpref
    have hcount := hsv hpref
    have hlast : (s.task t).IsLast := Or.inr (by omega)
    have hrem : (s.task t).removed = 1 := by
      rw [Task.removed, if_neg (by omega)]
    rcases ht.after with ⟨hcd, -, -⟩ | ⟨-, hr, hafter⟩
    · rcases hcd with rfl | rfl <;> cases hc
    · rw [if_pos hlast] at hafter
      refine ⟨fun _ => hr.trans hrem, fun q => ?_⟩
      rw [hbefore, Scheduler.owedPreferred, hafter, hsame, pending_of_degree_one hdeg]
      omega
  · refine ⟨fun h => absurd h hc, fun q => ?_⟩
    have hnot : ¬ (q = p ∧ c.isPreferred = true) := fun h => hc h.2
    rw [hbefore, if_neg hnot, if_neg hnot, zero_add, sub_zero, ← hsame q]
    rcases ht.after with ⟨-, -, hafter⟩ | ⟨-, -, hafter⟩
    · rw [Scheduler.owedPreferred, hafter]
    · rw [Scheduler.owedPreferred, hafter]
      split
      · rfl
      · rw [ht.before, owedPreferred_add hfit.inTopo, if_neg hnot, zero_add]

theorem PreferredExact.handOut {a : Accounts} (h : PreferredExact topo a) {p : Nat}
    {c : Container} {t : TaskId} {removed : Int} {rest : Place → Multiset TaskId}
    {s₂ s₃ : Scheduler} (hsv : Servable (a.sched.task t) (p, c))
    (ht : Takes a.sched s₂ p c t removed rest) (hs : Serves s₂ s₃ p removed) :
    PreferredExact topo { a with sched := s₃ } := by
  obtain ⟨hone, howed⟩ := owedPreferred_takes h.base h.ordinary hsv ht
  have hb₂ := h.base.takes ht
  have ho₂ : Holds Ordinary s₂ :=
    h.ordinary.takes ordinary_stable h.base.linked ht fun _ hk => hk
  refine ⟨hb₂.serves hs, fun x u hu => ?_, fun q => ?_, fun q => ?_, h.bound⟩
  · rw [hs.places] at hu
    rw [hs.task]
    exact ho₂ x u hu
  · have hsame : s₃.owedPreferred topo q = s₂.owedPreferred topo q :=
      owedPreferred_congr hs.places (fun _ u _ => by rw [hs.task]) q
    have hnonneg := (owedPreferred_le_stock hb₂ ho₂ q).1
    have hlt := h.lt q
    rw [howed q] at hnonneg
    rw [hs.preferred, ht.preferred, hsame, howed q]
    by_cases hc : c.isPreferred = true
    · rw [if_pos hc, hone hc]
      by_cases hq : q = p
      · subst hq
        rw [if_pos ⟨rfl, hc⟩] at hnonneg ⊢
        rw [Function.update_self, h.exact_count]
        exact sizeT_of_bounds hnonneg (by omega)
      · rw [if_neg fun h => hq h.1, sub_zero, Function.update_of_ne hq]
        exact h.exact_count q
    · rw [if_neg hc, if_neg fun h => hc h.2, sub_zero]
      exact h.exact_count q
  · rw [stock_congr hs.places]
    exact (stock_takes ht q).trans (h.stock_le q)

/-! ## Runs -/

/-- A task with a preferred domain is inserted as an ordinary task, and is
scheduled less than `2 ^ 32` times; the inserted executions fit a `size_t`. -/
def OrdinaryPreferred (topo : Topology) (a : Accounts) : SchedOp → Prop
  | .insert t =>
      (a.sched.task t).affinity.Valid topo
        ∧ ((a.sched.task t).affinity.Prefers → taskIsParallel (a.sched.task t) = false)
        ∧ a.inserted (a.sched.task t).pid + (a.sched.task t).degree < 18446744073709551616
  | .get .. => ∀ p ∈ a.sched.queues, ∀ c ∈ containers topo, ∀ t ∈ a.sched.places (p, c),
      (a.sched.task t).affinity.Prefers → (a.sched.task t).nextCount ≠ 0
  | _ => True

instance (topo : Topology) (a : Accounts) : ∀ op, Decidable (OrdinaryPreferred topo a op)
  | .insert _ => inferInstanceAs (Decidable (_ ∧ _))
  | .get .. => inferInstanceAs (Decidable (∀ p ∈ a.sched.queues, ∀ c ∈ containers topo,
      ∀ t ∈ a.sched.places (p, c),
        (a.sched.task t).affinity.Prefers → (a.sched.task t).nextCount ≠ 0))
  | .prepare .. => isTrue trivial
  | .purge _ => isTrue trivial
  | .cancel _ => isTrue trivial
  | .wake _ => isTrue trivial

theorem Servable.reroutes (hb : Base topo s) (h : Holds Servable s)
    (hr : ReflTransGen (Reroute topo) s s') : Holds Servable s' := by
  induction hr with
  | refl => exact h
  | tail hrest hstep ih =>
      exact ih.reroute servable_stable (fun hk => hk) (hb.reroutes hrest) hstep

theorem PreferredExact.get {a : Accounts} (h : PreferredExact topo a) {cpu pid ts : Nat}
    {external : Bool} (hC : OrdinaryPreferred topo a (.get cpu pid external ts)) :
    PreferredExact topo
      { a with sched := (schedulerGetInternal topo a.sched cpu pid external ts).2 } := by
  have hsv : Holds Servable a.sched := by
    intro x t ht
    have hfit := h.base.fits x t ht
    exact hC x.1 hfit.known x.2 hfit.inTopo t ht
  cases hget : schedulerGetInternal topo a.sched cpu pid external ts with
  | mk r s' =>
      obtain ⟨s₁, hr, -, hrest⟩ := get_cases h.base hget
      have h₁ := h.reroutes hr
      have hsv₁ := Servable.reroutes h.base hsv hr
      cases r with
      | none => exact h₁.idles hrest
      | some t =>
          obtain ⟨p, -, c, removed, rest, s₂, s₃, -, htakes, hserves, hidle⟩ := hrest
          exact (h₁.handOut (hsv₁ _ _ htakes.mem) htakes hserves).idles hidle

theorem ensurePid_preferred {a : Accounts} (h : PreferredExact topo a) (pid : Nat) :
    (ensurePid a.sched pid).preferred = a.sched.preferred := by
  by_cases hp : pid ∈ a.sched.queues
  · unfold ensurePid
    rw [if_pos hp]
  · have hempty : ∀ x ∈ preferredPlaces topo pid, a.sched.places x = 0 := by
      intro x hx
      refine Multiset.eq_zero_of_forall_notMem fun t ht => hp ?_
      have hknown := (h.base.fits x t ht).known
      rwa [(mem_preferredPlaces.mp hx).1] at hknown
    have hzero : a.sched.preferred pid = 0 := by
      rw [h.exact_count]
      exact weight_empty hempty
    unfold ensurePid
    rw [if_neg hp]
    funext q
    by_cases hq : q = pid
    · subst hq
      rw [hzero]
      simp [Scheduler.preferred, schedulerInitPid, emptyProcess]
    · simp [Scheduler.preferred, schedulerInitPid, hq]

theorem readyContainer_not_preferred (k : Task) : (readyContainer k).isPreferred = false := by
  unfold readyContainer
  split
  · rfl
  · split <;> rfl

theorem PreferredExact.insert {a : Accounts} (h : PreferredExact topo a) {t : TaskId}
    (hnot : ¬ a.sched.Holding topo t) (hpos : 0 < (a.sched.task t).degree)
    (hC : OrdinaryPreferred topo a (.insert t))
    (hins : schedulerInsertReadyTask a.sched t = some s') :
    PreferredExact topo ⟨s', Function.update a.inserted (a.sched.task t).pid
      (a.inserted (a.sched.task t).pid + (a.sched.task t).degree)⟩ := by
  obtain ⟨hvalid, hserial, hbound⟩ := hC
  have hbase : Base topo s' := h.base.insert (h.base.absent_iff.mpr hnot) hvalid hins
  obtain ⟨s₁, hadds, rfl⟩ := insert_cases h.base (h.base.absent_iff.mpr hnot) hins
  obtain ⟨hb₀, hplaces₀, -⟩ := h.base.ensurePid (a.sched.task t).pid
  have htask₀ : (ensurePid a.sched (a.sched.task t).pid).task = a.sched.task := ensurePid_task ..
  have hplaces : (addDegree s₁ (a.sched.task t).pid (a.sched.task t).degree).places
      = add a.sched.places ((a.sched.task t).pid, readyContainer (a.sched.task t)) t := by
    rw [addDegree_places, hadds.places, hplaces₀]
  have hsame (u : TaskId) :
      SameTask (a.sched.task u)
        ((addDegree s₁ (a.sched.task t).pid (a.sched.task t).degree).task u) := by
    have := hadds.frame.task u
    rw [htask₀] at this
    exact this
  refine ⟨hbase, fun x u hu => ?_, fun q => ?_, fun q => ?_, fun q => ?_⟩
  · refine ordinary_stable (hsame u) ?_
    rw [hplaces, mem_add] at hu
    rcases hu with ⟨rfl, rfl⟩ | hu
    · intro hp
      have hnp := taskIsParallel_iff.not.mp (by rw [hserial hp]; decide)
      omega
    · exact h.ordinary x u hu
  · have hpref : (addDegree s₁ (a.sched.task t).pid (a.sched.task t).degree).preferred
        = a.sched.preferred := by
      rw [← ensurePid_preferred h, ← hadds.preferred]
      exact modProc_preferred s₁ _ (g := fun ps =>
        { ps with tasks := sizeT (ps.tasks + (a.sched.task t).degree) }) fun _ => rfl
    rw [hpref, h.exact_count, Scheduler.owedPreferred, Scheduler.owedPreferred, hplaces,
      owedPreferred_add (readyContainer_mem topo _), readyContainer_not_preferred]
    simp only [Bool.false_eq_true, and_false, if_false, zero_add]
    exact weight_congr fun _ _ u _ => (pending_same (hsame u)).symm
  · have hstock := h.stock_le q
    unfold Scheduler.stock at hstock ⊢
    rw [hplaces, weight_add_ite]
    simp only [mem_placesOf]
    by_cases hq : q = (a.sched.task t).pid
    · subst hq
      rw [Function.update_self]
      split <;> omega
    · rw [if_neg fun hc => hq hc.1.symm, Function.update_of_ne hq, zero_add]
      exact hstock
  · by_cases hq : q = (a.sched.task t).pid
    · subst hq
      simp only [Function.update_self]
      exact hbound
    · simp only [Function.update_of_ne hq]
      exact h.bound q

theorem PreferredExact.prepare {a : Accounts} (h : PreferredExact topo a) {t : TaskId}
    {k : Task} (hnot : ¬ a.sched.Holding topo t) :
    PreferredExact topo { a with sched := a.sched.modTask t fun _ => k } := by
  have habs := h.base.absent_iff.mpr hnot
  have hoff : ∀ x u, u ∈ a.sched.places x →
      (a.sched.modTask t fun _ => k).task u = a.sched.task u := by
    intro x u hu
    have hut : u ≠ t := fun heq => habs x (heq ▸ hu)
    simp [Scheduler.modTask, hut]
  have hplaces : (a.sched.modTask t fun _ => k).places = a.sched.places := rfl
  refine ⟨h.base.modTask (f := fun _ => k) (Or.inl habs), fun x u hu => ?_, fun p => ?_,
    h.stock_le, h.bound⟩
  · rw [hoff x u hu]
    exact h.ordinary x u hu
  · rw [owedPreferred_congr hplaces fun x u hu => by rw [hoff x u hu]]
    exact h.exact_count p

/-- Only parallel tasks are cancelled while they are stored, and none of
them is in a preferred queue. -/
theorem PreferredExact.cancel {a : Accounts} (h : PreferredExact topo a) {t : TaskId}
    (hpar : taskIsParallel (a.sched.task t) = true) :
    PreferredExact topo
      { a with sched := a.sched.modTask t fun k => { k with degree := -k.degree } } := by
  have hplaces : (a.sched.modTask t fun k => { k with degree := -k.degree }).places
      = a.sched.places := rfl
  refine ⟨h.base.modTask (f := fun k => { k with degree := -k.degree }) (Or.inr ⟨rfl, rfl, rfl⟩),
    fun x u hu => ?_, fun p => ?_, h.stock_le, h.bound⟩
  · have hu' := h.ordinary x u hu
    by_cases hut : u = t
    · subst hut
      simp only [Scheduler.modTask, Function.update_self]
      intro hp
      have hone := hu' hp
      exact absurd (taskIsParallel_iff.mp hpar) (by simp [hone])
    · simpa [Scheduler.modTask, hut] using hu'
  · rw [owedPreferred_congr hplaces fun x u _ => ?_]
    · exact h.exact_count p
    · by_cases hut : u = t
      · subst hut
        simp [Scheduler.modTask, Task.pending]
      · simp [Scheduler.modTask, hut]

theorem preferredExact_step {a a' : Accounts} {op : SchedOp} (hC : OrdinaryPreferred topo a op)
    (hstep : a.step topo op = some a') (h : PreferredExact topo a) : PreferredExact topo a' := by
  have hcase := Accounts.step_cases hstep
  cases op with
  | prepare t k =>
      obtain ⟨hnot, rfl⟩ := hcase
      exact h.prepare hnot
  | insert t =>
      obtain ⟨hnot, hpos, -, s, hins, rfl⟩ := hcase
      exact h.insert hnot hpos hC hins
  | get cpu pid external ts =>
      obtain ⟨-, rfl⟩ := hcase
      exact h.get hC
  | purge logicPid =>
      simp only at hcase
      subst hcase
      obtain ⟨s₁, hp, -, hidle⟩ := purge_cases h.base logicPid
      exact (h.purgeSteps hp).idles hidle
  | cancel t =>
      obtain ⟨-, hpar, rfl | ⟨-, rfl⟩⟩ := hcase
      · exact h
      · exact h.cancel hpar
  | wake t =>
      obtain ⟨-, rfl⟩ := hcase
      exact h.idles (submitDeadlineWake_idles h.base.linked t)

theorem preferredExact_init (task : TaskId → Task) (quantumNs : Nat) (clock : Nat → Nat) :
    PreferredExact topo (Accounts.init task quantumNs clock) := by
  have hb : Base topo (schedulerInit task quantumNs clock) := base_init task quantumNs clock
  have hempty : ∀ x, (schedulerInit task quantumNs clock).places x = 0 := by
    intro x
    refine Multiset.eq_zero_of_forall_notMem fun t ht => ?_
    exact absurd (hb.fits x t ht).known (List.not_mem_nil)
  refine ⟨hb, fun x t ht => ?_, fun p => ?_, fun p => ?_, fun p => ?_⟩
  · have ht' : t ∈ (schedulerInit task quantumNs clock).places x := ht
    rw [hempty] at ht'
    exact absurd ht' (Multiset.notMem_zero t)
  · exact (weight_empty fun x _ => hempty x).symm
  · exact (weight_empty fun x _ => hempty x).le
  · exact (by decide : (0 : Int) < 18446744073709551616)

/-- The counter is exact, is a `size_t` that never wrapped, and does not
hide a preferred queue that could be stolen from. -/
structure PreferredCounted (topo : Topology) (a : Accounts) : Prop where
  exact_count : ∀ p, (a.sched.proc p).preferredAffinityTasks = a.sched.owedPreferred topo p
  no_wrap : ∀ p, 0 ≤ (a.sched.proc p).preferredAffinityTasks
    ∧ (a.sched.proc p).preferredAffinityTasks ≤ a.sched.stock topo p
  steal : ∀ p, ∀ i ∈ preferredQueues topo, a.sched.places (p, .queue i) ≠ 0 →
    (a.sched.proc p).preferredAffinityTasks ≠ 0

theorem PreferredExact.counted {a : Accounts} (h : PreferredExact topo a) :
    PreferredCounted topo a := by
  refine ⟨h.exact_count, fun p => ?_, fun p i hi hne hzero => ?_⟩
  · have hle := owedPreferred_le_stock h.base h.ordinary p
    rw [← h.exact_count p] at hle
    exact hle
  · -- one stored task already makes the sum positive
    obtain ⟨t, ht⟩ := Multiset.exists_mem_of_ne_zero hne
    have hfit := h.base.fits (p, .queue i) t ht
    have hmem : (p, Container.queue i) ∈ preferredPlaces topo p :=
      mem_preferredPlaces.mpr ⟨rfl, i, hi, rfl⟩
    have hpending := pending_of_preferred h.base h.ordinary ht hmem
    obtain ⟨g, hg⟩ := exists_add ht
    have hnonneg : 0 ≤ weight (fun u => (a.sched.task u).pending) (preferredPlaces topo p) g := by
      refine weight_nonneg fun x hx u hu => ?_
      have hu' : u ∈ a.sched.places x := by
        rw [hg, mem_add]
        exact Or.inr hu
      rw [pending_of_preferred h.base h.ordinary hu' hx]
      decide
    have hsum : a.sched.owedPreferred topo p
        = 1 + weight (fun u => (a.sched.task u).pending) (preferredPlaces topo p) g := by
      rw [Scheduler.owedPreferred, hg, weight_add hmem, hpending]
    have hcount := h.exact_count p
    unfold Scheduler.preferred at hcount
    omega

/-- In every run that inserts tasks with a preferred domain only as
ordinary tasks, `preferred_affinity_tasks` is exact. -/
theorem preferred_counted (topo : Topology) (task : TaskId → Task) (quantumNs : Nat)
    (clock : Nat → Nat) (ops : List SchedOp) (a : Accounts)
    (hrun : Run.run (Accounts.step topo) (.init task quantumNs clock) ops = some a)
    (hC : Run.Along (Accounts.step topo) (OrdinaryPreferred topo)
      (.init task quantumNs clock) ops) :
    PreferredCounted topo a := by
  have hinit : PreferredExact topo (.init task quantumNs clock) := preferredExact_init ..
  have h : PreferredExact topo a :=
    Run.invariant_along (fun _ _ _ => preferredExact_step) hC hrun hinit
  exact h.counted

/-- A task that prefers the first CPU. -/
def preferringTask (degree : Int) : Task :=
  { nosvCreateInternal 0 ⟨.cpu, .preferred, 0⟩ with degree := degree }

/-- The second CPU steals an ordinary task that prefers the first. -/
theorem preferred_counted_stolen :
    ∃ a, Run.run (Accounts.step (.twoNodes 0)) (.init (fun _ => preferringTask 1) 0 id)
        [.insert 0, .insert 1, .get 1 0 false 0] = some a
      ∧ PreferredCounted (.twoNodes 0) a := by
  have hsome : (Run.run (Accounts.step (.twoNodes 0)) (.init (fun _ => preferringTask 1) 0 id)
      [.insert 0, .insert 1, .get 1 0 false 0]).isSome = true := by
    decide +kernel
  obtain ⟨a, hrun⟩ := Option.isSome_iff_exists.mp hsome
  exact ⟨a, hrun, preferred_counted (.twoNodes 0) (fun _ => preferringTask 1) 0 id _ a hrun
    (by decide +kernel)⟩

/-- A parallel task is counted once when it is re-routed: after its first
execution is stolen the counter is zero, with an execution left. -/
theorem parallel_preferred_miscounted :
    ¬ ∀ (ops : List SchedOp) (a : Accounts),
      Run.run (Accounts.step (.twoNodes 0)) (.init (fun _ => preferringTask 2) 0 id) ops = some a →
        PreferredCounted (.twoNodes 0) a := by
  intro hall
  have heval : (Run.run (Accounts.step (.twoNodes 0)) (.init (fun _ => preferringTask 2) 0 id)
      [.insert 0, .get 1 0 false 0]).map (fun a =>
        ((a.sched.proc 0).preferredAffinityTasks, a.sched.owedPreferred (.twoNodes 0) 0))
      = some (0, 1) := by
    decide +kernel
  obtain ⟨a, hrun, hval⟩ := Option.map_eq_some_iff.mp heval
  have hcount := (hall _ a hrun).exact_count 0
  obtain ⟨h₁, h₂⟩ := Prod.mk.injEq .. |>.mp hval
  rw [h₁, h₂] at hcount
  cases hcount

end Nosv
