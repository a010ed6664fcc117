import Nosv.SchedulerRuns

/-!
# Affinity routing

Two functions translate the affinity of a task: `task_affine`, which
tells a search whether it may hand the task to its CPU, and
`scheduler_insert_affine`, which chooses the queue that other CPUs will
find it in. They agree on every task exactly when the NUMA domains of the
machine have their logical ids as system ids: `task_affine` compares the
*logical* id of the domain of the task with the *system* id of the domain
of the CPU.
-/

namespace Nosv

open RBTree Relation Places

/-- `cpu` lies in the domain that the affinity names. -/
def InDomain (topo : Topology) (a : Affinity) (cpu : Nat) : Prop :=
  match a.level with
  | .cpu => topo.cpuSid cpu = a.index
  | .numa => topo.topoDomSid .numa (topo.cpuParentNuma cpu) = a.index
  | _ => True

instance (topo : Topology) (cpu : Nat) : ∀ a : Affinity, Decidable (InDomain topo a cpu)
  | ⟨.cpu, _, index⟩ => inferInstanceAs (Decidable (topo.cpuSid cpu = index))
  | ⟨.numa, _, index⟩ => inferInstanceAs
      (Decidable (topo.topoDomSid .numa (topo.cpuParentNuma cpu) = index))
  | ⟨.none, _, _⟩ => isTrue trivial
  | ⟨.userComplex, _, _⟩ => isTrue trivial

/-- `task_affine` holds of a CPU exactly when that CPU polls the queue of
the task. -/
def RoutingAgrees (topo : Topology) : Prop :=
  ∀ cpu, cpu < topo.count .cpu → ∀ a : Affinity, a.HasQueue → a.Valid topo →
    (taskAffine topo a cpu = true ↔ affineQueue topo a ∈ polledQueues topo cpu)

/-- The NUMA domains are numbered alike by the system and by nOS-V. -/
def NumaIdentity (topo : Topology) : Prop :=
  ∀ n, n < topo.count .numa → topo.systemId .numa n = n

variable {topo : Topology} {a : Affinity} {cpu : Nat}

/-! ## The two translations -/

theorem mem_polled_cpu (hl : a.level = .cpu) (hv : a.Valid topo)
    (hcpu : cpu < topo.count .cpu) :
    affineQueue topo a ∈ polledQueues topo cpu ↔ topo.cpuSid cpu = a.index := by
  obtain ⟨i, hi, hsid, hlid⟩ := Topology.topoDomLid_of_exists (hv.1 hl)
  have hiff : i = cpu ↔ topo.cpuSid cpu = a.index := by
    rw [← hsid]
    exact ⟨fun h => h ▸ rfl, fun h => (Topology.systemId_inj hcpu hi h).symm⟩
  rw [← hiff]
  simp only [affineQueue, hl, hlid, Int.toNat_natCast, polledQueues]
  split <;> simp

theorem mem_polled_numa (hl : a.level = .numa) (hv : a.Valid topo)
    (hcpu : cpu < topo.count .cpu) :
    affineQueue topo a ∈ polledQueues topo cpu
      ↔ topo.topoDomSid .numa (topo.cpuParentNuma cpu) = a.index := by
  obtain ⟨i, hi, hsid, hlid⟩ := Topology.topoDomLid_of_exists (hv.2 hl)
  have hnuma := topo.logicalNuma_lt cpu hcpu
  have hiff : i = topo.cpuParentNuma cpu
      ↔ topo.topoDomSid .numa (topo.cpuParentNuma cpu) = a.index := by
    rw [← hsid]
    exact ⟨fun h => h ▸ rfl, fun h => (Topology.systemId_inj hnuma hi h).symm⟩
  rw [← hiff]
  simp only [affineQueue, hl, hlid, Int.toNat_natCast, polledQueues]
  split <;> simp

/-- A CPU polls the queues of the domains it lies in. -/
theorem mem_polled_iff (hq : a.HasQueue) (hv : a.Valid topo) (hcpu : cpu < topo.count .cpu) :
    affineQueue topo a ∈ polledQueues topo cpu ↔ InDomain topo a cpu := by
  rcases hq with hl | hl
  · simp only [InDomain, hl]
    exact mem_polled_cpu hl hv hcpu
  · simp only [InDomain, hl]
    exact mem_polled_numa hl hv hcpu

theorem taskAffine_cpu (hl : a.level = .cpu) :
    taskAffine topo a cpu = true ↔ topo.cpuSid cpu = a.index := by
  simp only [taskAffine, hl, decide_eq_true_eq]
  exact eq_comm

/-- With equal numbering `task_affine` tells the domain. -/
theorem taskAffine_iff_inDomain (hid : NumaIdentity topo) (hv : a.Valid topo)
    (hcpu : cpu < topo.count .cpu) :
    taskAffine topo a cpu = true ↔ InDomain topo a cpu := by
  cases hl : a.level with
  | none => simp [taskAffine, InDomain, hl]
  | userComplex => simp [taskAffine, InDomain, hl]
  | cpu =>
      rw [taskAffine_cpu hl]
      simp only [InDomain, hl]
  | numa =>
      obtain ⟨i, hi, hsid, hlid⟩ := Topology.topoDomLid_of_exists (hv.2 hl)
      have hnuma : topo.topoDomSid .numa (topo.cpuParentNuma cpu) = topo.cpuParentNuma cpu :=
        hid _ (topo.logicalNuma_lt cpu hcpu)
      have hindex : a.index = i := hsid.symm.trans (hid i hi)
      simp only [taskAffine, InDomain, hl, hlid, hnuma, decide_eq_true_eq]
      omega

theorem routingAgrees_iff : RoutingAgrees topo ↔ NumaIdentity topo := by
  constructor
  · intro h n hn
    -- a CPU of the domain polls its queue, so `task_affine` must accept it
    obtain ⟨cpu, hcpu, hnuma⟩ := topo.numa_nonempty n hn
    let a : Affinity := ⟨.numa, .strict, topo.systemId .numa n⟩
    have hv : a.Valid topo := ⟨fun hl => (nomatch hl), fun _ => ⟨n, hn, rfl⟩⟩
    have hmem := (mem_polled_iff (Or.inr rfl) hv hcpu).mpr
      (show topo.systemId .numa (topo.logicalNuma cpu) = _ by rw [hnuma])
    have haff := (h cpu hcpu a (Or.inr rfl) hv).mpr hmem
    simp only [taskAffine, a, Topology.topoDomLid, topo.sToL_systemId .numa n hn,
      Topology.cpuParentNuma, hnuma, Topology.topoDomSid, decide_eq_true_eq] at haff
    omega
  · intro hid cpu hcpu a hq hv
    rw [taskAffine_iff_inDomain hid hv hcpu, mem_polled_iff hq hv hcpu]

/-! ## Strict tasks -/

/-- A search hands a strict task only to a CPU of its domain. -/
def StrictInDomain (topo : Topology) (acc : Accounts) : SchedOp → Prop
  | .get cpu pid external ts => cpu < topo.count .cpu → ∀ t,
      (schedulerGetInternal topo acc.sched cpu pid external ts).1 = some t →
      (acc.sched.task t).affinity.type = .strict →
      InDomain topo (acc.sched.task t).affinity cpu
  | _ => True

theorem not_main_of_polled {i : QueueId} (h : i ∈ polledQueues topo cpu) : i ≠ .main := by
  rintro rfl
  simp [polledQueues] at h

theorem preferred_of_mem {i : QueueId} (h : i ∈ preferredQueues topo) :
    i.isPreferred = true := by
  simp only [preferredQueues, List.mem_append, List.mem_map, List.mem_range] at h
  rcases h with ⟨j, -, rfl⟩ | ⟨j, -, rfl⟩ <;> rfl

/-- The task that is taken is affine to the CPU, or comes from a queue
that the CPU polls, or is stolen from a preferred queue. -/
theorem Take.inDomain {s s' : Scheduler} {p : Nat} {t : TaskId} {removed : Int}
    (hid : NumaIdentity topo) (hcpu : cpu < topo.count .cpu) (hb : Base topo s)
    (h : Take topo cpu s p t removed s') (hstrict : (s.task t).affinity.type = .strict) :
    InDomain topo (s.task t).affinity cpu := by
  obtain ⟨c, rest, htakes⟩ := h.effect hb.linked
  have hv := (hb.fits _ _ htakes.mem).valid
  have hdom := taskAffine_iff_inDomain hid hv hcpu
  cases h with
  | deadline hmin haff => exact hdom.mp haff
  | yield hhead haff => exact hdom.mp haff
  | @queue i t removed s₁ hpoll hget =>
      obtain ⟨hfind, -, -⟩ := schedulerGetFromQueue_some hget
      have hmem : t ∈ s.places (p, .queue i) := Multiset.mem_coe.mpr (find_mem_contents hfind)
      have hfit := hb.fits _ _ hmem
      rcases hpoll with hpolled | hpref | ⟨-, haff⟩
      · obtain ⟨hq, hi⟩ := hfit.routed i rfl (not_main_of_polled hpolled)
        rw [hi] at hpolled
        exact (mem_polled_iff hq hv hcpu).mp hpolled
      · have hp := preferred_of_mem hpref
        have hne : i ≠ .main := by
          rintro rfl
          cases hp
        obtain ⟨hq, hi⟩ := hfit.routed i rfl hne
        rw [hi, isPreferred_affineQueue hq, hstrict] at hp
        cases hp
      · exact hdom.mp haff

theorem strictInDomain_of_base {acc : Accounts} {op : SchedOp} (hid : NumaIdentity topo)
    (hb : Base topo acc.sched) : StrictInDomain topo acc op := by
  cases op with
  | get cpu pid external ts =>
      intro hcpu t hres hstrict
      cases hget : schedulerGetInternal topo acc.sched cpu pid external ts with
      | mk r s' =>
          rw [hget] at hres
          obtain rfl : r = some t := hres
          obtain ⟨s₁, hr, hb₁, p, -, c, removed, rest, s₂, s₃, htake, -⟩ := get_cases hb hget
          have haff := ((reroutes_frame hb hr).task t).affinity
          rw [← haff] at hstrict ⊢
          exact htake.inDomain hid hcpu hb₁ hstrict
  | prepare | insert | purge | cancel | wake => trivial

/-- The search of every run keeps strict tasks inside their domains. -/
def StrictRuns (topo : Topology) : Prop :=
  ∀ (task : TaskId → Task) (quantumNs : Nat) (clock : Nat → Nat) (ops : List SchedOp),
    Run.Along (Accounts.step topo) (ValidInsert topo) (.init task quantumNs clock) ops →
    Run.Along (Accounts.step topo) (StrictInDomain topo) (.init task quantumNs clock) ops

theorem strictRuns_of_identity (hid : NumaIdentity topo) : StrictRuns topo := by
  intro task quantumNs clock ops hC
  have hinit : Base topo (Accounts.init task quantumNs clock).sched := base_init ..
  exact Run.along_of_invariant (I := fun acc => Base topo acc.sched)
    (fun _ _ _ => base_step) (fun _ _ _ hb => strictInDomain_of_base hid hb) hC hinit

/-- Testing and routing agree, and strict tasks stay in their domains,
exactly on the machines whose NUMA domains are numbered alike by the
system and by nOS-V. -/
theorem routing_iff_numaIdentity (topo : Topology) :
    RoutingAgrees topo ∧ StrictRuns topo ↔ NumaIdentity topo :=
  ⟨fun h => routingAgrees_iff.mp h.1,
    fun hid => ⟨routingAgrees_iff.mpr hid, strictRuns_of_identity hid⟩⟩

/-- A task that may only run in the NUMA domain with system id two. -/
def strictTask : Task := nosvCreateInternal 0 ⟨.numa, .strict, 2⟩

/-- Two NUMA domains with system ids one and two: the strict task of the
second is handed to the CPU of the first. -/
theorem routing_fails_without_node_zero :
    ¬ (RoutingAgrees (.twoNodes 1) ∧ StrictRuns (.twoNodes 1)) := by
  rintro ⟨-, hstrict⟩
  have hvalid : Run.Along (Accounts.step (.twoNodes 1)) (ValidInsert (.twoNodes 1))
      (.init (fun _ => strictTask) 0 id) [.insert 0, .get 0 0 false 0] := by
    decide +kernel
  have heval : (Accounts.step (.twoNodes 1) (.init (fun _ => strictTask) 0 id) (.insert 0)).map
      (fun acc => ((schedulerGetInternal (.twoNodes 1) acc.sched 0 0 false 0).1,
        (acc.sched.task 0).affinity)) = some (some 0, ⟨.numa, .strict, 2⟩) := by
    decide +kernel
  obtain ⟨acc, hstep, hval⟩ := Option.map_eq_some_iff.mp heval
  obtain ⟨hres, haff⟩ := Prod.mk.injEq .. |>.mp hval
  have hget := (Run.along_cons hstep (hstrict _ _ _ _ hvalid)).2.1
  have hdom := hget (by decide) 0 hres (by rw [haff])
  rw [haff] at hdom
  exact absurd hdom (by decide)

end Nosv
