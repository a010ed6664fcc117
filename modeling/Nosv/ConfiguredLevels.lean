import Nosv.ConfigDomains
import Mathlib.Data.List.Pairwise

/-!
# Lists of CPUs that describe the machine

The lists of the configuration speak of the whole machine, and the process
may be bound to a part of it. `Reached` says which tables
`topology_init_from_config` is called on; the function makes what the lists
say of the binding exactly if the lists fit.
-/

namespace Nosv

namespace TopoTables

variable {t t' t₁ memory : TopoTables} {k j below : TopoLevel} {valid : Finset Nat} {c n : Nat}
  {siblings : Nat → Finset Nat} {config : List (Finset Nat)} {createRemaining : Bool}

/-- The tables before the levels that may come from the configuration: the
level, and the one below it. A CPU is in its own list of thread siblings. -/
inductive Reached (valid : Finset Nat) : TopoTables → TopoLevel → TopoLevel → Prop
  | cores {memory t₁ t : TopoTables} {siblings : Nat → Finset Nat} :
      (∀ c ∈ valid, c < topoNrCpus) → (∀ c ∈ valid, c ∈ siblings c) →
      memory.topologyInitCpus valid = some t₁ → t₁.topologyInitCores valid siblings = some t →
      Reached valid t .complexSet .core
  | complexSets {t t' : TopoTables} {config : List (Finset Nat)} :
      Reached valid t .complexSet .core → (∀ cpus ∈ config, ∀ c ∈ cpus, c < topoNrCpus) →
      t.topologyInitFromConfig .complexSet .core valid config true = some t' →
      Reached valid t' .numa .complexSet

/-! ## The lower levels -/

theorem initCpus_sMax {cpus : List Nat} (h : initCpus t n cpus = some t') : t'.sMax = t.sMax := by
  induction cpus generalizing t n with
  | nil =>
      obtain rfl := Option.some.inj h
      rfl
  | cons c cpus ih =>
      rw [initCpus] at h
      obtain ⟨t₁, h₁, h⟩ := Option.bind_eq_some_iff.mp h
      rw [ih h, (initDomain_eq h₁).2.2.2.2.1]

theorem initLevel_sMax_self {max : Int} {cnt : Nat} : (t.initLevel k max cnt).sMax k = max :=
  Function.update_self ..

theorem initLevel_sMax_ne {max : Int} {cnt : Nat} (h : j ≠ k) : (t.initLevel k max cnt).sMax j = t.sMax j :=
  Function.update_of_ne h _ _

theorem topologyInitCpus_sMax (h : memory.topologyInitCpus valid = some t) : t.sMax .cpu = topoNrCpus := by
  unfold topologyInitCpus at h
  rw [initCpus_sMax h]
  change (memory.initLevel .cpu topoNrCpus (forEachCpu valid).length).sMax .cpu = _
  exact initLevel_sMax_self

/-- With each CPU among its siblings, the cores have all CPUs. -/
theorem topologyInitCores_full (hc : CpuLevel t valid) (hlt : ∀ c ∈ valid, c < topoNrCpus)
    (hfresh : Fresh t valid .core) (hsib : ∀ c ∈ valid, c ∈ siblings c)
    (h : t.topologyInitCores valid siblings = some t') :
    Stage t t' valid .core valid ∧ Unlinked t' .core (t'.count .core) ∧ t'.sMax .cpu = t.sMax .cpu := by
  obtain ⟨U, hstage⟩ := topologyInitCores_stage hc hlt hfresh h
  unfold topologyInitCores at h
  obtain ⟨scan, hscan, h⟩ := Option.bind_eq_some_iff.mp h
  obtain ⟨hcard, h⟩ := Option.ite_none_left_eq_some.mp h
  rw [not_not] at hcard
  obtain rfl := Option.some.inj h
  have ho : Only .core t ((t.clearValid .core).initLevel .core topoNrCpus topoNrCpus) :=
    clearValid_only.trans initLevel_only
  have hstart : CoreInv t valid ⟨(t.clearValid .core).initLevel .core topoNrCpus topoNrCpus, 0, ∅⟩ :=
    ⟨.start (hfresh.of_dom ho (by decide) rfl) fun x => initLevel_sToL, hc.only ho (by decide), ho, by simp⟩
  have hrun := Run.foldlM_induction (P := fun done (scan : CoreScan) => CoreInv t valid scan
      ∧ (∀ c ∈ done, c ∈ scan.visited) ∧ Unlinked scan.tables .core scan.coreLogical
      ∧ scan.tables.sMax .cpu = t.sMax .cpu) hscan
    ⟨hstart, by simp, fun m hm => absurd hm (Nat.not_lt_zero m), initLevel_sMax_ne (by decide)⟩
    fun done c rest scan scan' hsplit ⟨hinv, hvisited, hunlinked, hsMax⟩ hstep => by
      refine ⟨hinv.step hlt hstep, ?_⟩
      have hv : c ∈ valid := (mem_forEachCpu.mp (hsplit ▸ List.mem_append_right _ List.mem_cons_self)).2
      unfold coreStep at hstep
      split at hstep
      case isTrue hin =>
        obtain rfl := Option.some.inj hstep
        refine ⟨fun c' hc' => ?_, hunlinked, hsMax⟩
        rcases List.mem_append.mp hc' with hc' | hc'
        · exact hvisited c' hc'
        · rwa [List.mem_singleton.mp hc']
      case isFalse =>
        obtain ⟨sid, hsid, hstep⟩ := Option.bind_eq_some_iff.mp hstep
        obtain ⟨t₁, hi, hstep⟩ := Option.bind_eq_some_iff.mp hstep
        obtain ⟨t₂, hu, hstep⟩ := Option.bind_eq_some_iff.mp hstep
        obtain rfl := Option.some.inj hstep
        obtain ⟨-, -, -, -, hf⟩ := updateCpus_eq (by decide) hu
        refine ⟨fun c' hc' => ?_, hunlinked.add (by decide) hi hu, ?_⟩
        · rcases List.mem_append.mp hc' with hc' | hc'
          · exact Finset.mem_union_left _ (hvisited c' hc')
          · obtain rfl := List.mem_singleton.mp hc'
            exact Finset.mem_union_right _ (Finset.mem_inter.mpr ⟨hsib c' hv, hv⟩)
        · change t₂.sMax .cpu = _
          rw [hf.sMax, (initDomain_eq hi).2.2.2.2.1, hsMax]
  obtain ⟨hinv, hvisited, hunlinked, hsMax⟩ := hrun
  refine ⟨?_, ?_, hsMax⟩
  · have hfull : U = valid := by
      refine Finset.Subset.antisymm hstage.built.part.sub fun c hv => ?_
      refine hstage.built.part.mem_of_nonneg hv ?_
      have hcv := hvisited c (mem_forEachCpu.mpr ⟨hlt c hv, hv⟩)
      exact hinv.built.part.nonneg hcv
    rwa [hfull] at hstage
  · rw [truncateLevel_count, ← hcard]
    exact hunlinked

theorem Unlinked.link (h : Unlinked t j (t.count j)) (hb : Built t valid j (t.count j) valid)
    (hrank : k.rank < j.rank) (hc : c ∈ valid) : t.link k j c = topoIdUnset := by
  obtain ⟨m, hm, hcm⟩ := hb.part.member c hc
  rw [TopoTables.link, hcm, Int.toNat_natCast, h m hm k hrank]

theorem CpuLevel.link (h : CpuLevel t valid) (hfresh : Fresh t valid k) (hc : c ∈ valid) :
    t.link k .cpu c = topoIdUnset := by
  rw [TopoTables.link, h.cpuParentLid_cpu hc, Int.toNat_natCast]
  exact hfresh c hc

theorem Only.link {i : TopoLevel} (h : Only k t t') (hk : k ≠ .cpu) (hi : i ≠ k) (hj : j ≠ k) (c : Nat) :
    t'.link i j c = t.link i j c := by
  rw [TopoTables.link, h.cpuParentLid hk hj, h.parents j hj i hi, TopoTables.link]

theorem Reached.prepared (h : Reached valid t k below) :
    Prepared t valid k ∧ k ≠ .cpu ∧ below.rank = k.rank + 1 := by
  induction h with
  | @cores memory t₁ t siblings hlt hsib h₁ h₂ =>
      refine ⟨?_, by decide, rfl⟩
      obtain ⟨hc₁, hfresh⟩ := topologyInitCpus_level hlt h₁
      obtain ⟨hstage, hunlinked, hsMax⟩ := topologyInitCores_full hc₁ hlt (hfresh .core (by decide)) hsib h₂
      refine ⟨hstage.cpus, hlt, fun c hc => ?_, fun j hj => ?_, fun i hi j hj c hc => ?_⟩
      · rw [hsMax, topologyInitCpus_sMax h₁]
        exact Int.ofNat_le.mpr (Nat.le_of_lt (hlt c hc))
      · cases j with
        | core => exact hstage.built
        | cpu => exact hstage.cpus.built
        | node | numa | complexSet => exact absurd hj (by decide)
      · have hne : i ≠ .cpu ∧ i ≠ .core ∧ i.rank < TopoLevel.rank .core := by
          cases i <;> first | exact absurd hi (by decide) | decide
        cases j with
        | core => exact hunlinked.link hstage.built hne.2.2 hc
        | cpu =>
            refine hstage.cpus.link ?_ hc
            exact (hfresh i hne.1).only hstage.only (by decide) hne.2.1
        | node | numa | complexSet => exact absurd hj (by decide)
  | @complexSets t t' config _ hlt h ih =>
      refine ⟨?_, by decide, rfl⟩
      obtain ⟨hp, hk, hbelow⟩ := ih
      have hstage := topologyInitFromConfig_stage hp.cpus hp.lt (by decide) hk (hp.lower .core (by decide))
        (hp.fresh hk) h
      obtain ⟨scan, hmakes, rfl⟩ := (topologyInitFromConfig_iff hp hk hbelow hlt).2 t' h
      have hunlinked : Unlinked (scan.tables.truncateLevel .complexSet scan.logicalId) .complexSet
          ((scan.tables.truncateLevel .complexSet scan.logicalId).count .complexSet) := by
        rw [truncateLevel_count]
        exact hmakes.unlinked
      refine ⟨hstage.cpus, hp.lt, fun c hc => ?_, fun j hj => ?_, fun i hi j hj c hc => ?_⟩
      · change (c : Int) ≤ scan.tables.sMax .cpu
        rw [hmakes.sMaxCpu]
        exact hp.sMax c hc
      · cases j with
        | complexSet => exact hstage.built
        | core =>
            rw [hstage.only.count .core (by decide)]
            exact (hp.lower .core (by decide)).only hstage.only (by decide)
        | cpu => exact hstage.cpus.built
        | node | numa => exact absurd hj (by decide)
      · have hne : i ≠ .complexSet ∧ i.rank < TopoLevel.rank .complexSet := by
          cases i <;> first | exact absurd hi (by decide) | decide
        cases j with
        | complexSet => exact hunlinked.link hstage.built hne.2 hc
        | core =>
            rw [hstage.only.link hk hne.1 (by decide)]
            exact hp.unlinked i (Nat.le_of_lt hne.2) .core (by decide) c hc
        | cpu =>
            rw [hstage.only.link hk hne.1 (by decide)]
            exact hp.unlinked i (Nat.le_of_lt hne.2) .cpu (by decide) c hc
        | node | numa => exact absurd hj (by decide)

/-! ## What the lists say -/

/-- The domains of the level below with no CPU in a list that is kept -/
def uncovered (t : TopoTables) (below : TopoLevel) (valid : Finset Nat) (config : List (Finset Nat)) :
    List Nat :=
  t.remaining below (covered (kept valid config 0)) (List.range (t.count below))

/-- One domain for each list that meets the binding, in order, with what the
binding has of it, and then one for each domain of the level below that no
list meets. -/
structure Describes (t t' : TopoTables) (k below : TopoLevel) (valid : Finset Nat)
    (config : List (Finset Nat)) (createRemaining : Bool) : Prop where
  count : t'.count k = (kept valid config 0).length
    + if createRemaining then (t.uncovered below valid config).length else 0
  own : ∀ m < t'.count k, (t'.dom k m).parents k = m
  lists : ∀ m p, (kept valid config 0)[m]? = some p → (t'.dom k m).cpuSidMask = p.1 ∩ valid
  rest : createRemaining = true → ∀ m i, (t.uncovered below valid config)[m]? = some i →
    (t'.dom k ((kept valid config 0).length + m)).cpuSidMask = (t.dom below i).cpuSidMask

/-- The lists that meet the binding are inside it and split no lower domain,
and the system ids have a place. -/
structure ListsFit (t : TopoTables) (k below : TopoLevel) (valid : Finset Nat) (config : List (Finset Nat))
    (createRemaining : Bool) : Prop where
  inside : ∀ p ∈ kept valid config 0, p.1 ⊆ valid
  whole : ∀ p ∈ kept valid config 0, ∀ j, k.rank < j.rank → ∀ l < t.count j,
    ¬ Disjoint (t.dom j l).cpuSidMask p.1 → (t.dom j l).cpuSidMask ⊆ p.1
  ids : ∀ p ∈ kept valid config 0, p.2 < t.count below
  remainingIds : createRemaining = true → t.uncovered below valid config = []
    ∨ config.length + (t.uncovered below valid config).length ≤ t.count below

theorem mem_remainingMade {U : Finset Nat} {is : List Nat} {p : Finset Nat × Nat} :
    p ∈ remainingMade t below U is n ↔ ∃ m i, (t.remaining below U is)[m]? = some i
      ∧ p = ((t.dom below i).cpuSidMask, n + m) := by
  rw [remainingMade, List.mem_map]
  constructor
  · rintro ⟨⟨i, m⟩, hin, rfl⟩
    obtain ⟨hle, hget⟩ := List.mk_mem_zipIdx_iff_le_and_getElem?_sub.mp hin
    exact ⟨m - n, i, hget, by rw [Nat.add_sub_cancel' hle]⟩
  · rintro ⟨m, i, hget, rfl⟩
    exact ⟨(i, n + m), List.mk_add_mem_zipIdx_iff_getElem?.mpr hget, rfl⟩

theorem remainingMade_getElem? {U : Finset Nat} {is : List Nat} {m i : Nat}
    (h : (t.remaining below U is)[m]? = some i) :
    (remainingMade t below U is n)[m]? = some ((t.dom below i).cpuSidMask, n + m) := by
  rw [remainingMade, List.getElem?_map, List.getElem?_zipIdx, h]
  rfl

/-- The ids of the remaining domains are consecutive. -/
theorem remainingMade_ids {U : Finset Nat} {is : List Nat} {max : Nat} :
    (∀ p ∈ remainingMade t below U is n, p.2 < max)
      ↔ t.remaining below U is = [] ∨ n + (t.remaining below U is).length ≤ max := by
  constructor
  · intro h
    by_cases hnil : t.remaining below U is = []
    · exact Or.inl hnil
    · have hpos := List.length_pos_iff.mpr hnil
      have hlast := List.getElem?_eq_getElem (by omega :
        (t.remaining below U is).length - 1 < (t.remaining below U is).length)
      have := h _ (mem_remainingMade.mpr ⟨_, _, hlast, rfl⟩)
      exact Or.inr (by dsimp only at this; omega)
  · rintro h p hp
    obtain ⟨m, i, hget, rfl⟩ := mem_remainingMade.mp hp
    obtain ⟨hm, -⟩ := List.getElem?_eq_some_iff.mp hget
    rcases h with hnil | hle
    · rw [hnil] at hm
      exact absurd hm (Nat.not_lt_zero m)
    · dsimp only
      omega

theorem Apart.symm {P Q : Finset Nat} (h : Apart t k P Q) : Apart t k Q P :=
  fun c hc c' hc' j hj heq => h c' hc' c hc j hj heq.symm

/-- Disjoint lists that split no lower domain share none. -/
theorem apart_kept (hp : Prepared t valid k) (hdisj : config.Pairwise Disjoint)
    (hinside : ∀ p ∈ kept valid config 0, p.1 ⊆ valid)
    (hwhole : ∀ p ∈ kept valid config 0, ∀ j, k.rank < j.rank → ∀ l < t.count j,
      ¬ Disjoint (t.dom j l).cpuSidMask p.1 → (t.dom j l).cpuSidMask ⊆ p.1) :
    (kept valid config 0).Pairwise fun p q => Apart t k p.1 q.1 := by
  have hpairs : (kept valid config 0).Pairwise fun p q => Disjoint p.1 q.1 := by
    refine List.Pairwise.filter _ ?_
    rw [← List.zipIdx_map_fst 0 config] at hdisj
    exact List.pairwise_map.mp hdisj
  refine hpairs.imp_of_mem fun {p q} hpin hqin hpq c hc c' hc' j hj heq => ?_
  have hb := hp.lower j hj
  obtain ⟨l, hl, hcl⟩ := hb.part.member c (hinside p hpin hc)
  have hin := (hb.part.sidMask l hl c).mpr ⟨hinside p hpin hc, hcl⟩
  have hin' := (hb.part.sidMask l hl c').mpr ⟨hinside q hqin hc', by rw [← heq, hcl]⟩
  have hmeets : ¬ Disjoint (t.dom j l).cpuSidMask p.1 := Finset.not_disjoint_iff.mpr ⟨c, hin, hc⟩
  exact Finset.disjoint_left.mp hpq (hwhole p hpin j hj l hl hmeets hin') hc'

/-- The lists and the domains that are left have all CPUs. -/
theorem covered_madeFrom (hp : Prepared t valid k) (hbelow : below.rank = k.rank + 1)
    (hcover : createRemaining = false → ∀ c ∈ valid, ∃ cpus ∈ config, c ∈ cpus)
    (hfit : ListsFit t k below valid config createRemaining) :
    covered (madeFrom t below valid config createRemaining) = valid := by
  have hb := hp.lower below (by omega)
  have hrank : k.rank < below.rank := by omega
  ext c
  rw [mem_covered]
  constructor
  · rintro ⟨p, hpin, hc⟩
    rcases List.mem_append.mp hpin with hpin | hpin
    · exact hfit.inside p hpin hc
    · split at hpin
      case isFalse => exact absurd hpin List.not_mem_nil
      case isTrue =>
        obtain ⟨m, i, hget, rfl⟩ := mem_remainingMade.mp hpin
        have hi : i < t.count below := List.mem_range.mp
          (List.mem_of_mem_filter (List.mem_of_getElem? hget))
        exact hp.mask_sub hbelow hi hc
  · intro hv
    cases createRemaining with
    | false =>
        obtain ⟨cpus, hin, hc⟩ := hcover rfl c hv
        obtain ⟨i, hget⟩ := List.getElem?_of_mem hin
        refine ⟨(cpus, i), List.mem_append_left _ (mem_kept.mpr ⟨hget, ?_⟩), hc⟩
        exact Finset.nonempty_iff_ne_empty.mp ⟨c, Finset.mem_inter.mpr ⟨hc, hv⟩⟩
    | true =>
        obtain ⟨l, hl, hcl⟩ := hb.part.member c hv
        have hin := (hb.part.sidMask l hl c).mpr ⟨hv, hcl⟩
        by_cases hdisj : Disjoint (t.dom below l).cpuSidMask (covered (kept valid config 0))
        · have hrem : l ∈ t.remaining below (covered (kept valid config 0)) (List.range (t.count below)) :=
            List.mem_filter.mpr ⟨List.mem_range.mpr hl, decide_eq_true hdisj⟩
          obtain ⟨m, hget⟩ := List.getElem?_of_mem hrem
          refine ⟨((t.dom below l).cpuSidMask, config.length + m), List.mem_append_right _ ?_, hin⟩
          rw [if_pos rfl]
          exact mem_remainingMade.mpr ⟨m, l, hget, rfl⟩
        · obtain ⟨c', hc', hcov⟩ := Finset.not_disjoint_iff.mp hdisj
          obtain ⟨p, hpin, hcp⟩ := mem_covered.mp hcov
          have hmeets : ¬ Disjoint (t.dom below l).cpuSidMask p.1 :=
            Finset.not_disjoint_iff.mpr ⟨c', hc', hcp⟩
          exact ⟨p, List.mem_append_left _ hpin, hfit.whole p hpin below hrank l hl hmeets hin⟩

/-- The ids of all domains have a place if those of the lists and of the
remaining domains have. -/
theorem madeFrom_ids :
    (∀ p ∈ madeFrom t below valid config createRemaining, p.2 < t.count below)
      ↔ (∀ p ∈ kept valid config 0, p.2 < t.count below)
        ∧ (createRemaining = true → t.uncovered below valid config = []
          ∨ config.length + (t.uncovered below valid config).length ≤ t.count below) := by
  rw [madeFrom, List.forall_mem_append]
  refine and_congr_right fun _ => ?_
  cases createRemaining with
  | false => exact iff_of_true (fun p hp => absurd hp List.not_mem_nil) fun h => absurd h Bool.false_ne_true
  | true =>
      rw [if_pos rfl, remainingMade_ids]
      exact ⟨fun h _ => h, fun h => h rfl⟩

/-- What the run has made is what the lists say. -/
theorem Makes.describes {scan : ConfigScan}
    (h : Makes t valid k (t.count below - 1) (madeFrom t below valid config createRemaining) scan)
    (hinside : ∀ p ∈ kept valid config 0, p.1 ⊆ valid) :
    Describes t (scan.tables.truncateLevel k scan.logicalId) k below valid config createRemaining where
  count := by
    rw [truncateLevel_count, h.length, madeFrom, List.length_append]
    cases createRemaining with
    | false => rfl
    | true =>
        rw [if_pos rfl, if_pos rfl, remainingMade, List.length_map, List.length_zipIdx]
        rfl
  own m hm := by
    rw [truncateLevel_count] at hm
    exact h.inv.built.part.own m hm
  lists m p hget := by
    have hlt := (List.getElem?_eq_some_iff.mp hget).1
    have hmade : (madeFrom t below valid config createRemaining)[m]? = some p := by
      rw [madeFrom, List.getElem?_append_left hlt, hget]
    rw [Finset.inter_eq_left.mpr (hinside p (List.mem_of_getElem? hget))]
    exact (h.domains m p hmade).2
  rest hrem m i hget := by
    subst hrem
    have hmade : (madeFrom t below valid config true)[(kept valid config 0).length + m]?
        = some ((t.dom below i).cpuSidMask, config.length + m) := by
      rw [madeFrom, List.getElem?_append_right (Nat.le_add_right _ _), Nat.add_sub_cancel_left, if_pos rfl]
      exact remainingMade_getElem? hget
    exact (h.domains _ _ hmade).2

/-- A list that a domain of a lower level meets has all of the domain, when
the function has gone through: else another domain made would share it. -/
theorem Makes.whole {scan : ConfigScan} {made : List (Finset Nat × Nat)} {max : Int} {l : Nat}
    (h : Makes t valid k max made scan) (hp : Prepared t valid k) (hcov : covered made = valid)
    {p : Finset Nat × Nat} (hpin : p ∈ made) (hj : k.rank < j.rank) (hl : l < t.count j)
    (hmeets : ¬ Disjoint (t.dom j l).cpuSidMask p.1) : (t.dom j l).cpuSidMask ⊆ p.1 := by
  have hb := hp.lower j hj
  obtain ⟨c, hc, hcp⟩ := Finset.not_disjoint_iff.mp hmeets
  intro c' hc'
  obtain ⟨hv', hlid'⟩ := (hb.part.sidMask l hl c').mp hc'
  have hlid := ((hb.part.sidMask l hl c).mp hc).2
  obtain ⟨q, hqin, hcq⟩ := mem_covered.mp (by rw [hcov]; exact hv' : c' ∈ covered made)
  by_cases heq : p = q
  · rwa [heq]
  · have hsymm : Std.Symm fun p q : Finset Nat × Nat => Apart t k p.1 q.1 := ⟨fun _ _ hpq => hpq.symm⟩
    have hapart := h.apart.forall hpin hqin heq
    exact absurd (hlid.trans hlid'.symm) (hapart c hcp c' hcq j hj)

/-- Disjoint lists that have all CPUs, or are completed by the remaining
domains, are made into the domains that they say for the binding exactly
when they fit. -/
theorem configured_domains (hreach : Reached valid t k below)
    (hlt : ∀ cpus ∈ config, ∀ c ∈ cpus, c < topoNrCpus) (hdisj : config.Pairwise Disjoint)
    (hcover : createRemaining = false → ∀ c ∈ valid, ∃ cpus ∈ config, c ∈ cpus) :
    (∃ t', t.topologyInitFromConfig k below valid config createRemaining = some t'
        ∧ Describes t t' k below valid config createRemaining)
      ↔ ListsFit t k below valid config createRemaining := by
  obtain ⟨hp, hk, hbelow⟩ := hreach.prepared
  obtain ⟨hiff, hmakes⟩ :=
    topologyInitFromConfig_iff hp hk hbelow hlt
  constructor
  · rintro ⟨t', h, -⟩
    obtain ⟨hadd, hids, hcov⟩ := hiff.mp ⟨t', h⟩
    obtain ⟨scan, hmade, -⟩ := hmakes t' h
    obtain ⟨hkept, hrest⟩ := madeFrom_ids.mp hids
    refine ⟨fun p hpin => (hadd.1 p hpin).2, fun p hpin j hj l hl hmeets => ?_, hkept, hrest⟩
    exact hmade.whole hp hcov (List.mem_append_left _ hpin) hj hl hmeets
  · intro hfit
    have hadd : Addable t k valid (t.count below - 1) [] (kept valid config 0) := by
      refine ⟨fun p hpin => ⟨?_, hfit.inside p hpin⟩, apart_kept hp hdisj hfit.inside hfit.whole⟩
      have := hfit.ids p hpin
      omega
    obtain ⟨t', h⟩ := hiff.mpr
      ⟨hadd, madeFrom_ids.mpr ⟨hfit.ids, hfit.remainingIds⟩, covered_madeFrom hp hbelow hcover hfit⟩
    obtain ⟨scan, hmade, rfl⟩ := hmakes t' h
    exact ⟨_, h, hmade.describes hfit.inside⟩

/-- Some memory with CPUs and cores set up -/
theorem exists_reached_cores (hlt : ∀ c ∈ valid, c < topoNrCpus) (hsib : ∀ c ∈ valid, c ∈ siblings c)
    (h : ((someMemory.topologyInitCpus valid).bind fun t => t.topologyInitCores valid siblings).isSome = true) :
    ∃ t, Reached valid t .complexSet .core := by
  obtain ⟨t, ht⟩ := Option.isSome_iff_exists.mp h
  obtain ⟨t₁, h₁, h₂⟩ := Option.bind_eq_some_iff.mp ht
  exact ⟨t, .cores hlt hsib h₁ h₂⟩

/-- Three CPUs on two cores, and a list for one of them -/
theorem configured_domains_three :
    ∃ t, Reached {1, 2, 4} t .complexSet .core
      ∧ ((∃ t', t.topologyInitFromConfig .complexSet .core {1, 2, 4} [{4}, {7}] true = some t'
          ∧ Describes t t' .complexSet .core {1, 2, 4} [{4}, {7}] true)
        ↔ ListsFit t .complexSet .core {1, 2, 4} [{4}, {7}] true) := by
  obtain ⟨t, ht⟩ := exists_reached_cores (by decide : ∀ c ∈ ({1, 2, 4} : Finset Nat), c < topoNrCpus)
    (by decide : ∀ c ∈ ({1, 2, 4} : Finset Nat), c ∈ if c = 4 then ({4} : Finset Nat) else {1, 2}) (by decide +kernel)
  exact ⟨t, ht, configured_domains ht (by decide) (by decide) fun h => nomatch h⟩

/-- A process bound to CPUs 0 and 1 of the four CPUs of a list -/
theorem list_beyond_binding :
    ∃ t, Reached {0, 1} t .complexSet .core
      ∧ t.topologyInitFromConfig .complexSet .core {0, 1} [{0, 1, 2, 3}] true = none := by
  obtain ⟨t, ht⟩ := exists_reached_cores (by decide : ∀ c ∈ ({0, 1} : Finset Nat), c < topoNrCpus)
    (by decide : ∀ c ∈ ({0, 1} : Finset Nat), c ∈ ({c} : Finset Nat)) (by decide +kernel)
  refine ⟨t, ht, ?_⟩
  obtain ⟨hp, hk, hbelow⟩ := ht.prepared
  by_contra hne
  obtain ⟨t', ht'⟩ := Option.ne_none_iff_exists'.mp hne
  have hadd := ((topologyInitFromConfig_iff hp hk hbelow (by decide)).1.mp ⟨t', ht'⟩).1
  have hsub := (hadd.1 ({0, 1, 2, 3}, 0) (by decide)).2
  exact absurd hsub (by decide)

end TopoTables

end Nosv
