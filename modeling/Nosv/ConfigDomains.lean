import Nosv.TopoHierarchy

/-!
# Domains from the configuration

What `topology_init_from_config` makes of lists of CPUs, exactly: when the
update of a CPU succeeds, when a domain can be added to those that are
there, and from this what a run over the lists and over the remaining
domains of the level below makes (`Made`).
-/

namespace Nosv

namespace TopoTables

variable {t t' t₁ : TopoTables} {k j : TopoLevel} {valid U cpus : Finset Nat} {m n c c' : Nat}

/-- The domain of level `k` that the domain of a CPU at a lower level is
linked to -/
def link (t : TopoTables) (k j : TopoLevel) (c : Nat) : Int :=
  (t.dom j (t.cpuParentLid j c).toNat).parents k

/-! ## One CPU -/

theorem domainSetParent_dom (i : TopoLevel) (lid : Nat) (p : Int) (j : TopoLevel) (l : Nat) :
    (t.domainSetParent i lid k p).dom j l = if j = i ∧ lid = l then
        { t.dom j l with parents := Function.update (t.dom j l).parents k p }
      else t.dom j l := by
  split
  case isTrue hjl =>
    obtain ⟨rfl, rfl⟩ := hjl
    rw [domainSetParent, setDom_dom_self]
  case isFalse hjl =>
    refine setDom_dom_ne ?_
    by_cases hj : j = i
    · exact Or.inr fun hl => hjl ⟨hj, hl.symm⟩
    · exact Or.inl hj

/-- The loop over the levels succeeds if every link is unset or the new one
already. -/
theorem exists_foldlM_updateLevel {cpu : Nat} {levels : List TopoLevel} (hk : k ∉ levels)
    (hnd : levels.Nodup)
    (h : ∀ j ∈ levels, 0 ≤ (t.dom .cpu cpu).parents j
      ∧ ((t.dom j ((t.dom .cpu cpu).parents j).toNat).parents k = topoIdUnset
        ∨ (t.dom j ((t.dom .cpu cpu).parents j).toNat).parents k = m)) :
    ∃ t', levels.foldlM (updateLevel k m cpu) t = some t' := by
  induction levels generalizing t with
  | nil => exact ⟨t, rfl⟩
  | cons i levels ih =>
      obtain ⟨hi, hnd⟩ := List.nodup_cons.mp hnd
      rw [List.mem_cons, not_or] at hk
      obtain ⟨hnonneg, hlink⟩ := h i List.mem_cons_self
      have hstep : updateLevel k m cpu t i
          = some (t.domainSetParent i ((t.dom .cpu cpu).parents i).toNat k m) := by
        have hprev : ¬ ((t.dom i ((t.dom .cpu cpu).parents i).toNat).parents k ≠ topoIdUnset
            ∧ (t.dom i ((t.dom .cpu cpu).parents i).toNat).parents k ≠ m) := by
          rintro ⟨hunset, hne⟩
          exact hlink.elim hunset hne
        unfold updateLevel
        dsimp only
        rw [if_neg (Int.not_lt.mpr hnonneg), if_neg hprev]
      -- the CPU is linked to the other levels as before
      have hcpu : ∀ j ≠ k, ((t.domainSetParent i ((t.dom .cpu cpu).parents i).toNat k m).dom
          .cpu cpu).parents j = (t.dom .cpu cpu).parents j := by
        intro j hj
        rw [domainSetParent_dom]
        split
        · exact Function.update_of_ne hj _ _
        · rfl
      rw [List.foldlM_cons, hstep]
      refine ih hk.2 hnd fun j hj => ?_
      have hjk : j ≠ k := fun heq => hk.2 (heq ▸ hj)
      have hji : j ≠ i := fun heq => hi (heq ▸ hj)
      rw [hcpu j hjk, domainSetParent_dom, if_neg fun heq => hji heq.1]
      exact h j (List.mem_cons_of_mem _ hj)

theorem exists_updateCpuAndParents (hk : k ≠ .cpu) (hmax : (c : Int) ≤ t.sMax .cpu)
    (hs : 0 ≤ t.sToL .cpu c)
    (h : ∀ j, k.rank < j.rank → 0 ≤ t.cpuParentLid j c
      ∧ (t.link k j c = topoIdUnset ∨ t.link k j c = m)) :
    ∃ t', t.updateCpuAndParents k m c = some t' := by
  have hself : k ∉ levelsBelow k := fun hin => Nat.lt_irrefl _ (mem_levelsBelow.mp hin)
  unfold updateCpuAndParents
  rw [if_neg (by omega)]
  refine exists_foldlM_updateLevel hself nodup_levelsBelow fun j hj => ?_
  have hrank := mem_levelsBelow.mp hj
  rw [setDom_dom_ne (.inl hk.symm), setDom_dom_ne (.inl (ne_of_rank_lt hrank))]
  exact h j hrank

/-! ## The CPUs of a domain -/

/-- What the loop over the CPUs leaves alone, and what it puts into the
domain -/
theorem updateCpus_eq (hk : k ≠ .cpu) {cs : List Nat}
    (h : cs.foldlM (updateCpuAndParents k m) t = some t') :
    (∀ l ≠ m, t'.dom k l = t.dom k l)
    ∧ (t'.dom k m).cpuSidMask = (t.dom k m).cpuSidMask ∪ cs.toFinset
    ∧ (t'.dom k m).parents = (t.dom k m).parents
    ∧ (∀ j ≠ k, ∀ l, (∀ c ∈ cs, t.cpuParentLid j c ≠ (l : Nat)) → t'.dom j l = t.dom j l)
    ∧ Fills k t t' := by
  induction cs generalizing t with
  | nil =>
      obtain rfl := Option.some.inj h
      exact ⟨fun _ _ => rfl, by simp, rfl, fun _ _ _ _ => rfl, .refl k t⟩
  | cons c cs ih =>
      rw [List.foldlM_cons] at h
      obtain ⟨t₁, h₁, h⟩ := Option.bind_eq_some_iff.mp h
      have hf := updateCpuAndParents_fills hk h₁
      obtain ⟨-, -, -, -, -, hother, hself, hdom⟩ := updateCpuAndParents_eq hk h₁
      obtain ⟨hother', hmask, hpar, hdom', hf'⟩ := ih h
      refine ⟨fun l hl => (hother' l hl).trans (hother l hl), ?_, ?_, fun j hj l hl => ?_, hf.trans hf'⟩
      · rw [hmask, hself, List.toFinset_cons, Finset.insert_union, Finset.union_insert]
      · rw [hpar, hself]
      · rw [hdom' j hj l fun c' hc' => ?_, hdom j hj l, if_neg fun heq => ?_]
        · exact hl c List.mem_cons_self heq.2
        · rw [hf.only.cpuParentLid hk hj]
          exact hl c' (List.mem_cons_of_mem _ hc')

/-- The first `n` domains of the level are linked to no domain yet. -/
def Unlinked (t : TopoTables) (k : TopoLevel) (n : Nat) : Prop :=
  ∀ m < n, ∀ i : TopoLevel, i.rank < k.rank → (t.dom k m).parents i = topoIdUnset

/-- A new domain has no links. -/
theorem Unlinked.add {sid : Nat} (h : Unlinked t k n) (hk : k ≠ .cpu)
    (hi : t.initDomain k sid n = some t₁) (hu : t₁.updateCpus k n cpus = some t') :
    Unlinked t' k (n + 1) := by
  obtain ⟨-, hother, hnew, -, -, -, -⟩ := initDomain_eq hi
  obtain ⟨hother', -, hpar, -, -⟩ := updateCpus_eq hk hu
  intro m hm i hrank
  rcases Nat.lt_succ_iff_lt_or_eq.mp hm with hm | rfl
  · rw [hother' m hm.ne, hother m hm.ne]
    exact h m hm i hrank
  · rw [hpar, hnew, newDomain_parents hrank]

/-- What the CPUs need for an update -/
structure Ready (t : TopoTables) (valid : Finset Nat) (k : TopoLevel) : Prop where
  cpus : CpuLevel t valid
  sMax : ∀ c ∈ valid, (c : Int) ≤ t.sMax .cpu
  lower : ∀ j, k.rank < j.rank → ∀ c ∈ valid, 0 ≤ t.cpuParentLid j c

theorem Ready.only (h : Ready t valid k) (hk : k ≠ .cpu) (ho : Only k t t') (hs : t'.sMax .cpu = t.sMax .cpu) :
    Ready t' valid k where
  cpus := h.cpus.only ho hk
  sMax := by
    rw [hs]
    exact h.sMax
  lower j hj c hc := by
    rw [ho.cpuParentLid hk (ne_of_rank_lt hj)]
    exact h.lower j hj c hc

/-- The link after one update is the old one, or the new domain. -/
theorem link_update (hk : k ≠ .cpu) (h : t.updateCpuAndParents k m c = some t') (hj : k.rank < j.rank)
    (c' : Nat) (hnn : 0 ≤ t.cpuParentLid j c') :
    t'.link k j c' = if t.cpuParentLid j c = t.cpuParentLid j c' then (m : Int) else t.link k j c' := by
  have hjk := ne_of_rank_lt hj
  have hf := updateCpuAndParents_fills hk h
  obtain ⟨-, -, -, -, -, -, -, hdom⟩ := updateCpuAndParents_eq hk h
  have hcast : ((t.cpuParentLid j c').toNat : Int) = t.cpuParentLid j c' := Int.toNat_of_nonneg hnn
  rw [link, hf.only.cpuParentLid hk hjk, hdom j hjk, hcast]
  by_cases heq : t.cpuParentLid j c = t.cpuParentLid j c'
  · rw [if_pos ⟨hj, heq⟩, if_pos heq]
    exact Function.update_self ..
  · rw [if_neg fun hin => heq hin.2, if_neg heq, link]

/-- The loop succeeds exactly for valid CPUs whose links are unset or the
new one already. -/
theorem exists_updateCpus_iff (hk : k ≠ .cpu) {cs : List Nat} (hready : Ready t valid k) :
    (∃ t', cs.foldlM (updateCpuAndParents k m) t = some t')
      ↔ ∀ c ∈ cs, c ∈ valid ∧ ∀ j, k.rank < j.rank → t.link k j c = topoIdUnset ∨ t.link k j c = m := by
  induction cs generalizing t with
  | nil => exact iff_of_true ⟨t, rfl⟩ fun c hc => absurd hc List.not_mem_nil
  | cons c cs ih =>
      rw [List.forall_mem_cons, List.foldlM_cons]
      constructor
      · rintro ⟨t', h⟩
        obtain ⟨t₁, h₁, h⟩ := Option.bind_eq_some_iff.mp h
        have hf := updateCpuAndParents_fills hk h₁
        obtain ⟨hs, hall, -, -, -, -, -, -⟩ := updateCpuAndParents_eq hk h₁
        have hfirst : ∀ j, k.rank < j.rank → t.link k j c = topoIdUnset ∨ t.link k j c = m := fun j hj =>
          (hall j hj).2
        have hrest := (ih (hready.only hk hf.only (by rw [hf.sMax]))).mp ⟨t', h⟩
        refine ⟨⟨hready.cpus.mem_of_nonneg hs, hfirst⟩, fun c' hc' => ⟨(hrest c' hc').1, fun j hj => ?_⟩⟩
        have hlink := (hrest c' hc').2 j hj
        rw [link_update hk h₁ hj c' (hready.lower j hj c' (hrest c' hc').1)] at hlink
        split at hlink
        case isTrue heq =>
          have hsame : t.link k j c = t.link k j c' := by rw [link, link, heq]
          rw [← hsame]
          exact hfirst j hj
        case isFalse => exact hlink
      · rintro ⟨⟨hv, hfirst⟩, hrest⟩
        have hs : 0 ≤ t.sToL .cpu c := by
          rw [hready.cpus.sToL c hv]
          exact Int.natCast_nonneg _
        obtain ⟨t₁, h₁⟩ := exists_updateCpuAndParents hk (hready.sMax c hv) hs fun j hj =>
          ⟨hready.lower j hj c hv, hfirst j hj⟩
        have hf := updateCpuAndParents_fills hk h₁
        obtain ⟨t', h⟩ := (ih (hready.only hk hf.only (by rw [hf.sMax]))).mpr fun c' hc' => by
          refine ⟨(hrest c' hc').1, fun j hj => ?_⟩
          rw [link_update hk h₁ hj c' (hready.lower j hj c' (hrest c' hc').1)]
          split
          · exact Or.inr rfl
          · exact (hrest c' hc').2 j hj
        exact ⟨t', by rw [h₁]; exact h⟩

/-! ## A run -/

/-- What the stages for the lower levels have left for level `k` -/
structure Prepared (t : TopoTables) (valid : Finset Nat) (k : TopoLevel) : Prop where
  cpus : CpuLevel t valid
  lt : ∀ c ∈ valid, c < topoNrCpus
  sMax : ∀ c ∈ valid, (c : Int) ≤ t.sMax .cpu
  lower : ∀ j, k.rank < j.rank → Built t valid j (t.count j) valid
  unlinked : ∀ i : TopoLevel, i.rank ≤ k.rank → ∀ j, k.rank < j.rank → ∀ c ∈ valid,
    t.link i j c = topoIdUnset

theorem Prepared.ready (h : Prepared t valid k) : Ready t valid k :=
  ⟨h.cpus, h.sMax, fun j hj _ hc => (h.lower j hj).part.nonneg hc⟩

theorem Prepared.fresh (h : Prepared t valid k) (hk : k ≠ .cpu) : Fresh t valid k := by
  intro c hc
  have hlink := h.unlinked k (Nat.le_refl _) .cpu (cpu_rank_max hk) c hc
  rwa [link, h.cpus.cpuParentLid_cpu hc, Int.toNat_natCast] at hlink

/-- The two sets have no domain of a lower level in common. -/
def Apart (t : TopoTables) (k : TopoLevel) (P Q : Finset Nat) : Prop :=
  ∀ c ∈ P, ∀ c' ∈ Q, ∀ j, k.rank < j.rank → t.cpuParentLid j c ≠ t.cpuParentLid j c'

/-- The CPUs of the domains made, each given by its CPUs and its system id -/
def covered (made : List (Finset Nat × Nat)) : Finset Nat := made.foldr (fun p U => p.1 ∪ U) ∅

theorem mem_covered {made : List (Finset Nat × Nat)} : c ∈ covered made ↔ ∃ p ∈ made, c ∈ p.1 := by
  induction made with
  | nil => simp [covered]
  | cons p made ih =>
      rw [List.exists_mem_cons_iff, ← ih]
      exact Finset.mem_union

theorem covered_append (made : List (Finset Nat × Nat)) (p : Finset Nat × Nat) :
    covered (made ++ [p]) = covered made ∪ p.1 := by
  ext c
  simp only [mem_covered, Finset.mem_union, List.mem_append, List.mem_singleton, or_and_right, exists_or,
    exists_eq_left]

/-- The loops have made these domains. -/
structure Makes (t : TopoTables) (valid : Finset Nat) (k : TopoLevel) (max : Int)
    (made : List (Finset Nat × Nat)) (scan : ConfigScan) : Prop where
  inv : ConfigInv t valid k (covered made) scan
  length : scan.logicalId = made.length
  domains : ∀ m p, made[m]? = some p →
    (scan.tables.dom k m).systemId = p.2 ∧ (scan.tables.dom k m).cpuSidMask = p.1
  unset : ∀ j, k.rank < j.rank → ∀ c ∈ valid,
    (∀ c' ∈ covered made, t.cpuParentLid j c' ≠ t.cpuParentLid j c) →
    scan.tables.link k j c = topoIdUnset
  sMaxCpu : scan.tables.sMax .cpu = t.sMax .cpu
  sMax : scan.tables.sMax k = max
  le : scan.logicalId ≤ scan.systemId
  apart : made.Pairwise fun p q => Apart t k p.1 q.1
  unlinked : Unlinked scan.tables k scan.logicalId

section Makes

variable {max : Int} {made : List (Finset Nat × Nat)} {scan scan' : ConfigScan}

/-- A CPU is linked to a domain made before, or to none. -/
theorem Makes.link_iff (h : Makes t valid k max made scan) (hk : k ≠ .cpu) (hj : k.rank < j.rank)
    (hc : c ∈ valid) :
    (scan.tables.link k j c = topoIdUnset ∨ scan.tables.link k j c = scan.logicalId)
      ↔ ∀ c' ∈ covered made, t.cpuParentLid j c' ≠ t.cpuParentLid j c := by
  constructor
  · intro hlink c' hc' heq
    have hjk := ne_of_rank_lt hj
    obtain ⟨m, hm, hcm⟩ := h.inv.built.part.member c' hc'
    have hset := (h.inv.built.part.below j hj c' hc').2
    rw [h.inv.only.cpuParentLid hk hjk, heq, ← h.inv.only.cpuParentLid hk hjk c, hcm] at hset
    rw [link, hset] at hlink
    rcases hlink with hlink | hlink
    · exact absurd hlink (by unfold topoIdUnset; omega)
    · omega
  · exact fun hall => Or.inl (h.unset j hj c hc hall)

theorem initDomain_isSome {sid : Nat} :
    (∃ t', t.initDomain k sid n = some t') ↔ (sid : Int) ≤ t.sMax k ∧ (n : Int) ≤ t.sMax k := by
  unfold initDomain
  constructor
  · rintro ⟨t', h⟩
    have hnot := (Option.ite_none_left_eq_some.mp h).1
    omega
  · intro h
    rw [if_neg (by omega)]
    exact ⟨_, rfl⟩

theorem initDomain_link {sid : Nat} (hk : k ≠ .cpu) (hj : k.rank < j.rank)
    (h : t.initDomain k sid n = some t') (c : Nat) : t'.link k j c = t.link k j c := by
  have hjk := ne_of_rank_lt hj
  rw [link, (initDomain_only h).cpuParentLid hk hjk, (initDomain_eq h).1 j hjk, link]

/-- A domain can be added if its system id has a place, all of its CPUs are
valid, and it shares no lower domain with those made before. -/
theorem Makes.exists_addDomain_iff (h : Makes t valid k max made scan) (hp : Prepared t valid k)
    (hk : k ≠ .cpu) (hlt : ∀ c ∈ cpus, c < topoNrCpus) :
    (∃ scan', TopoTables.addDomain k scan cpus = some scan')
      ↔ (scan.systemId : Int) ≤ max ∧ cpus ⊆ valid ∧ Apart t k (covered made) cpus := by
  have hready : ∀ t₁, scan.tables.initDomain k scan.systemId scan.logicalId = some t₁ →
      ((∃ t', t₁.updateCpus k scan.logicalId cpus = some t') ↔ cpus ⊆ valid ∧ Apart t k (covered made) cpus) := by
    intro t₁ h₁
    have hready₁ : Ready t₁ valid k := by
      refine (hp.ready.only hk h.inv.only h.sMaxCpu).only hk (initDomain_only h₁) ?_
      rw [(initDomain_eq h₁).2.2.2.2.1]
    have hiff := @exists_updateCpus_iff t₁ k valid scan.logicalId hk (forEachCpu cpus) hready₁
    rw [updateCpus, hiff]
    constructor
    · intro hall
      have hsub : cpus ⊆ valid := fun c hc => (hall c (mem_forEachCpu.mpr ⟨hlt c hc, hc⟩)).1
      refine ⟨hsub, fun c' hc' c hc j hj => ?_⟩
      have hlink := (hall c (mem_forEachCpu.mpr ⟨hlt c hc, hc⟩)).2 j hj
      rw [initDomain_link hk hj h₁] at hlink
      exact (h.link_iff hk hj (hsub hc)).mp hlink c' hc'
    · rintro ⟨hsub, hapart⟩ c hin
      have hc := (mem_forEachCpu.mp hin).2
      refine ⟨hsub hc, fun j hj => ?_⟩
      rw [initDomain_link hk hj h₁]
      exact (h.link_iff hk hj (hsub hc)).mpr fun c' hc' => hapart c' hc' c hc j hj
  unfold TopoTables.addDomain
  constructor
  · rintro ⟨scan', hadd⟩
    obtain ⟨t₁, h₁, hadd⟩ := Option.bind_eq_some_iff.mp hadd
    obtain ⟨t₂, h₂, -⟩ := Option.bind_eq_some_iff.mp hadd
    have hid := (initDomain_isSome.mp ⟨t₁, h₁⟩).1
    rw [h.sMax] at hid
    exact ⟨hid, (hready t₁ h₁).mp ⟨t₂, h₂⟩⟩
  · rintro ⟨hid, hrest⟩
    have hle := h.le
    obtain ⟨t₁, h₁⟩ := initDomain_isSome.mpr
      ⟨(h.sMax.symm ▸ hid : (scan.systemId : Int) ≤ scan.tables.sMax k),
        (by rw [h.sMax]; omega : (scan.logicalId : Int) ≤ scan.tables.sMax k)⟩
    obtain ⟨t₂, h₂⟩ := (hready t₁ h₁).mpr hrest
    refine ⟨⟨t₂, scan.systemId + 1, scan.logicalId + 1, scan.visitedCpus + (forEachCpu cpus).length⟩, ?_⟩
    rw [h₁, Option.bind_eq_bind, Option.bind_some, h₂]
    rfl

/-- The domain that is added -/
theorem Makes.addDomain (h : Makes t valid k max made scan) (hp : Prepared t valid k) (hk : k ≠ .cpu)
    (hlt : ∀ c ∈ cpus, c < topoNrCpus) (hne : cpus.Nonempty)
    (hadd : TopoTables.addDomain k scan cpus = some scan') :
    Makes t valid k max (made ++ [(cpus, scan.systemId)]) scan'
      ∧ scan'.systemId = scan.systemId + 1 := by
  obtain ⟨-, hsub, hapart⟩ := (h.exists_addDomain_iff hp hk hlt).mp ⟨scan', hadd⟩
  obtain ⟨c₀, hc₀⟩ := hne
  have hinv := h.inv.addDomain hk ⟨c₀, hc₀, hlt c₀ hc₀⟩ hadd
  rw [toFinset_forEachCpu hlt, ← covered_append made (cpus, scan.systemId)] at hinv
  unfold TopoTables.addDomain at hadd
  obtain ⟨t₁, h₁, hadd⟩ := Option.bind_eq_some_iff.mp hadd
  obtain ⟨t₂, h₂, hadd⟩ := Option.bind_eq_some_iff.mp hadd
  obtain rfl := Option.some.inj hadd
  obtain ⟨hdom₁, hother₁, hnew₁, -, hsMax₁, -, -⟩ := initDomain_eq h₁
  obtain ⟨hother₂, hmask₂, hpar₂, hdom₂, hf₂⟩ := updateCpus_eq hk h₂
  have hlid : ∀ j ≠ k, ∀ c, t₁.cpuParentLid j c = t.cpuParentLid j c := fun j hj c => by
    rw [(initDomain_only h₁).cpuParentLid hk hj, h.inv.only.cpuParentLid hk hj]
  refine ⟨⟨hinv, ?_, fun m p hp => ?_, fun j hj c hc hall => ?_, ?_, ?_, ?_, ?_,
    h.unlinked.add hk h₁ h₂⟩, rfl⟩
  · rw [List.length_append, List.length_singleton, ← h.length]
  · rcases Nat.lt_trichotomy m made.length with hm | rfl | hm
    · rw [List.getElem?_append_left hm] at hp
      obtain ⟨hsid, hmask⟩ := h.domains m p hp
      have hmn : m ≠ scan.logicalId := by
        rw [h.length]
        exact Nat.ne_of_lt hm
      change (t₂.dom k m).systemId = _ ∧ (t₂.dom k m).cpuSidMask = _
      rw [hother₂ m hmn, hother₁ m hmn]
      exact ⟨hsid, hmask⟩
    · rw [List.getElem?_append_right (Nat.le_refl _), Nat.sub_self] at hp
      obtain rfl := Option.some.inj hp
      change (t₂.dom k made.length).systemId = scan.systemId ∧ (t₂.dom k made.length).cpuSidMask = cpus
      rw [← h.length, hf₂.systemId, hmask₂, hnew₁, toFinset_forEachCpu hlt]
      have hempty : (newDomain k scan.systemId scan.logicalId).cpuSidMask = ∅ := if_neg hk
      rw [hempty, Finset.empty_union]
      exact ⟨rfl, rfl⟩
    · rw [List.getElem?_eq_none (by rw [List.length_append, List.length_singleton]; exact hm)] at hp
      cases hp
  · have hjk := ne_of_rank_lt hj
    have hcov : covered (made ++ [(cpus, scan.systemId)]) = covered made ∪ cpus := covered_append made _
    rw [hcov] at hall
    have hnn : 0 ≤ t.cpuParentLid j c := hp.ready.lower j hj c hc
    have hold := h.unset j hj c hc fun c' hc' => hall c' (Finset.mem_union_left _ hc')
    have hsame : t₂.dom j (t.cpuParentLid j c).toNat = t₁.dom j (t.cpuParentLid j c).toNat := by
      refine hdom₂ j hjk _ fun c' hc' => ?_
      rw [hlid j hjk, Int.toNat_of_nonneg hnn]
      exact hall c' (Finset.mem_union_right _ (mem_forEachCpu.mp hc').2)
    change t₂.link k j c = topoIdUnset
    rw [link, hf₂.only.cpuParentLid hk hjk, hlid j hjk, hsame, hdom₁ j hjk]
    rwa [link, h.inv.only.cpuParentLid hk hjk] at hold
  · change t₂.sMax .cpu = _
    rw [hf₂.sMax, hsMax₁, h.sMaxCpu]
  · change t₂.sMax k = _
    rw [hf₂.sMax, hsMax₁, h.sMax]
  · exact Nat.succ_le_succ h.le
  · rw [List.pairwise_append]
    refine ⟨h.apart, List.pairwise_singleton _ _, fun p hp q hq => ?_⟩
    obtain rfl := List.mem_singleton.mp hq
    exact fun c hc => hapart c (mem_covered.mpr ⟨p, hp, hc⟩)

/-! ## The loops -/

/-- The lists with valid CPUs and their indices, from `n` on -/
def kept (valid : Finset Nat) (config : List (Finset Nat)) (n : Nat) : List (Finset Nat × Nat) :=
  (config.zipIdx n).filter fun p => p.1 ∩ valid ≠ ∅

theorem kept_cons_of_empty {config : List (Finset Nat)} (h : cpus ∩ valid = ∅) :
    kept valid (cpus :: config) n = kept valid config (n + 1) := by
  rw [kept, List.zipIdx_cons, List.filter_cons_of_neg (by simpa using h), kept]

theorem kept_cons_of_ne {config : List (Finset Nat)} (h : cpus ∩ valid ≠ ∅) :
    kept valid (cpus :: config) n = (cpus, n) :: kept valid config (n + 1) := by
  rw [kept, List.zipIdx_cons, List.filter_cons_of_pos (by simpa using h), kept]

theorem mem_kept {config : List (Finset Nat)} {p : Finset Nat × Nat} :
    p ∈ kept valid config 0 ↔ config[p.2]? = some p.1 ∧ p.1 ∩ valid ≠ ∅ := by
  rw [kept, List.mem_filter, decide_eq_true_eq, List.mk_mem_zipIdx_iff_getElem?]

/-- Further domains that can be made one after the other -/
def Addable (t : TopoTables) (k : TopoLevel) (valid : Finset Nat) (max : Int)
    (made added : List (Finset Nat × Nat)) : Prop :=
  (∀ p ∈ added, (p.2 : Int) ≤ max ∧ p.1 ⊆ valid) ∧ (made ++ added).Pairwise fun p q => Apart t k p.1 q.1

theorem addable_nil (h : made.Pairwise fun p q => Apart t k p.1 q.1) : Addable t k valid max made [] :=
  ⟨fun p hp => absurd hp List.not_mem_nil, by rwa [List.append_nil]⟩

theorem addable_cons {p : Finset Nat × Nat} {added : List (Finset Nat × Nat)} :
    Addable t k valid max made (p :: added)
      ↔ ((p.2 : Int) ≤ max ∧ p.1 ⊆ valid) ∧ Addable t k valid max (made ++ [p]) added := by
  rw [Addable, Addable, List.forall_mem_cons, List.append_assoc, List.singleton_append, and_assoc]

theorem Addable.apart {p : Finset Nat × Nat} {added : List (Finset Nat × Nat)}
    (h : Addable t k valid max made (p :: added)) : Apart t k (covered made) p.1 := by
  intro c hc
  obtain ⟨q, hq, hcq⟩ := mem_covered.mp hc
  exact (List.pairwise_append.mp h.2).2.2 q hq p List.mem_cons_self c hcq

theorem Makes.skip (h : Makes t valid k max made scan) :
    Makes t valid k max made { scan with systemId := scan.systemId + 1 } where
  inv := ⟨h.inv.built, h.inv.cpus, h.inv.only, h.inv.visited, fun m hm =>
    (h.inv.systemId m hm).trans (Nat.lt_succ_self _)⟩
  length := h.length
  domains := h.domains
  unset := h.unset
  sMaxCpu := h.sMaxCpu
  sMax := h.sMax
  le := h.le.trans (Nat.le_succ _)
  apart := h.apart
  unlinked := h.unlinked

/-- The loop over the lists makes the kept ones, if it can. -/
theorem Makes.configLoop (hp : Prepared t valid k) (hk : k ≠ .cpu) {config : List (Finset Nat)}
    (hlt : ∀ cpus ∈ config, ∀ c ∈ cpus, c < topoNrCpus) (h : Makes t valid k max made scan) :
    ((∃ scan', config.foldlM (configStep k valid) scan = some scan')
      ↔ Addable t k valid max made (kept valid config scan.systemId))
    ∧ ∀ scan', config.foldlM (configStep k valid) scan = some scan' →
      Makes t valid k max (made ++ kept valid config scan.systemId) scan'
        ∧ scan'.systemId = scan.systemId + config.length := by
  induction config generalizing made scan with
  | nil =>
      refine ⟨iff_of_true ⟨scan, rfl⟩ (addable_nil h.apart), fun scan' hrun => ?_⟩
      obtain rfl := Option.some.inj hrun
      refine ⟨?_, rfl⟩
      rwa [kept, List.zipIdx_nil, List.filter_nil, List.append_nil]
  | cons cpus config ih =>
      have hltc := hlt cpus List.mem_cons_self
      have hltr := fun cpus' hin => hlt cpus' (List.mem_cons_of_mem _ hin)
      rw [List.foldlM_cons]
      by_cases hempty : cpus ∩ valid = ∅
      · rw [configStep, if_pos hempty, kept_cons_of_empty hempty, List.length_cons]
        obtain ⟨hiff, hmakes⟩ := ih hltr h.skip
        refine ⟨hiff, fun scan' hrun => ?_⟩
        obtain ⟨hmade, hid⟩ := hmakes scan' hrun
        exact ⟨hmade, by rw [hid]; change scan.systemId + 1 + _ = _; omega⟩
      · rw [configStep, if_neg hempty, kept_cons_of_ne hempty, List.length_cons]
        obtain ⟨c, hc⟩ := Finset.nonempty_iff_ne_empty.mpr hempty
        have hne : cpus.Nonempty := ⟨c, (Finset.mem_inter.mp hc).1⟩
        have hadd := h.exists_addDomain_iff hp hk hltc
        constructor
        · constructor
          · rintro ⟨scan', hrun⟩
            obtain ⟨scan₁, h₁, hrun⟩ := Option.bind_eq_some_iff.mp hrun
            obtain ⟨hid, hsub, -⟩ := hadd.mp ⟨scan₁, h₁⟩
            obtain ⟨hmade, hnext⟩ := h.addDomain hp hk hltc hne h₁
            refine addable_cons.mpr ⟨⟨hid, hsub⟩, ?_⟩
            rw [← hnext]
            exact (ih hltr hmade).1.mp ⟨scan', hrun⟩
          · intro haddable
            obtain ⟨⟨hid, hsub⟩, hrest⟩ := addable_cons.mp haddable
            obtain ⟨scan₁, h₁⟩ := hadd.mpr ⟨hid, hsub, haddable.apart⟩
            obtain ⟨hmade, hnext⟩ := h.addDomain hp hk hltc hne h₁
            rw [← hnext] at hrest
            obtain ⟨scan', hrun⟩ := (ih hltr hmade).1.mpr hrest
            exact ⟨scan', by rw [h₁]; exact hrun⟩
        · intro scan' hrun
          obtain ⟨scan₁, h₁, hrun⟩ := Option.bind_eq_some_iff.mp hrun
          obtain ⟨hmade, hnext⟩ := h.addDomain hp hk hltc hne h₁
          obtain ⟨hmade', hid⟩ := (ih hltr hmade).2 scan' hrun
          rw [hnext, List.append_assoc] at hmade'
          exact ⟨hmade', by rw [hid, hnext]; omega⟩

/-- The domains of the level below that have no CPU in `U` -/
def remaining (t : TopoTables) (below : TopoLevel) (U : Finset Nat) (is : List Nat) : List Nat :=
  is.filter fun i => Disjoint (t.dom below i).cpuSidMask U

/-- The domains that are made of them -/
def remainingMade (t : TopoTables) (below : TopoLevel) (U : Finset Nat) (is : List Nat) (n : Nat) :
    List (Finset Nat × Nat) :=
  ((remaining t below U is).zipIdx n).map fun p => ((t.dom below p.1).cpuSidMask, p.2)

variable {below : TopoLevel} {i : Nat} {is : List Nat}

theorem remaining_cons_of_disjoint (h : Disjoint (t.dom below i).cpuSidMask U) :
    remaining t below U (i :: is) = i :: remaining t below U is :=
  List.filter_cons_of_pos (by simpa using h)

theorem remaining_cons_of_not (h : ¬ Disjoint (t.dom below i).cpuSidMask U) :
    remaining t below U (i :: is) = remaining t below U is :=
  List.filter_cons_of_neg (by simpa using h)

theorem Makes.covered_sub (h : Makes t valid k max made scan) : covered made ⊆ valid :=
  h.inv.built.part.sub

/-- CPUs with a common lower domain are in the same domain of the level
below. -/
theorem Prepared.same_below (hp : Prepared t valid k) (hbelow : below.rank = k.rank + 1)
    (hj : k.rank < j.rank) (hc : c ∈ valid) (hc' : c' ∈ valid)
    (heq : t.cpuParentLid j c = t.cpuParentLid j c') : t.cpuParentLid below c = t.cpuParentLid below c' := by
  have hb := hp.lower below (by omega)
  rcases Nat.eq_or_lt_of_le (by omega : below.rank ≤ j.rank) with hrank | hrank
  · have hsame : below = j := by
      cases below <;> cases j <;> first | rfl | exact absurd hrank (by decide)
    rw [hsame, heq]
  · rw [← (hb.part.below j hrank c hc).2, ← (hb.part.below j hrank c' hc').2, heq]

/-- A domain of the level below is unlinked if none of its CPUs is in a
domain made before; then it shares no lower domain with those. -/
theorem Makes.remaining_iff (h : Makes t valid k max made scan) (hp : Prepared t valid k) (hk : k ≠ .cpu)
    (hbelow : below.rank = k.rank + 1) (hi : i < t.count below) :
    (scan.tables.dom below i).parents k = topoIdUnset
      ↔ Disjoint (t.dom below i).cpuSidMask (covered made) := by
  have hb := hp.lower below (by omega)
  have hrank : k.rank < below.rank := by omega
  obtain ⟨c, hc⟩ := hb.nonempty i hi
  obtain ⟨hv, hlid⟩ := (hb.part.sidMask i hi c).mp hc
  have hlink : (scan.tables.dom below i).parents k = scan.tables.link k below c := by
    rw [link, h.inv.only.cpuParentLid hk (ne_of_rank_lt hrank), hlid, Int.toNat_natCast]
  have hnot : ∀ c' ∈ covered made, (t.cpuParentLid below c' ≠ t.cpuParentLid below c
      ↔ c' ∉ (t.dom below i).cpuSidMask) := by
    intro c' hc'
    rw [hb.part.sidMask i hi, hlid]
    exact not_congr (and_iff_right (h.covered_sub hc')).symm
  rw [hlink]
  constructor
  · intro hunset
    refine Finset.disjoint_right.mpr fun c' hc' => ?_
    exact (hnot c' hc').mp ((h.link_iff hk hrank hv).mp (Or.inl hunset) c' hc')
  · intro hdisj
    exact h.unset below hrank c hv fun c' hc' => (hnot c' hc').mpr (Finset.disjoint_right.mp hdisj hc')

theorem Makes.apart_remaining (h : Makes t valid k max made scan) (hp : Prepared t valid k)
    (hbelow : below.rank = k.rank + 1) (hi : i < t.count below)
    (hdisj : Disjoint (t.dom below i).cpuSidMask (covered made)) :
    Apart t k (covered made) (t.dom below i).cpuSidMask := by
  have hb := hp.lower below (by omega)
  intro c' hc' c hc j hj heq
  obtain ⟨hv, hlid⟩ := (hb.part.sidMask i hi c).mp hc
  have hv' := h.covered_sub hc'
  refine Finset.disjoint_right.mp hdisj hc' ((hb.part.sidMask i hi c').mpr ⟨hv', ?_⟩)
  rw [hp.same_below hbelow hj hv' hv heq, hlid]

theorem Prepared.disjoint_below (hp : Prepared t valid k) (hbelow : below.rank = k.rank + 1)
    (hi : i < t.count below) (hn : n < t.count below) (hne : i ≠ n) :
    Disjoint (t.dom below i).cpuSidMask (t.dom below n).cpuSidMask := by
  have hb := hp.lower below (by omega)
  refine Finset.disjoint_left.mpr fun c hc hc' => hne ?_
  have hlid := ((hb.part.sidMask i hi c).mp hc).2
  have hlid' := ((hb.part.sidMask n hn c).mp hc').2
  exact Int.ofNat.inj (hlid.symm.trans hlid')

theorem Prepared.mask_sub (hp : Prepared t valid k) (hbelow : below.rank = k.rank + 1)
    (hi : i < t.count below) : (t.dom below i).cpuSidMask ⊆ valid := fun c hc =>
  (((hp.lower below (by omega)).part.sidMask i hi c).mp hc).1

/-- A domain that is made of one of the level below does not concern the
others of that level. -/
theorem remainingMade_cons (hp : Prepared t valid k) (hbelow : below.rank = k.rank + 1)
    (hi : i < t.count below) (his : ∀ l ∈ is, l < t.count below) (hnew : i ∉ is)
    (hdisj : Disjoint (t.dom below i).cpuSidMask (covered made)) :
    remainingMade t below (covered made) (i :: is) n
      = ((t.dom below i).cpuSidMask, n)
        :: remainingMade t below (covered (made ++ [((t.dom below i).cpuSidMask, n)])) is (n + 1) := by
  have hrest : remaining t below (covered (made ++ [((t.dom below i).cpuSidMask, n)])) is
      = remaining t below (covered made) is := by
    refine List.filter_congr fun l hl => decide_eq_decide.mpr ?_
    rw [covered_append, Finset.disjoint_union_right]
    have hli : l ≠ i := fun heq => hnew (heq ▸ hl)
    exact and_iff_left (hp.disjoint_below hbelow (his l hl) hi hli)
  rw [remainingMade, remainingMade, hrest, remaining_cons_of_disjoint hdisj, List.zipIdx_cons, List.map_cons]

/-- The loop over the level below makes a domain of each one that is left,
if the ids have a place. -/
theorem Makes.remainingLoop (hp : Prepared t valid k) (hk : k ≠ .cpu) (hbelow : below.rank = k.rank + 1)
    (hnd : is.Nodup) (his : ∀ i ∈ is, i < t.count below)
    (h : Makes t valid k max made scan) :
    ((∃ scan', is.foldlM (remainingStep k below) scan = some scan')
      ↔ ∀ p ∈ remainingMade t below (covered made) is scan.systemId, (p.2 : Int) ≤ max)
    ∧ ∀ scan', is.foldlM (remainingStep k below) scan = some scan' →
      Makes t valid k max (made ++ remainingMade t below (covered made) is scan.systemId) scan' := by
  have hrank : k.rank < below.rank := by omega
  induction is generalizing made scan with
  | nil =>
      refine ⟨iff_of_true ⟨scan, rfl⟩ fun p hp => absurd hp List.not_mem_nil, fun scan' hrun => ?_⟩
      obtain rfl := Option.some.inj hrun
      rwa [remainingMade, remaining, List.filter_nil, List.zipIdx_nil, List.map_nil, List.append_nil]
  | cons i is ih =>
      obtain ⟨hnew, hnd⟩ := List.nodup_cons.mp hnd
      have hi := his i List.mem_cons_self
      have hisr := fun l hl => his l (List.mem_cons_of_mem i hl)
      have hmask : (scan.tables.dom below i).cpuSidMask = (t.dom below i).cpuSidMask :=
        h.inv.only.sidMask below (ne_of_rank_lt hrank) i
      rw [List.foldlM_cons, remainingStep]
      by_cases hdisj : Disjoint (t.dom below i).cpuSidMask (covered made)
      · have hltc : ∀ c ∈ (t.dom below i).cpuSidMask, c < topoNrCpus := fun c hc =>
          hp.lt c (hp.mask_sub hbelow hi hc)
        have hne := (hp.lower below hrank).nonempty i hi
        have hmade := remainingMade_cons (n := scan.systemId) hp hbelow hi hisr hnew hdisj
        rw [if_pos ((h.remaining_iff hp hk hbelow hi).mpr hdisj), hmask, hmade]
        have hadd := h.exists_addDomain_iff hp hk hltc
        constructor
        · rw [List.forall_mem_cons]
          constructor
          · rintro ⟨scan', hrun⟩
            obtain ⟨scan₁, h₁, hrun⟩ := Option.bind_eq_some_iff.mp hrun
            obtain ⟨hid, -, -⟩ := hadd.mp ⟨scan₁, h₁⟩
            obtain ⟨hmakes, hnext⟩ := h.addDomain hp hk hltc hne h₁
            refine ⟨hid, ?_⟩
            rw [← hnext]
            exact (ih hnd hisr hmakes).1.mp ⟨scan', hrun⟩
          · rintro ⟨hid, hids⟩
            obtain ⟨scan₁, h₁⟩ := hadd.mpr
              ⟨hid, hp.mask_sub hbelow hi, h.apart_remaining hp hbelow hi hdisj⟩
            obtain ⟨hmakes, hnext⟩ := h.addDomain hp hk hltc hne h₁
            rw [← hnext] at hids
            obtain ⟨scan', hrun⟩ := (ih hnd hisr hmakes).1.mpr hids
            exact ⟨scan', by rw [h₁]; exact hrun⟩
        · intro scan' hrun
          obtain ⟨scan₁, h₁, hrun⟩ := Option.bind_eq_some_iff.mp hrun
          obtain ⟨hmakes, hnext⟩ := h.addDomain hp hk hltc hne h₁
          have hmakes' := (ih hnd hisr hmakes).2 scan' hrun
          rwa [hnext, List.append_assoc] at hmakes'
      · have hmade : remainingMade t below (covered made) (i :: is) scan.systemId
            = remainingMade t below (covered made) is scan.systemId := by
          rw [remainingMade, remainingMade, remaining_cons_of_not hdisj]
        rw [if_neg (mt (h.remaining_iff hp hk hbelow hi).mp hdisj), hmade]
        exact ih hnd hisr h

end Makes

/-! ## The whole function -/

section

variable {below : TopoLevel} {config : List (Finset Nat)} {createRemaining : Bool}

/-- All domains that the function makes -/
def madeFrom (t : TopoTables) (below : TopoLevel) (valid : Finset Nat) (config : List (Finset Nat))
    (createRemaining : Bool) : List (Finset Nat × Nat) :=
  kept valid config 0 ++
    if createRemaining then
      remainingMade t below (covered (kept valid config 0)) (List.range (t.count below)) config.length
    else []

theorem makes_start (hp : Prepared t valid k) (hk : k ≠ .cpu) {max : Int} {cnt : Nat} :
    Makes t valid k max [] ⟨t.initLevel k max cnt, 0, 0, 0⟩ where
  inv := ⟨.start ((hp.fresh hk).of_dom initLevel_only hk rfl) fun x => initLevel_sToL,
    hp.cpus.only initLevel_only hk, initLevel_only, rfl, by simp⟩
  length := rfl
  domains m p h := by cases h
  unset j hj c hc _ := by
    rw [link, (initLevel_only (t := t)).cpuParentLid hk (ne_of_rank_lt hj)]
    exact hp.unlinked k (Nat.le_refl _) j hj c hc
  sMaxCpu := Function.update_of_ne hk.symm _ _
  sMax := Function.update_self ..
  le := Nat.le_refl 0
  apart := List.Pairwise.nil
  unlinked m hm := absurd hm (Nat.not_lt_zero m)

/-- The function makes these domains, if each can be made and they have all
CPUs. -/
theorem topologyInitFromConfig_iff (hp : Prepared t valid k) (hk : k ≠ .cpu)
    (hbelow : below.rank = k.rank + 1) (hlt : ∀ cpus ∈ config, ∀ c ∈ cpus, c < topoNrCpus) :
    ((∃ t', t.topologyInitFromConfig k below valid config createRemaining = some t')
      ↔ Addable t k valid (t.count below - 1) [] (kept valid config 0)
        ∧ (∀ p ∈ madeFrom t below valid config createRemaining, p.2 < t.count below)
        ∧ covered (madeFrom t below valid config createRemaining) = valid)
    ∧ ∀ t', t.topologyInitFromConfig k below valid config createRemaining = some t' →
      ∃ scan, Makes t valid k (t.count below - 1) (madeFrom t below valid config createRemaining) scan
        ∧ t' = scan.tables.truncateLevel k scan.logicalId := by
  have hstart : Makes t valid k (t.count below - 1) []
      ⟨t.initLevel k (t.count below - 1) (t.count below), 0, 0, 0⟩ := makes_start hp hk
  obtain ⟨hiff₁, hmakes₁⟩ := hstart.configLoop hp hk hlt
  -- the loop over the level below, or no loop
  have hloop : ∀ scan₁, config.foldlM (configStep k valid)
        ⟨t.initLevel k (t.count below - 1) (t.count below), 0, 0, 0⟩ = some scan₁ →
      ((∃ scan₂, (if createRemaining then List.range (t.count below) else []).foldlM
          (remainingStep k below) scan₁ = some scan₂)
        ↔ ∀ p ∈ madeFrom t below valid config createRemaining, p.2 < t.count below)
      ∧ ∀ scan₂, (if createRemaining then List.range (t.count below) else []).foldlM
          (remainingStep k below) scan₁ = some scan₂ →
        Makes t valid k (t.count below - 1) (madeFrom t below valid config createRemaining) scan₂ := by
    intro scan₁ h₁
    obtain ⟨hmade, hid⟩ := hmakes₁ scan₁ h₁
    rw [List.nil_append] at hmade
    have hfirst : ∀ p ∈ kept valid config 0, p.2 < t.count below := fun p hp => by
      have := ((hiff₁.mp ⟨scan₁, h₁⟩).1 p hp).1
      omega
    cases createRemaining with
    | false =>
        rw [madeFrom, if_neg Bool.false_ne_true, if_neg Bool.false_ne_true, List.append_nil]
        refine ⟨iff_of_true ⟨scan₁, rfl⟩ hfirst, fun scan₂ h₂ => ?_⟩
        obtain rfl := Option.some.inj h₂
        exact hmade
    | true =>
        have hrest := hmade.remainingLoop hp hk hbelow List.nodup_range
          fun i hi => List.mem_range.mp hi
        rw [hid, Nat.zero_add] at hrest
        rw [madeFrom, if_pos rfl, if_pos rfl]
        refine ⟨hrest.1.trans ?_, hrest.2⟩
        rw [List.forall_mem_append]
        constructor
        · exact fun h => ⟨hfirst, fun p hp => by have := h p hp; omega⟩
        · exact fun h p hp => by have := h.2 p hp; omega
  have hvisited : ∀ scan, Makes t valid k (t.count below - 1)
      (madeFrom t below valid config createRemaining) scan →
      (scan.visitedCpus = scan.tables.count .cpu
        ↔ covered (madeFrom t below valid config createRemaining) = valid) := by
    intro scan hmakes
    rw [hmakes.inv.visited, hmakes.inv.cpus.card]
    constructor
    · exact fun hcard => Finset.eq_of_subset_of_card_le hmakes.covered_sub hcard.ge
    · exact fun heq => by rw [heq]
  unfold topologyInitFromConfig
  constructor
  · constructor
    · rintro ⟨t', h⟩
      obtain ⟨scan₁, h₁, h⟩ := Option.bind_eq_some_iff.mp h
      obtain ⟨scan₂, h₂, h⟩ := Option.bind_eq_some_iff.mp h
      have hcount := not_not.mp (Option.ite_none_left_eq_some.mp h).1
      obtain ⟨hiff₂, hmakes₂⟩ := hloop scan₁ h₁
      exact ⟨hiff₁.mp ⟨scan₁, h₁⟩, hiff₂.mp ⟨scan₂, h₂⟩, (hvisited scan₂ (hmakes₂ scan₂ h₂)).mp hcount⟩
    · rintro ⟨hadd, hids, hcov⟩
      obtain ⟨scan₁, h₁⟩ := hiff₁.mpr hadd
      obtain ⟨hiff₂, hmakes₂⟩ := hloop scan₁ h₁
      obtain ⟨scan₂, h₂⟩ := hiff₂.mpr hids
      have hcount := (hvisited scan₂ (hmakes₂ scan₂ h₂)).mpr hcov
      refine ⟨scan₂.tables.truncateLevel k scan₂.logicalId, ?_⟩
      dsimp only
      rw [h₁, Option.bind_eq_bind, Option.bind_some, h₂, Option.bind_some,
        if_neg (not_not_intro hcount)]
  · intro t' h
    obtain ⟨scan₁, h₁, h⟩ := Option.bind_eq_some_iff.mp h
    obtain ⟨scan₂, h₂, h⟩ := Option.bind_eq_some_iff.mp h
    obtain ⟨-, h⟩ := Option.ite_none_left_eq_some.mp h
    exact ⟨scan₂, (hloop scan₁ h₁).2 scan₂ h₂, (Option.some.inj h).symm⟩

end

end TopoTables

end Nosv
